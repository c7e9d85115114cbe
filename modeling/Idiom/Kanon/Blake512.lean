import Mathlib.Algebra.Group.Nat.Defs

/-!
# BLAKE-512 (`blake512.rs`)
-/

namespace Idiom.Kanon
namespace Blake512

open List

/-- BLAKE-512 initial values. -/
def iv512 : List UInt64 :=
  [0x6A09E667F3BCC908, 0xBB67AE8584CAA73B, 0x3C6EF372FE94F82B, 0xA54FF53A5F1D36F1,
    0x510E527FADE682D1, 0x9B05688C2B3E6C1F, 0x1F83D9ABFB41BD6B, 0x5BE0CD19137E2179]

/-- 16 round constants (pi digits). -/
def c512 : List UInt64 :=
  [0x243F6A8885A308D3, 0x13198A2E03707344, 0xA4093822299F31D0, 0x082EFA98EC4E6C89,
    0x452821E638D01377, 0xBE5466CF34E90C6C, 0xC0AC29B7C97C50DD, 0x3F84D5B5B5470917,
    0x9216D5D98979FB1B, 0xD1310BA698DFB5AC, 0x2FFD72DBD01ADFB7, 0xB8E1AFED6A267E96,
    0xBA7C9045F12C7F99, 0x24A19947B3916CF7, 0x0801F2E2858EFC16, 0x636920D871574E69]

/-- Message permutation table. -/
def sigma : List (List ℕ) :=
  [[0, 1, 2, 3, 4, 5, 6, 7, 8, 9, 10, 11, 12, 13, 14, 15],
    [14, 10, 4, 8, 9, 15, 13, 6, 1, 12, 0, 2, 11, 7, 5, 3],
    [11, 8, 12, 0, 5, 2, 15, 13, 10, 14, 3, 6, 7, 1, 9, 4],
    [7, 9, 3, 1, 13, 12, 11, 14, 2, 6, 5, 10, 4, 0, 15, 8],
    [9, 0, 5, 7, 2, 4, 10, 15, 14, 1, 11, 12, 6, 8, 3, 13],
    [2, 12, 6, 10, 0, 11, 8, 3, 4, 13, 7, 5, 15, 14, 1, 9],
    [12, 5, 1, 15, 14, 13, 4, 10, 0, 7, 6, 3, 9, 2, 8, 11],
    [13, 11, 7, 14, 12, 1, 3, 9, 5, 0, 15, 4, 8, 6, 2, 10],
    [6, 15, 14, 9, 11, 3, 0, 8, 12, 2, 13, 7, 1, 4, 10, 5],
    [10, 2, 8, 4, 7, 6, 1, 5, 15, 11, 9, 14, 3, 12, 13, 0]]

def word (v : List UInt64) (i : ℕ) : UInt64 := v.getD i 0

def rotr64 (x n : UInt64) : UInt64 := x >>> n ||| x <<< (64 - n)

/-- One mixing. -/
def g (v : List UInt64) (a b c d : ℕ) (m : List UInt64) (e f : ℕ) : List UInt64 :=
  let v := v.set a (word v a + word v b + (word m e ^^^ word c512 f))
  let v := v.set d (rotr64 (word v d ^^^ word v a) 32)
  let v := v.set c (word v c + word v d)
  let v := v.set b (rotr64 (word v b ^^^ word v c) 25)
  let v := v.set a (word v a + word v b + (word m f ^^^ word c512 e))
  let v := v.set d (rotr64 (word v d ^^^ word v a) 16)
  let v := v.set c (word v c + word v d)
  v.set b (rotr64 (word v b ^^^ word v c) 11)

/-- The words of a round's eight mixings: the columns and the diagonals. -/
def mixings : List (ℕ × ℕ × ℕ × ℕ) :=
  [(0, 4, 8, 12), (1, 5, 9, 13), (2, 6, 10, 14), (3, 7, 11, 15), (0, 5, 10, 15), (1, 6, 11, 12),
    (2, 7, 8, 13), (3, 4, 9, 14)]

def round (m v : List UInt64) (r : ℕ) : List UInt64 :=
  let s := sigma.getD (r % 10) []
  mixings.zipIdx.foldl (fun v w =>
    g v w.1.1 w.1.2.1 w.1.2.2.1 w.1.2.2.2 m (s.getD (2 * w.2) 0) (s.getD (2 * w.2 + 1) 0)) v

def fromBeBytes (bytes : List UInt8) : UInt64 := bytes.foldl (fun n b => n <<< 8 ||| b.toUInt64) 0

def toBeBytes (w : UInt64) : List UInt8 :=
  (range 8).map fun i => (w >>> (56 - 8 * UInt64.ofNat i)).toUInt8

/-- One compression step; `t` is the bit-length counter, and the salt is zero. -/
def compress (h : List UInt64) (block : List UInt8) (t : ℕ) : List UInt64 :=
  let m := (range 16).map fun i => fromBeBytes ((block.drop (8 * i)).take 8)
  let tLo := UInt64.ofNat t
  let tHi := UInt64.ofNat (t / 2 ^ 64)
  let v := h ++ c512.take 4 ++ [tLo ^^^ word c512 4, tLo ^^^ word c512 5, tHi ^^^ word c512 6,
    tHi ^^^ word c512 7]
  let v := (range 16).foldl (round m) v
  (range 8).map fun i => word h i ^^^ (word v i ^^^ word v (i + 8))

/-- The full blocks; the state, the counter and the bytes that remain. -/
def absorb (h : List UInt64) (t : ℕ) (data : List UInt8) : List UInt64 × ℕ × List UInt8 :=
  if 128 ≤ data.length then absorb (compress h (data.take 128) (t + 1024)) (t + 1024)
    (data.drop 128)
  else (h, t, data)
termination_by data.length
decreasing_by
  rw [length_drop]
  omega

/-- The last bytes, filled to 111 bytes of a block, and the length of the message in bits. -/
def padding (rem : List UInt8) (totalBits : ℕ) : List UInt8 :=
  rem ++ [0x80] ++ replicate ((238 - rem.length) % 128) 0 ++ [0x01] ++ toBeBytes 0 ++
    toBeBytes (UInt64.ofNat totalBits)

/-- The 64-byte BLAKE-512 digest. -/
def blake512 (data : List UInt8) : List UInt8 :=
  let (h, t, rem) := absorb iv512 0 data
  let remBits := rem.length * 8
  let pad := padding rem (remBits + (data.length - rem.length) * 8)
  let h := compress h (pad.take 128) (if remBits = 0 then 0 else t + remBits)
  let h := if pad.length = 128 then h else compress h (pad.drop 128) 0
  h.flatMap toBeBytes

end Blake512
end Idiom.Kanon
