import Mathlib.Data.List.Basic

/-!
# Hex

Two lower-case digits for each byte; decoding takes both cases.
-/

namespace Idiom.Hex

open String

inductive FromHexError where
  | invalidHexCharacter (c : Char) (index : ℕ)
  | oddLength
  deriving DecidableEq

def digit (n : ℕ) : Char := "0123456789abcdef".toList.getD n '0'

def value (c : Char) : Option ℕ :=
  if 'A' ≤ c ∧ c ≤ 'F' then some (c.toNat - 'A'.toNat + 10)
  else if 'a' ≤ c ∧ c ≤ 'f' then some (c.toNat - 'a'.toNat + 10)
  else if '0' ≤ c ∧ c ≤ '9' then some (c.toNat - '0'.toNat)
  else none

def pair (b : UInt8) : List Char := [digit (b.toNat / 16), digit (b.toNat % 16)]

def encode (bytes : List UInt8) : String := ofList (bytes.flatMap pair)

/-- The decoder goes byte by byte: of a longer character it sees the first one. -/
def firstByte (c : Char) : Char := Char.ofNat ((utf8EncodeChar c).headD 0).toNat

def nibble (c : Char) (index : ℕ) : Except FromHexError ℕ :=
  match value c with
  | some n => .ok n
  | none => .error (.invalidHexCharacter (firstByte c) index)

/-- Decode from `index` on. A character that is left alone is longer than one byte. -/
def decodeFrom (index : ℕ) : List Char → Except FromHexError (List UInt8)
  | [] => .ok []
  | [c] => .error (.invalidHexCharacter (firstByte c) index)
  | a :: b :: rest => do
    let high ← nibble a index
    let low ← nibble b (index + 1)
    let bytes ← decodeFrom (index + 2) rest
    .ok (UInt8.ofNat (16 * high + low) :: bytes)

def decode (s : String) : Except FromHexError (List UInt8) :=
  if s.utf8ByteSize % 2 = 1 then .error .oddLength else decodeFrom 0 s.toList

/-! ## The round trip -/

theorem value_digit {n : ℕ} (h : n < 16) : value (digit n) = some n := by
  revert n
  decide

theorem utf8Size_digit {n : ℕ} (h : n < 16) : (digit n).utf8Size = 1 := by
  revert n
  decide

theorem digit_ne_x {n : ℕ} (h : n < 16) : digit n ≠ 'x' := by
  revert n
  decide

theorem toNat_div_lt (b : UInt8) : b.toNat / 16 < 16 := by
  have := b.toNat_lt
  omega

theorem toNat_mod_lt (b : UInt8) : b.toNat % 16 < 16 := Nat.mod_lt _ (by decide)

theorem decodeFrom_flatMap_pair (bytes : List UInt8) (index : ℕ) :
    decodeFrom index (bytes.flatMap pair) = .ok bytes := by
  induction bytes generalizing index with
  | nil => rfl
  | cons b bytes ih =>
    have hb : 16 * (b.toNat / 16) + b.toNat % 16 = b.toNat := Nat.div_add_mod _ _
    show decodeFrom index (digit (b.toNat / 16) :: digit (b.toNat % 16) :: bytes.flatMap pair) = _
    simp only [decodeFrom, nibble, value_digit (toNat_div_lt b), value_digit (toNat_mod_lt b), ih]
    show Except.ok (UInt8.ofNat (16 * (b.toNat / 16) + b.toNat % 16) :: bytes) = _
    rw [hb, UInt8.ofNat_toNat]

theorem utf8ByteSize_ofList_cons (c : Char) (l : List Char) :
    (ofList (c :: l)).utf8ByteSize = c.utf8Size + (ofList l).utf8ByteSize := by
  have hsplit : ofList (c :: l) = ofList [c] ++ ofList l := by
    rw [← ofList_append]
    rfl
  rw [hsplit, utf8ByteSize_append, ← singleton_eq_ofList, utf8ByteSize_singleton]

theorem utf8ByteSize_encode (bytes : List UInt8) :
    (encode bytes).utf8ByteSize = 2 * bytes.length := by
  induction bytes with
  | nil => rfl
  | cons b bytes ih =>
    show (ofList (digit (b.toNat / 16) :: digit (b.toNat % 16) ::
      bytes.flatMap pair)).utf8ByteSize = _
    rw [utf8ByteSize_ofList_cons, utf8ByteSize_ofList_cons, utf8Size_digit (toNat_div_lt b),
      utf8Size_digit (toNat_mod_lt b)]
    show 1 + (1 + (encode bytes).utf8ByteSize) = _
    rw [List.length_cons]
    omega

theorem decode_encode (bytes : List UInt8) : decode (encode bytes) = .ok bytes := by
  unfold decode
  rw [if_neg, encode, toList_ofList, decodeFrom_flatMap_pair]
  rw [utf8ByteSize_encode]
  omega

theorem not_mark_encode (bytes : List UInt8) : ¬ ['0', 'x'] <+: (encode bytes).toList := by
  rw [encode, toList_ofList]
  cases bytes with
  | nil => decide
  | cons b bytes =>
    intro h
    have h' : ['0', 'x'] <+: digit (b.toNat / 16) :: digit (b.toNat % 16) :: bytes.flatMap pair := h
    rw [List.cons_prefix_cons, List.cons_prefix_cons] at h'
    exact digit_ne_x (toNat_mod_lt b) h'.2.1.symm

end Idiom.Hex
