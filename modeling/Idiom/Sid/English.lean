import Idiom.Lib.BitString
import Idiom.Sid.Wordlist

/-!
# The English mnemonic (`crypto/src/sid/english.rs`)

The 128 bits of an identifier and four bits of a checksum are twelve words of eleven bits each.
-/

namespace Idiom.Sid

open BitString (bitAt window orWindow)
open Dcx (toBeBytes fromBeBytes fromBeBytes_lt fromBeBytes_toBeBytes_of_lt
  length_toBeBytes)
open Ajna (asBytes)

/-- BLAKE3, whose hash has 32 bytes. -/
abbrev Blake3 := List UInt8 → Vector UInt8 32

/-- Errors of the identifiers. -/
inductive SidError where
  | invalidPrefix
  | invalidSyllable (syllable : String)
  | invalidLength (expected got : ℕ)
  | invalidChecksum
  | invalidFormat (message : String)
  | overflow
  | invalidVersion (version : UInt8)
  | invalidWord (word : String)
  deriving DecidableEq

/-! ## Encoding -/

/-- The top four bits of the hash. -/
def checksumBits (blake3 : Blake3) (bytes : List UInt8) : UInt8 :=
  (blake3 (asBytes "AJNA/AEM/V1" ++ bytes))[0] >>> 4

/-- The 128 bits, and the checksum in the upper four bits of one more byte. -/
def mnemonicBits (blake3 : Blake3) (sidInt : ℕ) : List UInt8 :=
  toBeBytes 16 sidInt ++ [checksumBits blake3 (toBeBytes 16 sidInt) <<< 4]

/-- Eleven bits from the given word on. Where three bytes are not left, two or one are read. -/
def wordBits (bits : List UInt8) (i : ℕ) : ℕ :=
  let bitOffset := i * 11
  let byteIdx := bitOffset / 8
  let bitShift := bitOffset % 8
  let bytesAvailable := bits.length - byteIdx
  let b₀ := (bits.getD byteIdx 0).toNat
  let b₁ := (bits.getD (byteIdx + 1) 0).toNat
  let b₂ := (bits.getD (byteIdx + 2) 0).toNat
  if 3 ≤ bytesAvailable then
    ((b₀ <<< 16 ||| b₁ <<< 8 ||| b₂) >>> (24 - bitShift - 11)) &&& 0x7FF
  else if 2 ≤ bytesAvailable then ((b₀ <<< 8 ||| b₁) >>> (16 - bitShift - 11)) &&& 0x7FF
  else ((b₀ <<< bitShift) >>> 5) &&& 0x7FF

open List

/-- Each index has a word (`exists_indexToWord`), so `expect` does not panic. -/
def encodeEnglish (blake3 : Blake3) (sidInt : ℕ) : List String :=
  (range 12).map fun i => (indexToWord (wordBits (mnemonicBits blake3 sidInt) i)).getD ""

/-! ## Decoding -/

/-- The eleven bits of a word are added to up to three bytes. -/
def writeWord (bits : List UInt8) (i index : ℕ) : List UInt8 :=
  let bitOffset := i * 11
  let byteIdx := bitOffset / 8
  let bitShift := bitOffset % 8
  let shiftedValue := (index &&& 0x7FF) <<< (24 - bitShift - 11)
  orWindow bits byteIdx shiftedValue

/-- All words from the `i`-th on. -/
def writeWords (bits : List UInt8) (i : ℕ) : List ℕ → List UInt8
  | [] => bits
  | index :: indices => writeWords (writeWord bits i index) (i + 1) indices

def wordIndices (words : List String) : Except SidError (List ℕ) :=
  words.mapM fun word =>
    match wordToIndex word with
    | some index => .ok index
    | none => .error (.invalidWord word)

/-- The checksum must be that of the 128 bits. -/
def decodeEnglish (blake3 : Blake3) (words : List String) : Except SidError ℕ :=
  if words.length ≠ 12 then .error (.invalidLength 12 words.length)
  else do
    let indices ← wordIndices words
    let bits := writeWords (replicate 17 0) 0 indices
    let dataBytes := bits.take 16
    if bits.getD 16 0 >>> 4 ≠ checksumBits blake3 dataBytes then .error .invalidChecksum
    else .ok (fromBeBytes dataBytes)

theorem testBit_wordBits {bits : List UInt8} (hlength : bits.length = 17) {i t : ℕ} (hi : i < 12)
    (ht : t < 11) : (wordBits bits i).testBit (10 - t) = bitAt bits (11 * i + t) := by
  have hmask : (0x7FF : ℕ) = 2 ^ 11 - 1 := rfl
  have hwindow : (window (bits.getD (i * 11 / 8) 0) (bits.getD (i * 11 / 8 + 1) 0)
      (bits.getD (i * 11 / 8 + 2) 0) >>> (24 - i * 11 % 8 - 11)).testBit (10 - t) =
        bitAt bits (11 * i + t) := by
    rw [Nat.testBit_shiftRight, show 24 - i * 11 % 8 - 11 + (10 - t) =
      23 - (i * 11 % 8 + t) by omega,
      BitString.testBit_window _ _ (by omega)]
    congr 1
    omega
  unfold wordBits
  simp only [hlength]
  by_cases h : i < 11
  · rw [if_pos (by omega), hmask, Nat.and_two_pow_sub_one_eq_mod, Nat.testBit_mod_two_pow,
      decide_eq_true (show 10 - t < 11 by omega)]
    exact hwindow
  · -- the last word reads two bytes; the third byte of its window is none
    obtain rfl : i = 11 := by omega
    rw [← hwindow, if_neg (by decide), if_pos (by decide), hmask, Nat.and_two_pow_sub_one_eq_mod,
      Nat.testBit_mod_two_pow, decide_eq_true (show 10 - t < 11 by omega),
      getD_eq_default _ _ (show bits.length ≤ 11 * 11 / 8 + 2 by rw [hlength])]
    simp only [window, Nat.testBit_shiftRight, Nat.testBit_or, Nat.testBit_shiftLeft]
    have hhigh : decide (24 - 11 * 11 % 8 - 11 + (10 - t) ≥ 16) =
        decide (16 - 11 * 11 % 8 - 11 + (10 - t) ≥ 8) := by
      refine decide_eq_decide.2 ⟨?_, ?_⟩ <;> omega
    rw [hhigh, decide_eq_true (show 24 - 11 * 11 % 8 - 11 + (10 - t) ≥ 8 by omega),
      show 24 - 11 * 11 % 8 - 11 + (10 - t) - 16 = 16 - 11 * 11 % 8 - 11 + (10 - t) - 8 by omega,
      show 24 - 11 * 11 % 8 - 11 + (10 - t) - 8 = 16 - 11 * 11 % 8 - 11 + (10 - t) by omega]
    simp

theorem wordBits_lt (bits : List UInt8) (i : ℕ) : wordBits bits i < 2048 := by
  unfold wordBits
  dsimp only
  split_ifs <;> exact Nat.and_lt_two_pow _ (show 0x7FF < 2 ^ 11 by decide)

/-! ## Writing words -/

@[simp] theorem length_writeWord (bits : List UInt8) (i index : ℕ) :
    (writeWord bits i index).length = bits.length := BitString.length_orWindow ..

@[simp] theorem length_writeWords (bits : List UInt8) (i : ℕ) (indices : List ℕ) :
    (writeWords bits i indices).length = bits.length := by
  induction indices generalizing bits i with
  | nil => rfl
  | cons index indices ih => rw [writeWords, ih, length_writeWord]

theorem bitAt_writeWord {bits : List UInt8} (i : ℕ) {index k : ℕ} (hindex : index < 2048)
    (hk : k < 8 * bits.length) : bitAt (writeWord bits i index) k =
      (bitAt bits k || (decide (k / 11 = i) && index.testBit (10 - k % 11))) := by
  unfold writeWord
  rw [BitString.bitAt_orWindow _ _ _ hk, Nat.testBit_shiftLeft,
    show (0x7FF : ℕ) = 2 ^ 11 - 1 from rfl, Nat.and_two_pow_sub_one_eq_mod, Nat.mod_eq_of_lt hindex]
  have hhigh : ∀ t, 11 ≤ t → index.testBit t = false := fun t ht =>
    Nat.testBit_lt_two_pow (hindex.trans_le (Nat.pow_le_pow_right (show 0 < 2 by decide) ht))
  by_cases hword : k / 11 = i
  · rw [decide_eq_true hword, decide_eq_true (by omega), decide_eq_true (by omega),
      show 23 - (k - 8 * (i * 11 / 8)) - (24 - i * 11 % 8 - 11) = 10 - k % 11 by omega]
    rfl
  · rw [decide_eq_false hword]
    -- outside of its eleven bits the word has no bit
    by_cases hrange : 8 * (i * 11 / 8) ≤ k ∧ k < 8 * (i * 11 / 8) + 24
    · by_cases hshift : 23 - (k - 8 * (i * 11 / 8)) ≥ 24 - i * 11 % 8 - 11
      · rw [hhigh _ (by omega)]
        simp
      · rw [decide_eq_false hshift]
        simp
    · rw [decide_eq_false hrange]
      simp

theorem bitAt_writeWords {bits : List UInt8} {i k : ℕ} {indices : List ℕ}
    (hindices : ∀ index ∈ indices, index < 2048) (hk : k < 8 * bits.length) :
    bitAt (writeWords bits i indices) k = (bitAt bits k ||
      (decide (i ≤ k / 11) && (indices.getD (k / 11 - i) 0).testBit (10 - k % 11))) := by
  induction indices generalizing bits i with
  | nil => simp [writeWords]
  | cons index indices ih =>
    have hrest := fun index' h => hindices index' (mem_cons_of_mem index h)
    rw [writeWords, ih hrest (by simpa using hk),
      bitAt_writeWord i (hindices index mem_cons_self) hk]
    rcases lt_trichotomy (k / 11) i with h | h | h
    · rw [decide_eq_false (show ¬ k / 11 = i by omega),
        decide_eq_false (show ¬ i + 1 ≤ k / 11 by omega),
        decide_eq_false (show ¬ i ≤ k / 11 by omega)]
      simp
    · rw [decide_eq_true h, decide_eq_false (show ¬ i + 1 ≤ k / 11 by omega),
        decide_eq_true (show i ≤ k / 11 by omega), show k / 11 - i = 0 by omega]
      simp
    · rw [decide_eq_false (show ¬ k / 11 = i by omega),
        decide_eq_true (show i + 1 ≤ k / 11 by omega), decide_eq_true (show i ≤ k / 11 by omega),
        show k / 11 - i = (k / 11 - (i + 1)) + 1 by omega]
      simp

theorem bitAt_words {indices : List ℕ} (hindices : ∀ index ∈ indices, index < 2048) {k : ℕ}
    (hk : k < 136) : bitAt (writeWords (replicate 17 0) 0 indices) k =
      (indices.getD (k / 11) 0).testBit (10 - k % 11) := by
  have hzero : bitAt (replicate 17 0) k = false := by
    unfold bitAt
    rw [getD_eq_getElem _ _ (by rw [length_replicate]; omega), getElem_replicate]
    exact Nat.zero_testBit _
  rw [bitAt_writeWords hindices (by exact hk), hzero, Bool.false_or,
    decide_eq_true (Nat.zero_le _), Bool.true_and, Nat.sub_zero]

/-! ## Round trip -/

theorem length_mnemonicBits (blake3 : Blake3) (sidInt : ℕ) :
    (mnemonicBits blake3 sidInt).length = 17 := by
  simp [mnemonicBits]

theorem getD_mnemonicBits (blake3 : Blake3) (sidInt : ℕ) :
    (mnemonicBits blake3 sidInt).getD 16 0 = checksumBits blake3 (toBeBytes 16 sidInt) <<< 4 := by
  unfold mnemonicBits
  rw [getD_append_right _ _ _ _ (by rw [length_toBeBytes]), length_toBeBytes]
  rfl

theorem checksumBits_lt (blake3 : Blake3) (bytes : List UInt8) :
    (checksumBits blake3 bytes).toNat < 16 := by
  unfold checksumBits
  rw [UInt8.toNat_shiftRight]
  have := ((blake3 (asBytes "AJNA/AEM/V1" ++ bytes))[0]).toNat_lt
  rw [show (4 : UInt8).toNat % 8 = 4 from rfl]
  omega

theorem wordIndices_encodeEnglish (blake3 : Blake3) (sidInt : ℕ) :
    wordIndices (encodeEnglish blake3 sidInt) =
      .ok ((range 12).map (wordBits (mnemonicBits blake3 sidInt))) := by
  unfold wordIndices encodeEnglish
  induction range 12 with
  | nil => rfl
  | cons i is ih =>
    obtain ⟨word, hword, _⟩ := exists_indexToWord (wordBits_lt (mnemonicBits blake3 sidInt) i)
    rw [map_cons, mapM_cons, hword, Option.getD_some, wordToIndex_indexToWord hword, ih]
    rfl

theorem writeWords_wordBits (blake3 : Blake3) (sidInt : ℕ) :
    writeWords (replicate 17 0) 0
      ((range 12).map (wordBits (mnemonicBits blake3 sidInt))) =
        mnemonicBits blake3 sidInt := by
  have hlength := length_mnemonicBits blake3 sidInt
  refine BitString.eq_of_bitAt (by rw [length_writeWords, hlength, length_replicate]) ?_
  intro k hk
  rw [length_writeWords, length_replicate] at hk
  rw [bitAt_words (fun index hindex => by
    obtain ⟨i, _, rfl⟩ := mem_map.1 hindex
    exact wordBits_lt _ i) hk]
  by_cases hword : k / 11 < 12
  · rw [getD_eq_getElem _ _ (by simpa using hword), getElem_map, getElem_range,
      testBit_wordBits hlength hword (Nat.mod_lt _ (by decide)), Nat.div_add_mod]
  · -- the last four bits are not part of a word
    rw [getD_eq_default _ _ (by simpa using hword), bitAt,
      show k / 8 = 16 by omega, getD_mnemonicBits, UInt8.toNat_shiftLeft,
      show (4 : UInt8).toNat % 8 = 4 from rfl, Nat.testBit_mod_two_pow, Nat.testBit_shiftLeft,
      decide_eq_false (show ¬ 7 - k % 8 ≥ 4 by omega)]
    simp

/-- **The number comes back** from its twelve words. -/
theorem decodeEnglish_encodeEnglish (blake3 : Blake3) {sidInt : ℕ} (h : sidInt < 2 ^ 128) :
    decodeEnglish blake3 (encodeEnglish blake3 sidInt) = .ok sidInt := by
  have hlength : ¬ (encodeEnglish blake3 sidInt).length ≠ 12 := by
    simp [encodeEnglish]
  have hdata : (mnemonicBits blake3 sidInt).take 16 = toBeBytes 16 sidInt :=
    take_left' (length_toBeBytes 16 sidInt)
  have hchecksum : checksumBits blake3 (toBeBytes 16 sidInt) <<< 4 >>> 4 =
      checksumBits blake3 (toBeBytes 16 sidInt) := by
    have hlt := checksumBits_lt blake3 (toBeBytes 16 sidInt)
    refine UInt8.toNat_inj.1 ?_
    rw [UInt8.toNat_shiftRight, UInt8.toNat_shiftLeft, show (4 : UInt8).toNat % 8 = 4 from rfl,
      Nat.shiftRight_eq_div_pow]
    omega
  unfold decodeEnglish
  rw [if_neg hlength, wordIndices_encodeEnglish]
  simp only [bind, Except.bind]
  rw [writeWords_wordBits, hdata, getD_mnemonicBits, hchecksum, if_neg (fun h => h rfl),
    fromBeBytes_toBeBytes_of_lt (by simpa using h)]

theorem lt_of_decodeEnglish {blake3 : Blake3} {words : List String} {sidInt : ℕ}
    (h : decodeEnglish blake3 words = .ok sidInt) : sidInt < 2 ^ 128 := by
  unfold decodeEnglish at h
  split at h
  · cases h
  · cases hindices : wordIndices words with
    | error e =>
      rw [hindices] at h
      cases h
    | ok indices =>
      rw [hindices] at h
      simp only [bind, Except.bind] at h
      split at h
      · cases h
      · cases h
        refine (fromBeBytes_lt _).trans_le ?_
        rw [length_take, length_writeWords]
        decide

end Idiom.Sid
