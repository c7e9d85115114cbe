import Idiom.Lib.Indexing
import Idiom.Sid.Sanskrit

/-!
# One spelling of a value (`crypto/src/sid/encoding.rs`, `english.rs`)

The codecs with their positions, slices and differences; they are `none` where the program would
panic.
-/

namespace Idiom.Sid

open Dcx (fromUtf8 fromBeBytes toBeBytes_fromBeBytes)
open Ajna (asBytes)
open BitString (bitAt orWindow)
open Indexing (range range_of_le getElem?_of_lt minus minus_of_le
  mapM_eq_map)

/-! ## Syllables -/

/-- The first of the lengths at which a syllable is found. -/
def nextSyllableAt (bytes : List UInt8) (pos : ℕ) : List ℕ → Option (Option (ℕ × ℕ))
  | [] => some none
  | len :: lens =>
    if pos + len ≤ bytes.length then do
      let candidate ← range bytes pos (pos + len)
      match (fromUtf8 candidate).bind syllableToIndex with
      | some index => some (some (index, len))
      | none => nextSyllableAt bytes pos lens
    else nextSyllableAt bytes pos lens

variable {bytes : List UInt8} {pos : ℕ}

open List

theorem nextSyllableAt_eq (hpos : pos ≤ bytes.length) (lens : List ℕ) :
    nextSyllableAt bytes pos lens = some (lens.findSome? fun len =>
      (candidate (bytes.drop pos) len).map fun index => (index, len)) := by
  induction lens with
  | nil => rfl
  | cons len lens ih =>
    rw [nextSyllableAt, findSome?_cons, candidate, length_drop]
    by_cases hlen : pos + len ≤ bytes.length
    · rw [if_pos hlen, if_pos (by omega), range_of_le (Nat.le_add_right pos len) hlen,
        Nat.add_sub_cancel_left]
      show (match (fromUtf8 ((bytes.drop pos).take len)).bind syllableToIndex with
        | some index => some (some (index, len))
        | none => nextSyllableAt bytes pos lens) = _
      cases (fromUtf8 ((bytes.drop pos).take len)).bind syllableToIndex with
      | some index => rfl
      | none => exact ih
    · rw [if_neg hlen, if_neg (by omega)]
      exact ih

/-- The next value and multiplier. -/
def addSyllable (value multiplier index : ℕ) : Except SidError (ℕ × ℕ) := do
  let term ← checked (index * multiplier)
  let value ← checked (value + term)
  let multiplier ← checked (multiplier * 125)
  .ok (value, multiplier)

/-- The syllables from a position on. -/
def decodeAt (bytes : List UInt8) (pos value multiplier count : ℕ) :
    Option (Except SidError (ℕ × ℕ)) :=
  if pos < bytes.length then
    match hnext : nextSyllableAt bytes pos [6, 5, 4, 3, 2] with
    | none => none
    | some none => do
      let invalid ← range bytes pos (min (pos + 6) bytes.length)
      some (.error (.invalidSyllable ((fromUtf8 invalid).getD "???")))
    | some (some (index, len)) =>
      match addSyllable value multiplier index with
      | .error e => some (.error e)
      | .ok (value, multiplier) => decodeAt bytes (pos + len) value multiplier (count + 1)
  else some (.ok (value, count))
termination_by bytes.length - pos
decreasing_by
  have hpos : pos < bytes.length := by assumption
  rw [nextSyllableAt_eq hpos.le] at hnext
  have hlen := nextSyllable_pos (Option.some.inj hnext)
  omega

def decodeSanskritAt (sanskrit : String) : Option (Except SidError ℕ) := do
  let decoded ← decodeAt (asBytes sanskrit) 0 0 1 0
  some (do
    let (value, syllableCount) ← decoded
    if syllableCount ≠ sidSyllableCount then
      .error (.invalidLength sidSyllableCount syllableCount)
    else .ok value)

variable {value multiplier count : ℕ}

theorem decodeFrom_of_none (hbytes : bytes ≠ []) (h : nextSyllable bytes = none) :
    decodeFrom value multiplier count bytes =
      .error (.invalidSyllable ((fromUtf8 (bytes.take 6)).getD "???")) := by
  obtain ⟨b, bytes, rfl⟩ := exists_cons_of_ne_nil hbytes
  rw [decodeFrom]
  split
  · rfl
  · next hsome =>
    rw [h] at hsome
    cases hsome

theorem decodeFrom_of_some {index len : ℕ} (h : nextSyllable bytes = some (index, len)) :
    decodeFrom value multiplier count bytes = (do
      let (value, multiplier) ← addSyllable value multiplier index
      decodeFrom value multiplier (count + 1) (bytes.drop len)) := by
  cases bytes with
  | nil =>
    have hlen := nextSyllable_pos h
    simp at hlen
    omega
  | cons b bytes =>
    rw [decodeFrom]
    split
    · next hnone =>
      rw [h] at hnone
      cases hnone
    · next hsome =>
      rw [h] at hsome
      cases hsome
      simp only [addSyllable, bind_assoc]
      rfl

open Option

/-- **No slice is out of bounds**, and what is decoded is what the rest of the bytes decode to. -/
theorem decodeAt_eq (hpos : pos ≤ bytes.length) :
    decodeAt bytes pos value multiplier count =
      some (decodeFrom value multiplier count (bytes.drop pos)) := by
  fun_induction decodeAt bytes pos value multiplier count with
  | case1 pos value multiplier count hlt hpanic =>
    rw [nextSyllableAt_eq hpos] at hpanic
    cases hpanic
  | case2 pos value multiplier count hlt hnone =>
    rw [nextSyllableAt_eq hpos] at hnone
    rw [decodeFrom_of_none (by simpa using hlt) (some.inj hnone),
      range_of_le (by omega) (Nat.min_le_right _ _)]
    have htake : (bytes.drop pos).take (min (pos + 6) bytes.length - pos) =
        (bytes.drop pos).take 6 := by
      rw [take_eq_take_iff, length_drop]
      omega
    rw [htake]
    rfl
  | case3 pos value multiplier count hlt index len hsome e hstep =>
    rw [nextSyllableAt_eq hpos] at hsome
    rw [decodeFrom_of_some (some.inj hsome), hstep]
    rfl
  | case4 pos value multiplier count hlt index len hsome value' multiplier' hstep ih =>
    rw [nextSyllableAt_eq hpos] at hsome
    have hlen := nextSyllable_pos (some.inj hsome)
    rw [length_drop] at hlen
    rw [ih (by omega), decodeFrom_of_some (some.inj hsome), hstep, drop_drop]
    rfl
  | case5 pos value multiplier count hge =>
    rw [drop_eq_nil_of_le (by omega), decodeFrom]

theorem decodeSanskritAt_eq (sanskrit : String) :
    decodeSanskritAt sanskrit = some (decodeSanskrit sanskrit) := by
  unfold decodeSanskritAt
  rw [decodeAt_eq (Nat.zero_le _)]
  rfl

/-- Each value below the capacity of eighteen syllables has one text: the decoder accepts it with
that value, and every other text is an error. -/
theorem decodeSanskritAt_iff (sanskrit : String) :
    ∃ result, decodeSanskritAt sanskrit = some result ∧ ∀ value,
      result = .ok value ↔ value < 125 ^ 18 ∧ sanskrit = encodeSanskrit value := by
  refine ⟨_, decodeSanskritAt_eq sanskrit, fun value => ⟨eq_of_decodeSanskrit, ?_⟩⟩
  rintro ⟨hvalue, rfl⟩
  rw [decodeSanskrit_encodeSanskrit, Nat.mod_eq_of_lt hvalue]

/-! ## Words -/

variable (blake3 : Blake3) {bits : List UInt8} {i : ℕ}

/-- `total - bit_shift - 11`. -/
def shiftOf (total bitShift : ℕ) : Option ℕ := do minus (← minus total bitShift) 11

/-- Eleven bits from the given word on. -/
def wordBitsAt (bits : List UInt8) (i : ℕ) : Option ℕ := do
  let bitOffset := i * 11
  let byteIdx := bitOffset / 8
  let bitShift := bitOffset % 8
  let bytesAvailable ← minus bits.length byteIdx
  if 3 ≤ bytesAvailable then
    let b₀ ← bits[byteIdx]?
    let b₁ ← bits[byteIdx + 1]?
    let b₂ ← bits[byteIdx + 2]?
    let shift ← shiftOf 24 bitShift
    some ((b₀.toNat <<< 16 ||| b₁.toNat <<< 8 ||| b₂.toNat) >>> shift &&& 0x7FF)
  else if 2 ≤ bytesAvailable then
    let b₀ ← bits[byteIdx]?
    let b₁ ← bits[byteIdx + 1]?
    let shift ← shiftOf 16 bitShift
    some ((b₀.toNat <<< 8 ||| b₁.toNat) >>> shift &&& 0x7FF)
  else
    let b₀ ← bits[byteIdx]?
    some ((b₀.toNat <<< bitShift) >>> 5 &&& 0x7FF)

/-- No word is `expect`ed that is not there. -/
def encodeEnglishAt (sidInt : ℕ) : Option (List String) :=
  (range 12).mapM fun i => do indexToWord (← wordBitsAt (mnemonicBits blake3 sidInt) i)

def writeWordAt (bits : List UInt8) (i index : ℕ) : Option (List UInt8) := do
  let bitOffset := i * 11
  let byteIdx := bitOffset / 8
  let bitShift := bitOffset % 8
  let shift ← shiftOf 24 bitShift
  some (orWindow bits byteIdx ((index &&& 0x7FF) <<< shift))

def writeWordsAt (bits : List UInt8) (i : ℕ) : List ℕ → Option (List UInt8)
  | [] => some bits
  | index :: indices => do writeWordsAt (← writeWordAt bits i index) (i + 1) indices

def decodeEnglishAt (words : List String) : Option (Except SidError ℕ) :=
  if words.length ≠ 12 then some (.error (.invalidLength 12 words.length))
  else
    match wordIndices words with
    | .error e => some (.error e)
    | .ok indices => do
      let bits ← writeWordsAt (replicate 17 0) 0 indices
      let dataBytes ← range bits 0 16
      let last : UInt8 ← bits[16]?
      some (if last >>> 4 ≠ checksumBits blake3 dataBytes then .error .invalidChecksum
        else .ok (fromBeBytes dataBytes))

theorem shiftOf_eq {total bitShift : ℕ} (h : bitShift + 11 ≤ total) :
    shiftOf total bitShift = some (total - bitShift - 11) := by
  unfold shiftOf
  rw [minus_of_le (by omega)]
  exact minus_of_le (by omega)

theorem wordBitsAt_eq (hlength : bits.length = 17) (hi : i < 12) :
    wordBitsAt bits i = some (wordBits bits i) := by
  unfold wordBitsAt wordBits
  simp only [minus_of_le (show i * 11 / 8 ≤ bits.length by omega), bind_eq_bind,
    bind_some]
  split
  · next h =>
    rw [getElem?_of_lt (show i * 11 / 8 < bits.length by omega) 0,
      getElem?_of_lt (show i * 11 / 8 + 1 < bits.length by omega) 0,
      getElem?_of_lt (show i * 11 / 8 + 2 < bits.length by omega) 0, shiftOf_eq (by omega)]
    rfl
  · next h =>
    obtain rfl : i = 11 := by omega
    rw [if_pos (by omega), if_pos (by omega), getElem?_of_lt (by omega) 0,
      getElem?_of_lt (by omega) 0]
    rfl

theorem writeWordAt_eq (bits : List UInt8) (i index : ℕ) :
    writeWordAt bits i index = some (writeWord bits i index) := by
  unfold writeWordAt
  dsimp only
  rw [shiftOf_eq (by omega)]
  rfl

theorem writeWordsAt_eq (bits : List UInt8) (i : ℕ) (indices : List ℕ) :
    writeWordsAt bits i indices = some (writeWords bits i indices) := by
  induction indices generalizing bits i with
  | nil => rfl
  | cons index indices ih =>
    rw [writeWordsAt, writeWordAt_eq]
    exact ih _ _

theorem encodeEnglishAt_eq (sidInt : ℕ) :
    encodeEnglishAt blake3 sidInt = some (encodeEnglish blake3 sidInt) := by
  unfold encodeEnglishAt encodeEnglish
  refine mapM_eq_map fun i hi => ?_
  have hword := wordBitsAt_eq (length_mnemonicBits blake3 sidInt) (mem_range.1 hi)
  obtain ⟨word, hget, _⟩ := exists_indexToWord (wordBits_lt (mnemonicBits blake3 sidInt) i)
  rw [hword, bind_eq_bind, bind_some, hget]
  rfl

theorem decodeEnglishAt_eq (words : List String) :
    decodeEnglishAt blake3 words = some (decodeEnglish blake3 words) := by
  unfold decodeEnglishAt decodeEnglish
  split
  · rfl
  · cases wordIndices words with
    | error e => rfl
    | ok indices =>
      have hlength : (writeWords (replicate 17 0) 0 indices).length = 17 := by
        rw [length_writeWords, length_replicate]
      dsimp only
      rw [writeWordsAt_eq, bind_eq_bind, bind_some, range_of_le (Nat.zero_le 16)
        (by omega), bind_eq_bind, bind_some, getElem?_of_lt (by omega) 0]
      rfl

/-! ### The words of what is read -/

variable {indices : List ℕ}

theorem wordIndices_eq_ok {words : List String} (h : wordIndices words = .ok indices) :
    words = indices.map (fun index => (indexToWord index).getD "") ∧
      ∀ index ∈ indices, index < 2048 := by
  unfold wordIndices at h
  induction words generalizing indices with
  | nil =>
    cases h
    exact ⟨rfl, fun index h => nomatch h⟩
  | cons word words ih =>
    rw [mapM_cons] at h
    obtain ⟨index, hindex, h⟩ := bind_eq_ok.1 h
    obtain ⟨rest, hrest, h⟩ := bind_eq_ok.1 h
    cases h
    obtain ⟨hwords, hlt⟩ := ih hrest
    split at hindex
    · next index' hword =>
      cases hindex
      obtain ⟨hbound, hget, _⟩ := idxOf?_eq_some_iff.1 hword
      refine ⟨?_, forall_mem_cons.2 ⟨by rwa [length_wordlist] at hbound, hlt⟩⟩
      rw [map_cons, ← hwords, indexToWord, getElem?_eq_getElem hbound, hget]
      rfl
    · cases hindex

theorem wordBits_words (hindices : ∀ index ∈ indices, index < 2048) (hi : i < 12) :
    wordBits (writeWords (replicate 17 0) 0 indices) i = indices.getD i 0 := by
  have hlength : (writeWords (replicate 17 0) 0 indices).length = 17 := by
    rw [length_writeWords, length_replicate]
  have hlt : indices.getD i 0 < 2 ^ 11 := by
    by_cases h : i < indices.length
    · rw [getD_eq_getElem _ _ h]
      exact hindices _ (getElem_mem h)
    · rw [getD_eq_default _ _ (not_lt.1 h)]
      decide
  refine Nat.eq_of_testBit_eq fun t => ?_
  rcases Nat.lt_or_ge t 11 with ht | ht
  · have hbit := testBit_wordBits hlength hi (show 10 - t < 11 by omega)
    rw [show 10 - (10 - t) = t by omega, bitAt_words hindices (by omega)] at hbit
    rw [hbit, show (11 * i + (10 - t)) / 11 = i by omega,
      show 10 - (11 * i + (10 - t)) % 11 = t by omega]
  · have hhigh : 2 ^ 11 ≤ 2 ^ t := Nat.pow_le_pow_right (by decide) ht
    rw [Nat.testBit_lt_two_pow ((wordBits_lt _ i).trans_le hhigh),
      Nat.testBit_lt_two_pow (hlt.trans_le hhigh)]

theorem last_words (hindices : ∀ index ∈ indices, index < 2048) (hlength : indices.length = 12)
    {checksum : UInt8} (h : (writeWords (replicate 17 0) 0 indices).getD 16 0 >>> 4 = checksum) :
    (writeWords (replicate 17 0) 0 indices).getD 16 0 = checksum <<< 4 := by
  subst h
  refine BitString.toNat_eq_of_testBit fun t ht => ?_
  rw [UInt8.toNat_shiftLeft, UInt8.toNat_shiftRight, show (4 : UInt8).toNat % 8 = 4 from rfl,
    Nat.testBit_mod_two_pow, Nat.testBit_shiftLeft, Nat.testBit_shiftRight]
  rcases Nat.lt_or_ge t 4 with hlow | hhigh
  · have hbit := bitAt_words hindices (show 16 * 8 + (7 - t) < 136 by omega)
    unfold bitAt at hbit
    rw [show (16 * 8 + (7 - t)) / 8 = 16 by omega, show 7 - (16 * 8 + (7 - t)) % 8 = t by omega,
      getD_eq_default indices _ (by omega), Nat.zero_testBit] at hbit
    rw [hbit, decide_eq_false (show ¬ t ≥ 4 by omega)]
    simp
  · rw [show 4 + (t - 4) = t by omega, decide_eq_true ht, decide_eq_true hhigh]
    simp

theorem eq_of_decodeEnglish {words : List String} {sidInt : ℕ}
    (h : decodeEnglish blake3 words = .ok sidInt) : words = encodeEnglish blake3 sidInt := by
  unfold decodeEnglish at h
  split at h
  · cases h
  next hcount =>
  obtain ⟨indices, hindices, h⟩ := bind_eq_ok.1 h
  obtain ⟨hwords, hlt⟩ := wordIndices_eq_ok hindices
  have hlength : indices.length = 12 := by
    rw [hwords, length_map] at hcount
    omega
  dsimp only at h
  split at h
  · cases h
  next hchecksum =>
  cases h
  have hbits : mnemonicBits blake3 (fromBeBytes ((writeWords (replicate 17 0) 0 indices).take 16)) =
        writeWords (replicate 17 0) 0 indices := by
    generalize hbits : writeWords (replicate 17 0) 0 indices = bits at hchecksum ⊢
    have hseventeen : bits.length = 17 := by
      rw [← hbits, length_writeWords, length_replicate]
    have hlast := last_words hlt hlength (not_not.1 (hbits ▸ hchecksum))
    rw [hbits] at hlast
    have hdata := toBeBytes_fromBeBytes (bits.take 16)
    rw [length_take, hseventeen, show min 16 17 = 16 from rfl] at hdata
    rw [mnemonicBits, hdata, ← hlast, getD_eq_getElem _ _ (by omega), take_concat_get',
      take_of_length_le hseventeen.le]
  unfold encodeEnglish
  rw [hbits, hwords]
  refine ext_getElem (by simp [hlength]) fun i hi _ => ?_
  rw [length_map] at hi
  rw [getElem_map, getElem_map, getElem_range, wordBits_words hlt (by omega),
    getD_eq_getElem _ _ hi]

/-- Each value has one list of words: the decoder accepts it with that value, and every other list
is an error. -/
theorem decodeEnglishAt_iff :
    (∀ sidInt, ∃ words, encodeEnglishAt blake3 sidInt = some words) ∧
      ∀ words, ∃ result, decodeEnglishAt blake3 words = some result ∧ ∀ sidInt,
        result = .ok sidInt ↔ sidInt < 2 ^ 128 ∧ encodeEnglishAt blake3 sidInt = some words := by
  refine ⟨fun sidInt => ⟨_, encodeEnglishAt_eq blake3 sidInt⟩,
    fun words => ⟨_, decodeEnglishAt_eq blake3 words, fun sidInt => ?_⟩⟩
  rw [encodeEnglishAt_eq]
  constructor
  · intro h
    exact ⟨lt_of_decodeEnglish h, congrArg some (eq_of_decodeEnglish blake3 h).symm⟩
  · rintro ⟨hvalue, hwords⟩
    rw [← some.inj hwords, decodeEnglish_encodeEnglish blake3 hvalue]

end Idiom.Sid
