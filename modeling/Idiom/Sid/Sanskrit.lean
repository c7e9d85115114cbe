import Idiom.Lib.Fallible
import Idiom.Sid.English
import Mathlib.Tactic.Ring

/-!
# Sanskrit syllables (`crypto/src/sid/constants.rs`, `encoding.rs`, `checksum.rs`)

A number is written with eighteen syllables, its digits to base 125 from the least on. The last
digit is a checksum of the others.
-/

namespace Idiom.Sid

open Dcx (toBeBytes fromUtf8 fromUtf8_utf8 utf8_eq)
open Ajna (asBytes)
open List Option

/-- The first byte of the hash of the other digits. -/
def computeChecksum (blake3 : Blake3) (value : ℕ) : UInt8 :=
  (blake3 (toBeBytes 16 (value / 125))).get 0 % 125

def verify (blake3 : Blake3) (value : ℕ) : Bool :=
  UInt8.ofNat (value % 125) = computeChecksum blake3 value

/-! ## Syllables -/

/-- A consonant and a vowel. -/
def syllables : List String :=
  ["ka", "ki", "ku", "ke", "ko", "ga", "gi", "gu", "ge", "go", "ca", "ci", "cu", "ce", "co",
   "ja", "ji", "ju", "je", "jo", "ta", "ti", "tu", "te", "to", "da", "di", "du", "de", "do",
   "na", "ni", "nu", "ne", "no", "pa", "pi", "pu", "pe", "po", "ba", "bi", "bu", "be", "bo",
   "ma", "mi", "mu", "me", "mo", "ya", "yi", "yu", "ye", "yo", "ra", "ri", "ru", "re", "ro",
   "la", "li", "lu", "le", "lo", "va", "vi", "vu", "ve", "vo", "sa", "si", "su", "se", "so",
   "ha", "hi", "hu", "he", "ho", "qa", "qi", "qu", "qe", "qo", "wa", "wi", "wu", "we", "wo",
   "xa", "xi", "xu", "xe", "xo", "za", "zi", "zu", "ze", "zo", "fa", "fi", "fu", "fe", "fo",
   "tha", "thi", "thu", "the", "tho", "dha", "dhi", "dhu", "dhe", "dho",
   "nga", "ngi", "ngu", "nge", "ngo",    "sha", "shi", "shu", "she", "sho"]

def indexToSyllable (index : ℕ) : String := syllables.getD index ""

def syllableToIndex (syllable : String) : Option ℕ := syllables.idxOf? syllable

/-! ## Encoding -/

def sidSyllableCount : ℕ := 18

/-- So many syllables, from the least significant on. -/
def digits : ℕ → ℕ → List String
  | 0, _ => []
  | count + 1, value => indexToSyllable (value % 125) :: digits count (value / 125)

def encodeSanskrit (value : ℕ) : String := String.join (digits sidSyllableCount value)

/-! ## Decoding -/

/-- The syllable of the given length in front, if there is one. -/
def candidate (bytes : List UInt8) (len : ℕ) : Option ℕ :=
  if len ≤ bytes.length then (fromUtf8 (bytes.take len)).bind syllableToIndex else none

/-- The syllable in front and its length; longer ones are tried first. -/
def nextSyllable (bytes : List UInt8) : Option (ℕ × ℕ) :=
  [6, 5, 4, 3, 2].findSome? fun len => (candidate bytes len).map fun index => (index, len)

/-- `checked_mul` and `checked_add` of a `u128`. -/
def checked (n : ℕ) : Except SidError ℕ := if n < 2 ^ 128 then .ok n else .error .overflow

variable {index : ℕ} {bytes : List UInt8}

theorem nextSyllable_pos {len : ℕ} (h : nextSyllable bytes = some (index, len)) :
    2 ≤ len ∧ len ≤ bytes.length := by
  obtain ⟨len', hlen, hcandidate⟩ := exists_of_findSome?_eq_some h
  obtain ⟨index', hindex, heq⟩ := map_eq_some_iff.1 hcandidate
  cases heq
  refine ⟨?_, ?_⟩
  · simp only [mem_cons, not_mem_nil, or_false] at hlen
    omega
  · unfold candidate at hindex
    split at hindex
    · assumption
    · cases hindex

/-- The value, its next multiplier and the number of syllables so far. -/
def decodeFrom (value multiplier count : ℕ) : List UInt8 → Except SidError (ℕ × ℕ)
  | [] => .ok (value, count)
  | b :: bytes =>
    match h : nextSyllable (b :: bytes) with
    | none => .error (.invalidSyllable ((fromUtf8 ((b :: bytes).take 6)).getD "???"))
    | some (index, len) => do
      let term ← checked (index * multiplier)
      let value ← checked (value + term)
      let multiplier ← checked (multiplier * 125)
      decodeFrom value multiplier (count + 1) ((b :: bytes).drop len)
termination_by bytes => bytes.length
decreasing_by
  have hpos := nextSyllable_pos h
  rw [length_drop]
  omega

def decodeSanskrit (sanskrit : String) : Except SidError ℕ := do
  let (value, syllableCount) ← decodeFrom 0 1 0 (asBytes sanskrit)
  if syllableCount ≠ sidSyllableCount then
    .error (.invalidLength sidSyllableCount syllableCount)
  else .ok value

/-! ## No syllable begins another -/

def isVowel (b : UInt8) : Bool := [97, 101, 105, 111, 117].contains b.toNat

/-- Consonants, and a vowel at the end. -/
def sounds : List UInt8 → Bool
  | [] => false
  | [b] => isVowel b
  | b :: bytes => !isVowel b && sounds bytes

theorem sounds_syllables : (syllables.all fun syllable =>
    sounds (asBytes syllable) && Nat.ble 2 (asBytes syllable).length &&
      Nat.ble (asBytes syllable).length 3) = true := by decide +kernel

theorem nodup_syllables : syllables.Nodup := by decide +kernel

theorem eq_of_sounds {as bs : List UInt8} (has : sounds as = true) (hbs : sounds bs = true)
    (h : as <+: bs) : as = bs := by
  induction as generalizing bs with
  | nil => cases has
  | cons a as ih =>
    obtain ⟨rest, rfl⟩ := h
    cases as with
    | nil =>
      cases rest with
      | nil => rfl
      | cons b rest =>
        -- the vowel ends the one and not the other
        simp [sounds] at has hbs
        rw [has] at hbs
        simp at hbs
    | cons a' as =>
      simp only [sounds, cons_append, Bool.and_eq_true] at has hbs
      exact congrArg (a :: ·) (ih has.2 hbs.2 ⟨rest, rfl⟩)

theorem asBytes_of_fromUtf8 {s : String} (h : fromUtf8 bytes = some s) : asBytes s = bytes := by
  unfold fromUtf8 String.fromUTF8? at h
  split at h
  · cases h
    rfl
  · cases h

theorem fromUtf8_asBytes (s : String) : fromUtf8 (asBytes s) = some s := by
  have h := fromUtf8_utf8 s
  rw [utf8_eq] at h
  exact h

variable {syllable : String}

theorem mem_syllables_iff :
    syllable ∈ syllables ↔ ∃ index, syllableToIndex syllable = some index := by
  rw [← isSome_iff_exists]
  exact isSome_idxOf?.symm

theorem syllableToIndex_indexToSyllable (h : index < 125) :
    syllableToIndex (indexToSyllable index) = some index := by
  have hlt : index < syllables.length := h
  unfold indexToSyllable
  rw [getD_eq_getElem _ _ hlt]
  refine idxOf?_eq_some_iff.2 ⟨hlt, rfl, fun j hj heq => ?_⟩
  exact absurd ((nodup_syllables.getElem_inj_iff).1 heq) hj.ne

theorem sounds_of_mem (h : syllable ∈ syllables) :
    sounds (asBytes syllable) = true ∧ 2 ≤ (asBytes syllable).length ∧
      (asBytes syllable).length ≤ 3 := by
  have hall := all_eq_true.1 sounds_syllables syllable h
  simpa [and_assoc] using hall

theorem candidate_append (h : syllableToIndex syllable = some index) (rest : List UInt8) (len : ℕ) :
    candidate (asBytes syllable ++ rest) len =
      if len = (asBytes syllable).length then some index else none := by
  have hsounds := (sounds_of_mem (mem_syllables_iff.2 ⟨index, h⟩)).1
  unfold candidate
  split
  · next hlen =>
    split
    · next heq =>
      rw [heq, take_left, fromUtf8_asBytes]
      exact h
    · next hne =>
      cases hs : fromUtf8 ((asBytes syllable ++ rest).take len) with
      | none => rfl
      | some s =>
        refine eq_none_iff_forall_ne_some.2 fun index' hindex => hne ?_
        have hs' := (sounds_of_mem (mem_syllables_iff.2 ⟨index', hindex⟩)).1
        have hbytes := asBytes_of_fromUtf8 hs
        have hlength : (asBytes s).length = len := by
          rw [hbytes, length_take, Nat.min_eq_left hlen]
        have hprefix : asBytes s <+: asBytes syllable ++ rest := hbytes ▸ take_prefix ..
        -- of two syllables in front one begins the other
        rcases Nat.le_total len (asBytes syllable).length with hle | hle
        · rw [← hlength, eq_of_sounds hs' hsounds
            (prefix_of_prefix_length_le hprefix (prefix_append ..) (by omega))]
        · rw [← hlength, eq_of_sounds hsounds hs'
            (prefix_of_prefix_length_le (prefix_append ..) hprefix (by omega))]
  · next hlen =>
    rw [if_neg]
    rintro rfl
    exact hlen (by rw [length_append]; omega)

theorem nextSyllable_append (h : syllableToIndex syllable = some index) (rest : List UInt8) :
    nextSyllable (asBytes syllable ++ rest) = some (index, (asBytes syllable).length) := by
  obtain ⟨_, htwo, hthree⟩ := sounds_of_mem (mem_syllables_iff.2 ⟨index, h⟩)
  unfold nextSyllable
  simp only [candidate_append h]
  obtain hlength | hlength : (asBytes syllable).length = 2 ∨ (asBytes syllable).length = 3 := by
    omega
  · rw [hlength]
    rfl
  · rw [hlength]
    rfl

/-! ## Round trip -/

theorem asBytes_join (l : List String) : asBytes (String.join l) = l.flatMap asBytes := by
  rw [asBytes_eq, String.toList_join, flatMap_assoc]
  exact congrArg (l.flatMap ·) (funext fun s => (asBytes_eq s).symm)

theorem checked_of_lt {n : ℕ} (h : n < 2 ^ 128) : checked n = .ok n := if_pos h

theorem decodeFrom_digits (count value acc multiplier before : ℕ) (hacc : acc < multiplier)
    (hfit : multiplier * 125 ^ count < 2 ^ 128) :
    decodeFrom acc multiplier before ((digits count value).flatMap asBytes) =
      .ok (acc + value % 125 ^ count * multiplier, before + count) := by
  induction count generalizing value acc multiplier before with
  | zero =>
    rw [pow_zero, Nat.mod_one]
    simp [digits, decodeFrom]
  | succ count ih =>
    have hindex := syllableToIndex_indexToSyllable (Nat.mod_lt value (show 0 < 125 by decide))
    have hnext := nextSyllable_append hindex ((digits count (value / 125)).flatMap asBytes)
    have hlength := (sounds_of_mem (mem_syllables_iff.2 ⟨_, hindex⟩)).2.1
    have hmultiplier : multiplier * 125 < 2 ^ 128 := by
      refine lt_of_le_of_lt (Nat.mul_le_mul_left _ ?_) hfit
      exact Nat.le_self_pow (Nat.succ_ne_zero count) 125
    have hterm : value % 125 * multiplier ≤ 124 * multiplier :=
      Nat.mul_le_mul_right _ (Nat.le_of_lt_succ (Nat.mod_lt value (by decide)))
    rw [digits, flatMap_cons]
    cases hbytes : asBytes (indexToSyllable (value % 125)) with
    | nil =>
      rw [hbytes] at hlength
      simp at hlength
    | cons b bytes =>
      rw [hbytes] at hnext
      rw [cons_append] at hnext ⊢
      rw [decodeFrom]
      split
      · next hnone =>
        rw [hnone] at hnext
        cases hnext
      · next index len hsome =>
        rw [hsome] at hnext
        cases hnext
        have hterm' : value % 125 * multiplier < 2 ^ 128 := by omega
        have hsum : acc + value % 125 * multiplier < 2 ^ 128 := by omega
        simp only [bind, Except.bind, checked_of_lt hterm', checked_of_lt hsum,
          checked_of_lt hmultiplier]
        rw [← cons_append, drop_left, ih _ _ _ _ (by omega) (by
          rw [Nat.mul_assoc, ← pow_succ']; exact hfit)]
        refine congrArg Except.ok (Prod.ext ?_ (Nat.add_right_comm before 1 count))
        show acc + value % 125 * multiplier + value / 125 % 125 ^ count * (multiplier * 125) =
          acc + value % 125 ^ (count + 1) * multiplier
        rw [pow_succ', Nat.mod_mul]
        ring

/-- **What comes back** is the number modulo the capacity of the syllables. -/
theorem decodeSanskrit_encodeSanskrit (value : ℕ) :
    decodeSanskrit (encodeSanskrit value) = .ok (value % 125 ^ 18) := by
  unfold decodeSanskrit encodeSanskrit
  rw [asBytes_join, decodeFrom_digits _ _ _ _ _ (by decide) (by decide)]
  simp [bind, Except.bind, sidSyllableCount]

/-! ## One spelling -/

theorem checked_eq_ok {n m : ℕ} (h : checked n = .ok m) : n = m := by
  unfold checked at h
  split at h
  · exact Except.ok.inj h
  · cases h

theorem eq_of_nextSyllable {len : ℕ} (h : nextSyllable bytes = some (index, len)) :
    index < 125 ∧ bytes = asBytes (indexToSyllable index) ++ bytes.drop len := by
  obtain ⟨len', _, hcandidate⟩ := exists_of_findSome?_eq_some h
  obtain ⟨index', hindex, heq⟩ := map_eq_some_iff.1 hcandidate
  cases heq
  unfold candidate at hindex
  split at hindex
  · obtain ⟨syllable, hbytes, hsyllable⟩ := bind_eq_some_iff.1 hindex
    obtain ⟨hlt, hget, _⟩ := idxOf?_eq_some_iff.1 hsyllable
    refine ⟨hlt, ?_⟩
    rw [indexToSyllable, getD_eq_getElem _ _ hlt, hget, asBytes_of_fromUtf8 hbytes,
      take_append_drop]
  · cases hindex

theorem eq_of_decodeFrom {acc multiplier before value count : ℕ}
    (h : decodeFrom acc multiplier before bytes = .ok (value, count)) :
    ∃ n w, w < 125 ^ n ∧ count = before + n ∧ value = acc + w * multiplier ∧
      bytes = (digits n w).flatMap asBytes := by
  fun_induction decodeFrom acc multiplier before bytes with
  | case1 acc multiplier before =>
    cases h
    exact ⟨0, 0, Nat.one_pos, rfl, by rw [Nat.zero_mul, Nat.add_zero], rfl⟩
  | case2 => cases h
  | case3 acc multiplier before b bytes index len hnext ih =>
    obtain ⟨term, hterm, h⟩ := bind_eq_ok.1 h
    obtain ⟨sum, hsum, h⟩ := bind_eq_ok.1 h
    obtain ⟨multiplier', hnew, h⟩ := bind_eq_ok.1 h
    obtain ⟨n, w, hw, hcount, hvalue, hrest⟩ := ih _ _ h
    obtain ⟨hindex, hfront⟩ := eq_of_nextSyllable hnext
    refine ⟨n + 1, index + 125 * w, ?_, by omega, ?_, ?_⟩
    · omega
    · rw [hvalue, ← checked_eq_ok hnew, ← checked_eq_ok hsum, ← checked_eq_ok hterm]
      ring
    · rw [digits, show (index + 125 * w) % 125 = index by omega,
        show (index + 125 * w) / 125 = w by omega, flatMap_cons, ← hrest]
      exact hfront

/-- **One spelling**: what is read is the text of a number with so many syllables. -/
theorem eq_of_decodeSanskrit {sanskrit : String} {value : ℕ}
    (h : decodeSanskrit sanskrit = .ok value) :
    value < 125 ^ 18 ∧ sanskrit = encodeSanskrit value := by
  obtain ⟨⟨value', count⟩, hdecode, h⟩ := bind_eq_ok.1 h
  obtain ⟨n, w, hw, hcount, hvalue, hbytes⟩ := eq_of_decodeFrom hdecode
  dsimp only at h
  split at h
  · cases h
  · next hlength =>
    cases h
    have hn : n = sidSyllableCount := by omega
    obtain rfl : value = w := by omega
    subst hn
    refine ⟨hw, some.inj ?_⟩
    rw [← fromUtf8_asBytes, ← fromUtf8_asBytes, hbytes, encodeSanskrit, asBytes_join]

theorem lt_of_decodeSanskrit {sanskrit : String} {value : ℕ}
    (h : decodeSanskrit sanskrit = .ok value) : value < 125 ^ 18 := (eq_of_decodeSanskrit h).1

end Idiom.Sid
