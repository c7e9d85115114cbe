import Idiom.Sid.Sanskrit
import Mathlib.Data.List.DropRight

/-!
# Identifiers in every encoding (`crypto/src/sid/mod.rs`)

An identifier has 128 bits. Bytes and English words carry all of them; eighteen syllables carry
less.
-/

namespace Idiom.Sid

open Dcx (toBeBytes fromBeBytes fromBeBytes_toBeBytes_of_lt)
open List

/-- A 128-bit identifier. -/
structure SID where
  inner : ℕ
  inner_lt : inner < 2 ^ 128
  deriving DecidableEq

/-- A `u128` is below `2 ^ 128`, and its own remainder. -/
def SID.fromU128 (value : ℕ) : SID := ⟨value % 2 ^ 128, Nat.mod_lt _ (Nat.two_pow_pos 128)⟩

/-! ## Texts -/

/-- The `White_Space` characters of Unicode. -/
def isWhitespace (c : Char) : Bool :=
  let n := c.toNat
  (9 ≤ n && n ≤ 13) || n == 32 || n == 133 || n == 160 || n == 5760 ||
    (8192 ≤ n && n ≤ 8202) || n == 8232 || n == 8233 || n == 8239 || n == 8287 || n == 12288

def trim (text : List Char) : List Char :=
  (text.dropWhile isWhitespace).rdropWhile isWhitespace

def splitWhitespace (text : List Char) : List (List Char) :=
  (text.splitOnP isWhitespace).filter fun word => word ≠ []

def didScheme : List Char := "did:ajna:".toList

def phraseScheme : List Char := "ajna-words:".toList

namespace SID

variable (blake3 : Blake3)

/-! ## Encodings -/

def toSanskrit (sid : SID) : String := encodeSanskrit sid.inner

def toDid (sid : SID) : String := "did:ajna:" ++ sid.toSanskrit

def asBytes (sid : SID) : List UInt8 := toBeBytes 16 sid.inner

def toEnglish (sid : SID) : List String := encodeEnglish blake3 sid.inner

def toEnglishPhrase (sid : SID) : String :=
  "ajna-words:" ++ " ".intercalate (sid.toEnglish blake3)

/-! ## Parsers -/

def fromBytes (bytes : List UInt8) : SID := fromU128 (fromBeBytes bytes)

def fromSanskrit (sanskrit : String) : Except SidError SID := do
  let value ← decodeSanskrit sanskrit
  if verify blake3 value then .ok (fromU128 value) else .error .invalidChecksum

def fromDid (did : String) : Except SidError SID :=
  if didScheme.isPrefixOf did.toList then
    fromSanskrit blake3 (String.ofList (did.toList.drop 9))
  else .error .invalidPrefix

def fromEnglish (words : List String) : Except SidError SID := do
  let sidInt ← decodeEnglish blake3 words
  if verify blake3 sidInt then .ok (fromU128 sidInt) else .error .invalidChecksum

/-- The words of a phrase, whose scheme may be left out. -/
def phraseWords (phrase : String) : List String :=
  let phrase := trim phrase.toList
  let phrase := trim (if phraseScheme.isPrefixOf phrase then phrase.drop 11 else phrase)
  (splitWhitespace phrase).map String.ofList

def fromEnglishPhrase (phrase : String) : Except SidError SID :=
  if (phraseWords phrase).length ≠ 12 then
    .error (.invalidLength 12 (phraseWords phrase).length)
  else fromEnglish blake3 (phraseWords phrase)

end SID

open SID

/-! ## The property -/

section

variable (blake3 : Blake3)

/-- One of the parsers accepts the identifier. -/
def Accepted (sid : SID) : Prop :=
  (∃ did, fromDid blake3 did = .ok sid) ∨ (∃ sanskrit, fromSanskrit blake3 sanskrit = .ok sid) ∨
    (∃ words, fromEnglish blake3 words = .ok sid) ∨
    ∃ phrase, fromEnglishPhrase blake3 phrase = .ok sid

/-- Every encoding gives the identifier back. -/
structure Agrees (sid : SID) : Prop where
  did : fromDid blake3 sid.toDid = .ok sid
  sanskrit : fromSanskrit blake3 sid.toSanskrit = .ok sid
  english : fromEnglish blake3 (sid.toEnglish blake3) = .ok sid
  phrase : fromEnglishPhrase blake3 (sid.toEnglishPhrase blake3) = .ok sid
  bytes : fromBytes sid.asBytes = sid

end

/-! ## Checksums -/

section

variable {blake3 : Blake3} {sid : SID}

theorem SID.fromU128_inner (sid : SID) : fromU128 sid.inner = sid := by
  obtain ⟨inner, hlt⟩ := sid
  unfold fromU128
  simp only [Nat.mod_eq_of_lt hlt]

theorem verify_of_ok {value : ℕ} (hvalue : value < 2 ^ 128)
    (h : (if verify blake3 value then Except.ok (fromU128 value)
      else .error SidError.invalidChecksum) = .ok sid) :
    verify blake3 sid.inner = true ∧ sid.inner = value := by
  split at h
  · next hverify =>
    cases h
    have hinner : (fromU128 value).inner = value := Nat.mod_eq_of_lt hvalue
    exact ⟨by rw [hinner]; exact hverify, hinner⟩
  · cases h

theorem of_fromSanskrit {sanskrit : String} (h : fromSanskrit blake3 sanskrit = .ok sid) :
    verify blake3 sid.inner = true ∧ sid.inner < 125 ^ 18 := by
  unfold fromSanskrit at h
  cases hdecode : decodeSanskrit sanskrit with
  | error e =>
    rw [hdecode] at h
    cases h
  | ok value =>
    rw [hdecode] at h
    have hlt := lt_of_decodeSanskrit hdecode
    obtain ⟨hverify, hinner⟩ := verify_of_ok (hlt.trans (by decide)) h
    exact ⟨hverify, hinner ▸ hlt⟩

theorem of_fromDid {did : String} (h : fromDid blake3 did = .ok sid) :
    verify blake3 sid.inner = true ∧ sid.inner < 125 ^ 18 := by
  unfold fromDid at h
  split at h
  · exact of_fromSanskrit h
  · cases h

theorem verify_of_fromEnglish {words : List String} (h : fromEnglish blake3 words = .ok sid) :
    verify blake3 sid.inner = true := by
  unfold fromEnglish at h
  cases hdecode : decodeEnglish blake3 words with
  | error e =>
    rw [hdecode] at h
    cases h
  | ok value =>
    rw [hdecode] at h
    exact (verify_of_ok (lt_of_decodeEnglish hdecode) h).1

theorem verify_of_accepted (h : Accepted blake3 sid) : verify blake3 sid.inner = true := by
  rcases h with ⟨did, h⟩ | ⟨sanskrit, h⟩ | ⟨words, h⟩ | ⟨phrase, h⟩
  · exact (of_fromDid h).1
  · exact (of_fromSanskrit h).1
  · exact verify_of_fromEnglish h
  · unfold fromEnglishPhrase at h
    split at h
    · cases h
    · exact verify_of_fromEnglish h

/-! ## Bytes and words -/

theorem fromBytes_asBytes (sid : SID) : fromBytes sid.asBytes = sid := by
  unfold fromBytes asBytes
  rw [fromBeBytes_toBeBytes_of_lt (by simpa using sid.inner_lt), sid.fromU128_inner]

theorem fromEnglish_toEnglish (h : verify blake3 sid.inner = true) :
    fromEnglish blake3 (sid.toEnglish blake3) = .ok sid := by
  unfold fromEnglish toEnglish
  rw [decodeEnglish_encodeEnglish blake3 sid.inner_lt]
  simp only [bind, Except.bind, h, if_true, sid.fromU128_inner]

/-! ## Syllables -/

theorem fromSanskrit_toSanskrit (h : verify blake3 sid.inner = true) (hlt : sid.inner < 125 ^ 18) :
    fromSanskrit blake3 sid.toSanskrit = .ok sid := by
  unfold fromSanskrit toSanskrit
  rw [decodeSanskrit_encodeSanskrit, Nat.mod_eq_of_lt hlt]
  simp only [bind, Except.bind, h, if_true, sid.fromU128_inner]

theorem toList_toDid (sid : SID) : sid.toDid.toList = didScheme ++ sid.toSanskrit.toList :=
  String.toList_append

theorem fromDid_toDid (sid : SID) :
    fromDid blake3 sid.toDid = fromSanskrit blake3 sid.toSanskrit := by
  have hlength : didScheme.length = 9 := by decide
  unfold fromDid
  rw [toList_toDid, if_pos ( isPrefixOf_iff_prefix.2 (prefix_append ..)),
    drop_left' hlength, String.ofList_toList]

/-! ## Phrases -/

/-- Words that are not empty and have no blank. -/
def Plain (words : List (List Char)) : Prop :=
  ∀ word ∈ words, word ≠ [] ∧ ∀ c ∈ word, isWhitespace c = false

theorem not_isWhitespace {c : Char} (h : 97 ≤ c.toNat ∧ c.toNat ≤ 122) :
    isWhitespace c = false := by
  unfold isWhitespace
  simp
  omega

theorem plain_encodeEnglish (blake3 : Blake3) (sidInt : ℕ) :
    Plain ((encodeEnglish blake3 sidInt).map String.toList) := by
  intro word hword
  obtain ⟨s, hs, rfl⟩ := mem_map.1 hword
  obtain ⟨i, _, rfl⟩ := mem_map.1 hs
  obtain ⟨s, hs, hmem⟩ := exists_indexToWord (wordBits_lt (mnemonicBits blake3 sidInt) i)
  rw [hs]
  obtain ⟨hne, hlower⟩ := isLower_wordlist hmem
  exact ⟨hne, fun c hc => not_isWhitespace (hlower c hc)⟩

variable {words : List (List Char)}

theorem splitOnP_intercalate (h : Plain words) (hne : words ≠ []) :
    ([' '].intercalate words).splitOnP isWhitespace = words := by
  induction words with
  | nil => exact absurd rfl hne
  | cons word words ih =>
    have hword := (h word mem_cons_self).2
    cases words with
    | nil =>
      rw [intercalate_singleton]
      exact splitOnP_eq_singleton hword
    | cons word' words =>
      have hrest := ih (fun w hw => h w (mem_cons_of_mem _ hw)) (cons_ne_nil _ _)
      rw [intercalate_cons_cons, append_assoc, singleton_append,
        splitOnP_append_cons_of_forall_mem hword ' ' (by decide), hrest]

theorem intercalate_ne_nil (h : Plain words) (hne : words ≠ []) : [' '].intercalate words ≠ [] := by
  intro hnil
  have hsplit := splitOnP_intercalate h hne
  rw [hnil] at hsplit
  exact (h [] (hsplit ▸ mem_singleton_self _)).1 rfl

theorem intercalate_ends (h : Plain words) :
    (∀ c ∈ ([' '].intercalate words).head?, isWhitespace c = false) ∧
      ∀ c ∈ ([' '].intercalate words).getLast?, isWhitespace c = false := by
  induction words with
  | nil =>
    exact ⟨fun c hc => (by cases hc), fun c hc => (by cases hc)⟩
  | cons word words ih =>
    obtain ⟨hne, hword⟩ := h word mem_cons_self
    cases words with
    | nil =>
      rw [intercalate_singleton]
      exact ⟨fun c hc => hword c (mem_of_mem_head? hc),
        fun c hc => hword c (mem_of_mem_getLast? hc)⟩
    | cons word' words =>
      have hplain : Plain (word' :: words) := fun w hw => h w (mem_cons_of_mem _ hw)
      have hrest := intercalate_ne_nil hplain (cons_ne_nil _ _)
      rw [intercalate_cons_cons, append_assoc, head?_append_of_ne_nil _ hne,
        getLast?_append_of_ne_nil _ (by simp), getLast?_append_of_ne_nil _ hrest]
      exact ⟨fun c hc => hword c (mem_of_mem_head? hc), (ih hplain).2⟩

theorem trim_eq {text : List Char} (hhead : ∀ c ∈ text.head?, isWhitespace c = false)
    (hlast : ∀ c ∈ text.getLast?, isWhitespace c = false) : trim text = text := by
  have hfront : text.dropWhile isWhitespace = text := by
    cases text with
    | nil => rfl
    | cons c text => rw [dropWhile_cons, if_neg (by rw [hhead c rfl]; exact Bool.false_ne_true)]
  unfold trim
  rw [hfront]
  refine rdropWhile_eq_self_iff.2 fun hne => ?_
  rw [hlast _ (getLast?_eq_some_getLast hne)]
  exact Bool.false_ne_true

theorem phraseWords_toEnglishPhrase (sid : SID) :
    phraseWords (sid.toEnglishPhrase blake3) = sid.toEnglish blake3 := by
  have hplain := plain_encodeEnglish blake3 sid.inner
  have hne : (encodeEnglish blake3 sid.inner).map String.toList ≠ [] := by
    simp [encodeEnglish]
  obtain ⟨hhead, hlast⟩ := intercalate_ends hplain
  have hnil := intercalate_ne_nil hplain hne
  have htext : (sid.toEnglishPhrase blake3).toList = phraseScheme ++
      [' '].intercalate ((encodeEnglish blake3 sid.inner).map String.toList) := by
    unfold toEnglishPhrase toEnglish
    rw [String.toList_append, String.toList_intercalate]
    rfl
  have hscheme : phraseScheme.length = 11 := by decide
  have hfirst : ∀ c ∈ phraseScheme.head?, isWhitespace c = false := by
    intro c hc
    obtain rfl : 'a' = c := Option.some.inj hc
    rfl
  have hnonempty : phraseScheme ≠ [] := by decide
  have houter := @trim_eq
    (phraseScheme ++ [' '].intercalate ((encodeEnglish blake3 sid.inner).map String.toList))
    (by rw [head?_append_of_ne_nil _ hnonempty]; exact hfirst)
    (by rw [getLast?_append_of_ne_nil _ hnil]; exact hlast)
  unfold phraseWords
  rw [htext]
  dsimp only
  rw [houter, if_pos ( isPrefixOf_iff_prefix.2 (prefix_append ..)), drop_left' hscheme,
    trim_eq hhead hlast]
  unfold splitWhitespace
  rw [splitOnP_intercalate hplain hne, filter_eq_self.2 fun word hword =>
    decide_eq_true (hplain word hword).1, map_map]
  simp only [Function.comp_def, String.ofList_toList]
  rfl

theorem fromEnglishPhrase_toEnglishPhrase (sid : SID) :
    fromEnglishPhrase blake3 (sid.toEnglishPhrase blake3) =
      fromEnglish blake3 (sid.toEnglish blake3) := by
  unfold fromEnglishPhrase
  rw [phraseWords_toEnglishPhrase]
  simp [toEnglish, encodeEnglish]

/-! ## Agreement -/

theorem lt_of_agrees (h : Agrees blake3 sid) : sid.inner < 125 ^ 18 := (of_fromDid h.did).2

theorem agrees_of_lt (h : Accepted blake3 sid) (hlt : sid.inner < 125 ^ 18) :
    Agrees blake3 sid := by
  have hverify := verify_of_accepted h
  have hsanskrit := fromSanskrit_toSanskrit hverify hlt
  have henglish := fromEnglish_toEnglish hverify
  exact ⟨(fromDid_toDid sid).trans hsanskrit, hsanskrit, henglish,
    (fromEnglishPhrase_toEnglishPhrase sid).trans henglish, fromBytes_asBytes sid⟩

/-- **All encodings agree** exactly on the identifiers below the capacity of the syllables, and no
two of these have the same DID. -/
theorem agrees_iff (h : Accepted blake3 sid) :
    (Agrees blake3 sid ↔ sid.inner < 125 ^ 18) ∧
      ∀ sid', Accepted blake3 sid' → sid.inner < 125 ^ 18 → sid'.inner < 125 ^ 18 →
        sid'.toDid = sid.toDid → sid' = sid := by
  refine ⟨⟨lt_of_agrees, agrees_of_lt h⟩, fun sid' h' hlt hlt' hdid => ?_⟩
  have hread := (agrees_of_lt h' hlt').did
  rw [hdid, (agrees_of_lt h hlt).did] at hread
  exact (Except.ok.inj hread).symm

end

/-! ## Two identifiers -/

/-- BLAKE3 of the leading digits and of the bits of the least identifier. -/
def leastHash : Blake3 := fun bytes =>
  if bytes = replicate 16 0 then
    #v[229, 114, 223, 248, 35, 4, 112, 11, 133, 106, 85, 90, 195, 164, 85, 141,
      13, 243, 100, 106, 55, 39, 129, 101, 0, 39, 10, 147, 198, 106, 172, 30]
  else if bytes = Ajna.asBytes "AJNA/AEM/V1" ++ (replicate 15 0 ++ [104]) then
    #v[25, 165, 140, 193, 18, 128, 238, 216, 190, 28, 115, 30, 109, 238, 142, 227,
      246, 209, 28, 244, 146, 105, 241, 2, 35, 154, 101, 92, 187, 85, 140, 230]
  else Vector.replicate 32 0

/-- Only its last digit is not zero. -/
def least : SID := ⟨104, by decide⟩

theorem agrees_iff_least : Agrees leastHash least := by
  have haccepted : Accepted leastHash least :=
    .inr (.inr (.inl ⟨_, fromEnglish_toEnglish (by decide)⟩))
  exact (agrees_iff haccepted).1.2 (by decide)

/-- An identifier beyond the capacity of the syllables, with its checksum. -/
def beyond (blake3 : Blake3) : SID :=
  ⟨125 ^ 18 + (computeChecksum blake3 (125 ^ 18)).toNat, by
    have := (computeChecksum blake3 (125 ^ 18)).toNat_lt
    omega⟩

theorem computeChecksum_lt (blake3 : Blake3) (value : ℕ) :
    (computeChecksum blake3 value).toNat < 125 := by
  exact Nat.mod_lt _ (by decide)

theorem verify_beyond (blake3 : Blake3) : verify blake3 (beyond blake3).inner = true := by
  have hlt := computeChecksum_lt blake3 (125 ^ 18)
  have hmod : (125 ^ 18 + (computeChecksum blake3 (125 ^ 18)).toNat) % 125 =
      (computeChecksum blake3 (125 ^ 18)).toNat := by omega
  have hdiv : (125 ^ 18 + (computeChecksum blake3 (125 ^ 18)).toNat) / 125 = 125 ^ 18 / 125 := by
    omega
  have hchecksum : computeChecksum blake3 (beyond blake3).inner =
      computeChecksum blake3 (125 ^ 18) := by
    unfold beyond computeChecksum at *
    rw [hdiv]
  unfold verify
  rw [hchecksum]
  refine decide_eq_true ?_
  show UInt8.ofNat ((125 ^ 18 + (computeChecksum blake3 (125 ^ 18)).toNat) % 125) = _
  rw [hmod, UInt8.ofNat_toNat]

/-- **Words that are accepted have a DID that is not theirs**, whatever the hash. -/
theorem agrees_iff_fails : ¬ ∃ blake3, ∀ sid, Accepted blake3 sid → Agrees blake3 sid := by
  rintro ⟨blake3, h⟩
  have haccepted : Accepted blake3 (beyond blake3) :=
    .inr (.inr (.inl ⟨_, fromEnglish_toEnglish (verify_beyond blake3)⟩))
  have hlt : 125 ^ 18 + _ < 125 ^ 18 := lt_of_agrees (h _ haccepted)
  omega

end Idiom.Sid
