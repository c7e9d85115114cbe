import Idiom.Lib.Base58
import Idiom.Lib.IterOrder

/-!
# The keylist of a mediator: recipient keys and rows

A recipient key is written as a raw base58 verkey or as a `did:key` of it. The mediator
stores the raw form, one row for each registration.
-/

namespace Idiom.Mediation

open Base58

/-! ## Recipient keys -/

/-- `str::strip_prefix`. -/
def stripPrefix (pre s : String) : Option String :=
  if pre.toList <+: s.toList then some (String.ofList (s.toList.drop pre.toList.length)) else none

/-- The multicodec of an Ed25519 public key. -/
def ed25519Pub : List UInt8 := [0xed, 0x01]

/-- The raw bytes of a `did:key`, with their multicodec. -/
def didKeyBytes (key : String) : Option (List UInt8) :=
  (stripPrefix "did:key:z" key).bind decode

/-- Convert a `did:key:z6Mk…` to its raw base58 Ed25519 verkey, or pass through. -/
def canonicalizeRecipientKey (recipientKey : String) : String :=
  match didKeyBytes recipientKey with
  | some decoded =>
    if decoded.length = 34 ∧ decoded.take 2 = ed25519Pub then encode (decoded.drop 2)
    else recipientKey
  | none => recipientKey

theorem didKeyBytes_encode (bytes : List UInt8) : didKeyBytes (encode bytes) = none := by
  unfold didKeyBytes stripPrefix
  rw [if_neg, Option.bind_none]
  intro hpre
  have hcolon : ':' ∈ (encode bytes).toList := hpre.subset (by decide)
  have halphabet := mem_alphabet_of_mem_encode hcolon
  revert halphabet
  decide

theorem canonicalizeRecipientKey_idem (key : String) :
    canonicalizeRecipientKey (canonicalizeRecipientKey key) = canonicalizeRecipientKey key := by
  cases hkey : didKeyBytes key with
  | none => simp only [canonicalizeRecipientKey, hkey]
  | some decoded =>
    by_cases hed : decoded.length = 34 ∧ decoded.take 2 = ed25519Pub
    · simp only [canonicalizeRecipientKey, hkey, if_pos hed, didKeyBytes_encode]
    · simp only [canonicalizeRecipientKey, hkey, if_neg hed]

/-! ## Rows (`repository/keylist_record.rs`) -/

/-- Keylist record stored in the repository. -/
structure KeylistRecord where
  id : String
  mediationId : String
  recipientKey : String
  deriving DecidableEq

def KeylistRecord.Matches (r : KeylistRecord) (mediationId recipientKey : String) : Prop :=
  r.mediationId = mediationId ∧ r.recipientKey = recipientKey

instance (r : KeylistRecord) (mediationId recipientKey : String) :
    Decidable (r.Matches mediationId recipientKey) :=
  inferInstanceAs (Decidable (_ ∧ _))

/-- `KeylistRepository` and `StorageBackedKeylistRepository`. -/
inductive KeylistBackend where
  | memory
  | storage

/-- The rows of a repository. -/
abbrev Keylist := Finset KeylistRecord

namespace Keylist

variable (order : IterOrder KeylistRecord) (rows : Keylist)

def getAll : List KeylistRecord := order.list rows

def findByRecipientKey (mediationId recipientKey : String) : Option KeylistRecord :=
  (order.list rows).find? fun r => r.Matches mediationId recipientKey

/-- Delete keylist record by recipient key: all that match, or the first that is found. -/
def deleteByRecipientKey (mediationId recipientKey : String) : KeylistBackend → Keylist
  | .memory => rows.filter fun r => ¬ r.Matches mediationId recipientKey
  | .storage =>
    match rows.findByRecipientKey order mediationId recipientKey with
    | none => rows
    | some r => rows.erase r

def save (r : KeylistRecord) : Keylist := insert r rows

/-- There is at most one row for a key. -/
def OneRow : Prop :=
  ∀ r ∈ rows, ∀ r' ∈ rows, r.recipientKey = r'.recipientKey → r = r'

variable {order rows} {mediationId recipientKey : String}

theorem findByRecipientKey_eq_none :
    rows.findByRecipientKey order mediationId recipientKey = none ↔
      ∀ r ∈ rows, ¬ r.Matches mediationId recipientKey := by
  unfold findByRecipientKey
  simp

theorem of_findByRecipientKey {r : KeylistRecord}
    (h : rows.findByRecipientKey order mediationId recipientKey = some r) :
    r ∈ rows ∧ r.Matches mediationId recipientKey := by
  simpa using order.mem_of_find? h

theorem OneRow.mem_delete (hone : rows.OneRow) (backend : KeylistBackend) (r : KeylistRecord) :
    r ∈ rows.deleteByRecipientKey order mediationId recipientKey backend ↔
      r ∈ rows ∧ ¬ r.Matches mediationId recipientKey := by
  cases backend with
  | memory => simp [deleteByRecipientKey]
  | storage =>
    cases hfind : rows.findByRecipientKey order mediationId recipientKey with
    | none =>
      simp only [deleteByRecipientKey, hfind]
      exact ⟨fun h => ⟨h, findByRecipientKey_eq_none.1 hfind r h⟩, And.left⟩
    | some found =>
      obtain ⟨hmem, hmatch⟩ := of_findByRecipientKey hfind
      simp only [deleteByRecipientKey, hfind, Finset.mem_erase]
      constructor
      · rintro ⟨hne, hr⟩
        exact ⟨hr, fun h => hne (hone r hr found hmem (h.2.trans hmatch.2.symm))⟩
      · rintro ⟨hr, hnot⟩
        exact ⟨fun heq => hnot (heq ▸ hmatch), hr⟩

end Keylist

end Idiom.Mediation
