import Idiom.SdJwt.Withheld

/-!
# Verify data of JSON-LD proofs (`vc/src/formats/jsonld_vc/canonicalization.rs`)

What the suites of `signature_suites.rs` sign: the hash of the canonical texts of a document and
of its proof options.

* `Quad` — one line of a text.
* `expandDocument`, `extractQuads`, `canonicalize` — the text of a document.
* `createVerifyData` — the signed bytes.
-/

namespace Idiom.JsonLd

open Ajna (Json JsonNumber asBytes)
open SdJwt (Fields Keyed)
open List OrderedMap

/-! ## Quads -/

structure Quad where
  subject : String
  predicate : String
  object : String
  graph : Option String
  deriving DecidableEq

namespace Quad

def toNquads (q : Quad) : String :=
  q.subject ++ " " ++ q.predicate ++ " " ++ q.object ++
    (match q.graph with
      | some g => " <" ++ g ++ ">"
      | none => "") ++ " ."

/-- The derived order: field by field. -/
def cmp (q q' : Quad) : Ordering :=
  (compare q.subject q'.subject).then <| (compare q.predicate q'.predicate).then <|
    (compare q.object q'.object).then (compare q.graph q'.graph)

end Quad

/-! ## Expansion -/

/-- A key that is no IRI goes into one vocabulary. -/
def expandKey (key : String) : String :=
  if "@".toList <+: key.toList ∨ "://".toList <:+: key.toList then key
  else "https://example.org/vocab#" ++ key

mutual

-- `expand_value` of a value is `expand_document` of it: both clone a scalar
def expandDocument : Json → Json
  | .object fields => .object (expandFields [] fields)
  | .array items => .array (expandItems items)
  | document => document

def expandFields (expanded : Fields) : Fields → Fields
  | [] => expanded
  | (key, value) :: fields =>
    if key = "@context" then expandFields expanded fields
    else expandFields (insert (expandKey key) (expandDocument value) expanded) fields

def expandItems : List Json → List Json
  | [] => []
  | item :: items => expandDocument item :: expandItems items

end

/-! ## Extraction -/

/-- What the code calls: SHA-256 and the `Display` text of a number. -/
structure Host where
  sha256 : List UInt8 → List UInt8
  showNumber : JsonNumber → String

section

variable (host : Host)

mutual

def extractFields (subject : String) (quads : List Quad) : Fields → List Quad
  | [] => quads
  | (predicate, object) :: fields =>
    if predicate = "@id" ∨ predicate = "@type" then extractFields subject quads fields
    else extractFields subject (extractObject subject predicate quads object) fields

def extractObject (subject predicate : String) (quads : List Quad) : Json → List Quad
  | .string s => quads ++ [⟨subject, predicate, "\"" ++ s ++ "\"", none⟩]
  | .number n =>
    quads ++ [⟨subject, predicate,
      "\"" ++ host.showNumber n ++ "\"^^<http://www.w3.org/2001/XMLSchema#decimal>", none⟩]
  | .bool b =>
    quads ++ [⟨subject, predicate,
      "\"" ++ toString b ++ "\"^^<http://www.w3.org/2001/XMLSchema#boolean>", none⟩]
  | .object nested =>
    extractFields ("_:b" ++ toString quads.length)
      (quads ++ [⟨subject, predicate, "_:b" ++ toString quads.length, none⟩]) nested
  | .array items => extractItems subject predicate quads 0 items
  | .null => quads

def extractItems (subject predicate : String) (quads : List Quad) (i : ℕ) : List Json → List Quad
  | [] => quads
  | item :: items =>
    extractItems subject predicate (extractItem subject predicate quads i item) (i + 1) items

-- the code extracts from any other item too, but finds quads in objects only
def extractItem (subject predicate : String) (quads : List Quad) (i : ℕ) : Json → List Quad
  | .string s => quads ++ [⟨subject, predicate, "\"" ++ s ++ "\"", none⟩]
  | .object nested =>
    extractFields ("_:b" ++ toString quads.length ++ "_" ++ toString i)
      (quads ++ [⟨subject, predicate, "_:b" ++ toString quads.length ++ "_" ++ toString i, none⟩])
      nested
  | _ => quads

end

def extractQuads (value : Json) (subject : String) (quads : List Quad) : List Quad :=
  match value with
  | .object fields => extractFields host subject quads fields
  | _ => quads

def toQuads (expanded : Json) : List Quad := extractQuads host expanded "_:root" []

/-- The options are not read. -/
def canonicalize (document : Json) : String :=
  let sortedQuads :=
    (toQuads host (expandDocument document)).mergeSort fun q q' => (q.cmp q').isLE
  "\n".intercalate (sortedQuads.map Quad.toNquads)

def createVerifyData (document proof : Json) : List UInt8 :=
  host.sha256 (asBytes (canonicalize host document) ++ asBytes (canonicalize host proof))

end

/-! ## Skipped keywords -/

/-- The keywords whose entries `extract_quads` skips. -/
def Skipped (keyword : String) : Prop := keyword = "@id" ∨ keyword = "@type"

variable {keyword : String}

theorem Skipped.expandKey_eq_iff (h : Skipped keyword) (key : String) :
    expandKey key = keyword ↔ key = keyword := by
  have hat : "@".toList <+: keyword.toList := by
    rcases h with rfl | rfl
    · decide
    · decide
  unfold expandKey
  split
  · rfl
  · next hkey =>
    constructor
    · intro heq
      -- the vocabulary does not start with `@`
      rw [← heq, String.toList_append] at hat
      obtain ⟨rest, hrest⟩ := hat
      exact absurd (cons.inj hrest).1 (by decide)
    · rintro rfl
      exact absurd (.inl hat) hkey

theorem Skipped.ne_context (h : Skipped keyword) : keyword ≠ "@context" := by
  rcases h with rfl | rfl
  · decide
  · decide

theorem remove_expandFields (hkeyword : Skipped keyword) {expanded : Fields} (h : Sorted expanded)
    (fields : Fields) :
    remove (expandFields expanded fields) keyword =
      expandFields (remove expanded keyword) (remove fields keyword) := by
  induction fields generalizing expanded with
  | nil => rw [expandFields, show remove [] keyword = ([] : Fields) from rfl, expandFields]
  | cons field fields ih =>
    obtain ⟨key, value⟩ := field
    rw [expandFields, remove_cons]
    by_cases hcontext : key = "@context"
    · rw [if_pos hcontext, if_neg (hcontext ▸ hkeyword.ne_context.symm), expandFields,
        if_pos hcontext]
      exact ih h
    · rw [if_neg hcontext, ih h.insert]
      by_cases hkey : key = keyword
      · rw [if_pos hkey, (hkeyword.expandKey_eq_iff key).2 hkey, remove_insert]
      · have hne : expandKey key ≠ keyword :=
          fun heq => hkey ((hkeyword.expandKey_eq_iff key).1 heq)
        rw [if_neg hkey, expandFields, if_neg hcontext, h.remove_insert_of_ne hne]

section

variable (host : Host)

theorem extractFields_remove (hkeyword : Skipped keyword) (subject : String) (quads : List Quad)
    (fields : Fields) :
    extractFields host subject quads (remove fields keyword) =
      extractFields host subject quads fields := by
  induction fields generalizing quads with
  | nil => rfl
  | cons field fields ih =>
    obtain ⟨predicate, object⟩ := field
    rw [remove_cons, extractFields]
    by_cases hkey : predicate = keyword
    · rw [if_pos hkey, if_pos (show predicate = "@id" ∨ predicate = "@type" from hkey ▸ hkeyword)]
      exact ih quads
    · rw [if_neg hkey, extractFields]
      split
      · exact ih quads
      · exact ih _

theorem canonicalize_insert (hkeyword : Skipped keyword) (value : Json) (fields : Fields) :
    canonicalize host (.object (insert keyword value fields)) =
      canonicalize host (.object fields) := by
  have hquads : ∀ fields : Fields, toQuads host (expandDocument (.object fields)) =
      extractFields host "_:root" [] (expandFields [] (remove fields keyword)) := by
    intro fields
    have hremove := remove_expandFields hkeyword (Pairwise.nil : Sorted ([] : Fields)) fields
    rw [show remove [] keyword = ([] : Fields) from rfl] at hremove
    rw [← hremove, extractFields_remove host hkeyword]
    rfl
  unfold canonicalize
  rw [hquads, hquads, remove_insert]

theorem canonicalize_of_not_object {document : Json} (h : ∀ fields, document ≠ .object fields) :
    canonicalize host document = "" := by
  have hquads : toQuads host (expandDocument document) = [] := by
    cases document with
    | object fields => exact absurd rfl (h fields)
    | array items | null | bool b | number n | string s => rfl
  unfold canonicalize
  rw [hquads, mergeSort_nil]
  rfl

end

/-! ## Equality of documents -/

/-- Equality up to `@context` and the order of arrays. -/
inductive Same : Json → Json → Prop
  | null : Same .null .null
  | bool (b : Bool) : Same (.bool b) (.bool b)
  | number (n : JsonNumber) : Same (.number n) (.number n)
  | string (s : String) : Same (.string s) (.string s)
  | array {items items' reordered : List Json} (hreordered : items.Perm reordered)
      (hitems : Forall₂ Same reordered items') : Same (.array items) (.array items')
  | object {fields fields' : Fields}
      (hfields : ∀ key, key ≠ "@context" → Option.Rel Same (get fields key) (get fields' key)) :
      Same (.object fields) (.object fields')

theorem Same.refl (value : Json) : Same value value := by
  induction value using SdJwt.json_induction with
  | null => exact .null
  | bool b => exact .bool b
  | number n => exact .number n
  | string s => exact .string s
  | array items ih => exact .array (Perm.refl _) (forall₂_same.2 ih)
  | object fields ih =>
    refine .object fun key _ => ?_
    cases hget : get fields key with
    | none => exact .none
    | some value => exact .some (ih _ (mem_of_get hget))

theorem Same.exists_string_not (value : Json) : ∃ s : String, ¬ Same value (.string s) := by
  cases value with
  | string s =>
    refine ⟨s ++ "'", fun h => ?_⟩
    generalize hlonger : s ++ "'" = longer at h
    cases h
    have hlength := congrArg String.length hlonger
    exact absurd hlength (by simp)
  | null | bool b | number n | array items | object fields =>
    refine ⟨"", fun h => ?_⟩
    cases h

theorem Same.exists_insert_not (hkeyword : keyword ≠ "@context") (fields : Fields) :
    ∃ s : String, ¬ Same (.object fields) (.object (insert keyword (.string s) fields)) := by
  obtain ⟨s, hs⟩ : ∃ s : String, ∀ value, get fields keyword = some value →
      ¬ Same value (.string s) := by
    cases hget : get fields keyword with
    | none => exact ⟨"", fun value h => absurd h (by simp)⟩
    | some old =>
      obtain ⟨s, hs⟩ := Same.exists_string_not old
      refine ⟨s, fun value h => ?_⟩
      cases h
      exact hs
  refine ⟨s, fun h => ?_⟩
  cases h with
  | object hfields =>
    have hrel := hfields keyword hkeyword
    rw [get_insert, if_pos rfl] at hrel
    cases hget : get fields keyword with
    | none =>
      rw [hget] at hrel
      cases hrel
    | some value =>
      rw [hget] at hrel
      cases hrel with
      | some hsame => exact hs value hget hsame

/-! ## Commitment -/

/-- A value whose maps are in order. -/
structure Document where
  value : Json
  keyed : Keyed value

theorem keyed_insert {fields : Fields} (key : String) (value : Json) (h : Keyed (.object fields))
    (hvalue : Keyed value) : Keyed (.object (insert key value fields)) := by
  refine ⟨pairwise_map.2 h.sorted.insert, SdJwt.allKeysFields_of_forall fun field hfield => ?_⟩
  rcases mem_insert hfield with rfl | hfield
  · exact hvalue
  · exact h.2.of_mem hfield

section

variable (host : Host)

/-- **Some other document has the same text.** -/
theorem exists_collision (document : Document) :
    ∃ document' : Document, ¬ Same document.value document'.value ∧
      canonicalize host document'.value = canonicalize host document.value := by
  obtain ⟨value, hkeyed⟩ := document
  cases value with
  | object fields =>
    have htype : Skipped "@type" := .inr rfl
    obtain ⟨s, hs⟩ := Same.exists_insert_not htype.ne_context fields
    exact ⟨⟨_, keyed_insert "@type" (.string s) hkeyed trivial⟩, hs,
      canonicalize_insert host htype _ fields⟩
  | null | bool b | number n | string s | array items =>
    obtain ⟨s, hs⟩ := Same.exists_string_not _
    refine ⟨⟨.string s, trivial⟩, hs, ?_⟩
    rw [canonicalize_of_not_object host (by simp), canonicalize_of_not_object host (by simp)]

/-- The bytes of a document and its options are those of no other document. -/
def CommitsDocument (document proof : Document) : Prop :=
  ∀ document' proof' : Document,
    createVerifyData host document.value proof.value =
      createVerifyData host document'.value proof'.value →
    Same document.value document'.value

/-- The bytes of a document and its options are those of no other options. -/
def CommitsOptions (document proof : Document) : Prop :=
  ∀ document' proof' : Document,
    createVerifyData host document.value proof.value =
      createVerifyData host document'.value proof'.value →
    proof.value = proof'.value

/-- **The bytes commit to nothing**: another document has them too, and other options do. -/
theorem commits_never (document proof : Document) :
    ¬ CommitsDocument host document proof ∧ ¬ CommitsOptions host document proof := by
  constructor
  · intro hcommits
    obtain ⟨document', hsame, htext⟩ := exists_collision host document
    refine hsame (hcommits document' proof ?_)
    unfold createVerifyData
    rw [htext]
  · intro hcommits
    obtain ⟨proof', hsame, htext⟩ := exists_collision host proof
    have heq := hcommits document proof' (by unfold createVerifyData; rw [htext])
    exact hsame (heq ▸ Same.refl proof.value)

end

def issued : Fields :=
  [("credentialSubject", .object [("id", .string "did:example:456"), ("name", .string "Alice")]),
    ("issuer", .string "did:example:123")]

theorem keyed_issued : Keyed (.object issued) :=
  ⟨by decide, ⟨⟨by decide, trivial, trivial, trivial⟩, trivial, trivial⟩⟩

/-- Whoever holds the credential makes it an administrator's: the bytes stay the same. -/
theorem commits_fails :
    ¬ ∀ host : Host, Function.Injective host.sha256 → ∀ document proof : Document,
      CommitsDocument host document proof ∧ CommitsOptions host document proof := by
  intro hcommits
  let host : Host := ⟨id, fun _ => "0"⟩
  let credential : Document := ⟨.object issued, keyed_issued⟩
  let retyped : Document :=
    ⟨_, keyed_insert "@type" (.string "AdministratorCredential") keyed_issued trivial⟩
  have htext : canonicalize host retyped.value = canonicalize host credential.value :=
    canonicalize_insert host (.inr rfl) _ issued
  have hbytes : createVerifyData host credential.value (.object []) =
      createVerifyData host retyped.value (.object []) := by
    unfold createVerifyData
    rw [htext]
  have hsame := (hcommits host Function.injective_id credential ⟨.object [], ⟨.nil, trivial⟩⟩).1
    retyped ⟨.object [], ⟨.nil, trivial⟩⟩ hbytes
  cases hsame with
  | object hfields =>
    -- the credential has no `@type`
    have hrel := hfields "@type" (by decide)
    rw [get_insert, if_pos rfl] at hrel
    cases hrel

end Idiom.JsonLd
