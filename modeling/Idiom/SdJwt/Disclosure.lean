import Idiom.Ajna.MerkleDag
import Idiom.Ecash.Transfer
import Idiom.Lib.Base64
import Idiom.Lib.OrderedMap

/-!
# Disclosures of SD-JWT credentials (`vc/src/formats/sd_jwt/disclosure.rs`)

A claim that is disclosed selectively is replaced by the digest of its disclosure.
-/

namespace Idiom.SdJwt

open Ajna (Json asBytes)
open OrderedMap (get insert remove)
open List

/-- `serde_json::Map`: the fields of an object, in the order of their keys. -/
abbrev Fields := List (String × Json)

/-! ## Hashing -/

/-- What the code calls: SHA-256, `serde_json::to_string` and `serde_json::from_slice`, and the text
of a base64 error. -/
structure Host where
  sha256 : List UInt8 → List UInt8
  toString : Json → String
  fromSlice : List UInt8 → Except String Json
  showDecodeError : String → String

/-- The hasher, whose only algorithm is `sha-256`. -/
def algorithmIdentifier : String := "sha-256"

section

variable (host : Host)

def hashDisclosure (disclosure : String) : String :=
  Base64.encode (host.sha256 (asBytes disclosure))

/-! ## Disclosures -/

inductive SdJwtError where
  | invalidFormat (message : String)
  | invalidDisclosure (message : String)
  | serializationError (message : String)
  deriving DecidableEq

/-- A single disclosure; one of an array element has no name. -/
structure Disclosure where
  salt : String
  claimName : Option String
  claimValue : Json

namespace Disclosure

def toArray (d : Disclosure) : Json :=
  match d.claimName with
  | some name => .array [.string d.salt, .string name, d.claimValue]
  | none => .array [.string d.salt, d.claimValue]

def encode (d : Disclosure) : String := Base64.encode (asBytes (host.toString d.toArray))

def ofArray : Json → Except SdJwtError Disclosure
  | .array [salt, name, value] =>
    match salt.asStr with
    | none => .error (.invalidDisclosure "Salt must be string")
    | some salt =>
      match name.asStr with
      | none => .error (.invalidDisclosure "Claim name must be string")
      | some name => .ok ⟨salt, some name, value⟩
  | .array [salt, value] =>
    match salt.asStr with
    | none => .error (.invalidDisclosure "Salt must be string")
    | some salt => .ok ⟨salt, none, value⟩
  | .array items =>
    .error (.invalidDisclosure ("Invalid disclosure array length: " ++ toString items.length))
  | _ => .error (.invalidDisclosure "Not an array")

def decode (encoded : String) : Except SdJwtError Disclosure :=
  match Base64.decode encoded with
  | none =>
    .error (.invalidDisclosure ("Base64 decode error: " ++ host.showDecodeError encoded))
  | some decoded =>
    match host.fromSlice decoded with
    | .error e => .error (.invalidDisclosure ("JSON parse error: " ++ e))
    | .ok disclosureArray => ofArray disclosureArray

/-- The digest of the disclosure as the code encodes it. -/
def hash (d : Disclosure) : String := hashDisclosure host (d.encode host)

@[simp] theorem ofArray_toArray (d : Disclosure) : ofArray d.toArray = .ok d := by
  obtain ⟨salt, name, value⟩ := d
  cases name with
  | none | some name => rfl

variable {host}

theorem decode_encode {d : Disclosure} {json : Json}
    (h : host.fromSlice (asBytes (host.toString d.toArray)) = .ok json) :
    decode host (d.encode host) = ofArray json := by
  simp only [decode, encode, Base64.decode_encode, h]

theorem exists_of_decode_encode {d d' : Disclosure} (h : decode host (d.encode host) = .ok d') :
    ∃ json, host.fromSlice (asBytes (host.toString d.toArray)) = .ok json ∧
      ofArray json = .ok d' := by
  simp only [decode, encode, Base64.decode_encode] at h
  cases hjson : host.fromSlice (asBytes (host.toString d.toArray)) with
  | error e =>
    rw [hjson] at h
    cases h
  | ok json =>
    rw [hjson] at h
    exact ⟨json, rfl, h⟩

end Disclosure

/-! ## Frames -/

/-- Which claims to disclose. -/
inductive DisclosureFrame where
  | boolean (b : Bool)
  | object (frames : List (String × DisclosureFrame))
  | array (frames : List DisclosureFrame)

def lookupFrame (frames : List (String × DisclosureFrame)) (key : String) :
    Option DisclosureFrame :=
  (frames.find? fun p => p.1 = key).map Prod.snd

/-! ## Planting the digests -/

/-- The way from the claims to a value. -/
inductive Step where
  | field (key : String)
  | item (index : ℕ)

/-- The salt that is drawn for the value at a place. -/
abbrev Salts := List Step → String

def Salts.below (salts : Salts) (step : Step) : Salts := fun path => salts (step :: path)

/-- The fields that stay, the digests of the others, and all disclosures. -/
structure Planted where
  fields : Fields
  digests : List String
  disclosures : List Disclosure

/-- `_sd` and `_sd_alg` are added if there are digests. -/
def Planted.sealed (p : Planted) : Fields :=
  if p.digests.isEmpty then p.fields
  else insert "_sd_alg" (.string algorithmIdentifier)
    (insert "_sd" (.array (p.digests.map .string)) p.fields)

/-- `for_object_property`. -/
def forObjectProperty (salts : Salts) (key : String) (value : Json) : Disclosure :=
  ⟨salts [.field key], some key, value⟩

/-- `for_array_element`. -/
def forArrayElement (salts : Salts) (index : ℕ) (value : Json) : Disclosure :=
  ⟨salts [.item index], none, value⟩

mutual

/-- The value with its digests, and the disclosures in the order of their values. -/
def processValue (salts : Salts) : Json → DisclosureFrame → Json × List Disclosure
  | _, .boolean false => (.null, [])
  | value, .boolean true => (value, [])
  | .object fields, .object frames =>
    let planted := processFields salts frames fields
    (.object planted.sealed, planted.disclosures)
  | .array items, .array frames =>
    let planted := processItems salts frames 0 items
    (.array planted.1, planted.2)
  | value, _ => (value, [])

/-- The keys are different, so it does not matter in which order the fields are inserted. -/
def processFields (salts : Salts) (frames : List (String × DisclosureFrame)) :
    List (String × Json) → Planted
  | [] => ⟨[], [], []⟩
  | (key, value) :: fields =>
    let rest := processFields salts frames fields
    match lookupFrame frames key with
    | some (.boolean true) =>
      let disclosure := forObjectProperty salts key value
      ⟨rest.fields, disclosure.hash host :: rest.digests, disclosure :: rest.disclosures⟩
    | some (.boolean false) => rest
    | some subframe =>
      let processed := processValue (salts.below (.field key)) value subframe
      ⟨insert key processed.1 rest.fields, rest.digests, processed.2 ++ rest.disclosures⟩
    | none => ⟨insert key value rest.fields, rest.digests, rest.disclosures⟩

/-- Items from `index` on; the frames are those from `index` on. -/
def processItems (salts : Salts) (frames : List DisclosureFrame) (index : ℕ) :
    List Json → List Json × List Disclosure
  | [] => ([], [])
  | value :: items =>
    let rest := processItems salts frames.tail (index + 1) items
    match frames.head? with
    | some (.boolean true) =>
      let disclosure := forArrayElement salts index value
      (.object [("...", .string (disclosure.hash host))] :: rest.1, disclosure :: rest.2)
    | some (.boolean false) => rest
    | some subframe =>
      let processed := processValue (salts.below (.item index)) value subframe
      (processed.1 :: rest.1, processed.2 ++ rest.2)
    | none => (value :: rest.1, rest.2)

end

/-- Process claims and create disclosures based on the frame. -/
def processClaims (salts : Salts) (claims : Json) (frame : DisclosureFrame) :
    Json × List Disclosure :=
  processValue host salts claims frame

/-! ## Putting claims back -/

/-- The digests of an `_sd` claim. -/
def sdDigests (claims : Fields) : List String :=
  match get claims "_sd" with
  | some (.array digests) => digests.filterMap Json.asStr
  | _ => []

/-- A property is inserted if its digest is in `_sd`; an array element is left out. -/
def applyDisclosure (claims : Json) (disclosure : Disclosure) : Json :=
  match disclosure.claimName, claims with
  | some claimName, .object fields =>
    if disclosure.hash host ∈ sdDigests fields then
      .object (insert claimName disclosure.claimValue fields)
    else claims
  | _, _ => claims

def removeSd : Json → Json
  | .object fields => .object (remove (remove fields "_sd") "_sd_alg")
  | claims => claims

def applyDisclosures (sdJwtClaims : Json) (disclosures : List String) : Except SdJwtError Json := do
  let decoded ← disclosures.mapM (Disclosure.decode host)
  .ok (removeSd (decoded.foldl (applyDisclosure host) sdJwtClaims))

/-- `SdJwtVerifier::verify_disclosures`: each disclosure, as it was received, has its digest in
`_sd`. -/
def verifyDisclosures (claims : Json) (disclosures : List String) : Bool :=
  let digests := match claims with
    | .object fields => sdDigests fields
    | _ => []
  disclosures.all fun d => hashDisclosure host d ∈ digests

/-! ## Application -/

variable {host}

theorem sdDigests_congr {fields fields' : Fields} (h : get fields' "_sd" = get fields "_sd") :
    sdDigests fields' = sdDigests fields := by
  unfold sdDigests
  rw [h]

theorem exists_applyDisclosure (fields : Fields) (d : Disclosure) :
    applyDisclosure host (.object fields) d = .object fields ∨
      ∃ name, d.claimName = some name ∧ d.hash host ∈ sdDigests fields ∧
        applyDisclosure host (.object fields) d = .object (insert name d.claimValue fields) := by
  unfold applyDisclosure
  cases hname : d.claimName with
  | none => exact .inl rfl
  | some name =>
    by_cases hhash : d.hash host ∈ sdDigests fields
    · refine .inr ⟨name, rfl, hhash, ?_⟩
      simp only [hhash, if_true]
    · refine .inl ?_
      simp only [hhash, if_false]

theorem exists_foldl_applyDisclosure (fields : Fields) (ds : List Disclosure) :
    ∃ fields', ds.foldl (applyDisclosure host) (.object fields) = .object fields' ∧
      (OrderedMap.Sorted fields → OrderedMap.Sorted fields') := by
  induction ds generalizing fields with
  | nil => exact ⟨fields, rfl, id⟩
  | cons d ds ih =>
    rw [foldl_cons]
    rcases exists_applyDisclosure fields d with happly | ⟨name, _, _, happly⟩
    · rw [happly]
      exact ih fields
    · rw [happly]
      obtain ⟨fields', hfold, hsorted⟩ := ih (insert name d.claimValue fields)
      exact ⟨fields', hfold, fun h => hsorted h.insert⟩

/-- **What is put in.**  If `_sd` is not, every field is as it was, or has the value of a disclosure
whose digest is in `_sd`. -/
theorem get_foldl_applyDisclosure {fields fields' : Fields} {ds : List Disclosure}
    (hnames : ∀ d ∈ ds, d.claimName ≠ some "_sd")
    (h : ds.foldl (applyDisclosure host) (.object fields) = .object fields') (key : String) :
    (get fields' key = get fields key ∧
        ∀ d ∈ ds, d.claimName = some key → d.hash host ∉ sdDigests fields) ∨
      ∃ d ∈ ds, d.claimName = some key ∧ d.hash host ∈ sdDigests fields ∧
        get fields' key = some d.claimValue := by
  induction ds generalizing fields with
  | nil =>
    obtain rfl : fields = fields' := Json.object.inj h
    exact .inl ⟨rfl, fun d hd => by cases hd⟩
  | cons d ds ih =>
    rw [foldl_cons] at h
    have hrest := fun {fields} => @ih fields fun d' hd' =>
      hnames d' (mem_cons_of_mem _ hd')
    by_cases hhash : d.hash host ∈ sdDigests fields ∧ d.claimName.isSome
    · obtain ⟨hhash, hsome⟩ := hhash
      obtain ⟨name, hname⟩ := Option.isSome_iff_exists.1 hsome
      have happly : applyDisclosure host (.object fields) d =
          .object (insert name d.claimValue fields) := by
        unfold applyDisclosure
        simp only [hname, hhash, if_true]
      have hsd : sdDigests (insert name d.claimValue fields) = sdDigests fields := by
        refine sdDigests_congr ?_
        rw [OrderedMap.get_insert, if_neg]
        rintro rfl
        exact hnames d mem_cons_self hname
      rw [happly] at h
      rcases hrest h with ⟨hget, hnone⟩ | ⟨d', hd', hname', hhash', hget⟩
      · rw [OrderedMap.get_insert] at hget
        split at hget
        · next heq =>
          exact .inr ⟨d, mem_cons_self, by rw [hname, heq], hhash, hget⟩
        · next hne =>
          refine .inl ⟨hget, fun d' hd' hname' => ?_⟩
          rcases mem_cons.1 hd' with rfl | hd'
          · exact absurd (Option.some.inj (hname.symm.trans hname')) hne
          · rw [← hsd]
            exact hnone d' hd' hname'
      · rw [hsd] at hhash'
        exact .inr ⟨d', mem_cons_of_mem _ hd', hname', hhash', hget⟩
    · have happly : applyDisclosure host (.object fields) d = .object fields := by
        rcases @exists_applyDisclosure host fields d with happly | ⟨name, hname, hin, _⟩
        · exact happly
        · exact absurd ⟨hin, by rw [hname]; rfl⟩ hhash
      rw [happly] at h
      rcases hrest h with ⟨hget, hnone⟩ | ⟨d', hd', hname', hhash', hget⟩
      · refine .inl ⟨hget, fun d' hd' hname' hin => ?_⟩
        rcases mem_cons.1 hd' with rfl | hd'
        · exact hhash ⟨hin, by rw [hname']; rfl⟩
        · exact hnone d' hd' hname' hin
      · exact .inr ⟨d', mem_cons_of_mem _ hd', hname', hhash', hget⟩

end

/-! ## The disclosure of a name -/

/-- The disclosure of the name, as the code writes it. -/
def nameDisclosure : String := "WyJzYWx0IiwibmFtZSIsIkFsaWNlIl0"

/-- The same disclosure, with blanks in its text. -/
def blankDisclosure : String := "WyJzYWx0IiwgIm5hbWUiLCAiQWxpY2UiXQ"

def nameDigest : String := "B4rHgFoNMPPP0YoisIj52221sNSvj9S4PKUR_XsQSmw"

def blankDigest : String := "wRLctJnQaykHrRrGKVZ2ZjGfF88rUnkh9CbKQISkTcE"

/-- The signed claims of a credential with one digest. -/
def namePayload (digest : String) : Json :=
  .object [("_sd", .array [.string digest]), ("_sd_alg", .string "sha-256"),
    ("iss", .string "did:a:b")]

def payloadText (digest : String) : String :=
  "\x7b\"_sd\":[\"" ++ digest ++ "\"],\"_sd_alg\":\"sha-256\",\"iss\":\"did:a:b\"\x7d"

def nameArray : Json := .array [.string "salt", .string "name", .string "Alice"]

def nameText : Json → String
  | .array [.string "salt", .string "name", .string "Alice"] => "[\"salt\",\"name\",\"Alice\"]"
  | _ => ""

theorem eq_of_nameText {json : Json} (h : nameText json ≠ "") : json = nameArray := by
  unfold nameText at h
  split at h
  · rfl
  · exact absurd rfl h

/-- The texts of the name, of its disclosure and of the claims, as `serde_json` reads them, and the
digests of the two disclosures. -/
def nameHost : Host where
  sha256 bytes :=
    if bytes = asBytes nameDisclosure then
      [7, 138, 199, 128, 90, 13, 48, 243, 207, 209, 138, 34, 176, 136, 249, 219,
       109, 181, 176, 212, 175, 143, 212, 184, 60, 165, 17, 253, 123, 16, 74, 108]
    else if bytes = asBytes blankDisclosure then
      [193, 18, 220, 180, 153, 208, 107, 41, 7, 173, 26, 198, 41, 86, 118, 102,
       49, 159, 23, 207, 43, 82, 121, 33, 244, 38, 202, 64, 132, 164, 77, 193]
    else []
  toString := nameText
  fromSlice bytes :=
    if bytes = asBytes "[\"salt\",\"name\",\"Alice\"]" then .ok nameArray
    else if bytes = asBytes "[\"salt\", \"name\", \"Alice\"]" then .ok nameArray
    else if bytes = asBytes (payloadText nameDigest) then .ok (namePayload nameDigest)
    else if bytes = asBytes (payloadText blankDigest) then .ok (namePayload blankDigest)
    else .error "EOF while parsing a value at line 1 column 0"
  showDecodeError _ := ""

end Idiom.SdJwt
