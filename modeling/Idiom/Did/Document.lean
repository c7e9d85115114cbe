import Idiom.Ajna.JsonReader

/-!
# DID documents (`did/src/core/document.rs`)

The documents of the resolvers and their derived readers. A struct is read from an object, or by
position from an array; a missing or `null` optional field is `None`.
-/

namespace Idiom.Did

open Ajna (Json)
open Ajna.JsonReader Option
open OrderedMap (get)

/-! ## Verification methods -/

structure VerificationMethod where
  id : String
  type_ : String
  controller : String
  publicKeyBase58 : Option String
  publicKeyMultibase : Option String
  publicKeyJwk : Option Json

namespace VerificationMethod

def read (id type_ controller publicKeyBase58 publicKeyMultibase publicKeyJwk : Option Json) :
    Option VerificationMethod := do
  let id ← readField Json.asStr id
  let type_ ← readField Json.asStr type_
  let controller ← readField Json.asStr controller
  let publicKeyBase58 ← readOptional Json.asStr publicKeyBase58
  let publicKeyMultibase ← readOptional Json.asStr publicKeyMultibase
  let publicKeyJwk ← readOptional some publicKeyJwk
  return ⟨id, type_, controller, publicKeyBase58, publicKeyMultibase, publicKeyJwk⟩

def fromValue : Json → Option VerificationMethod
  | .object fields =>
    read (get fields "id") (get fields "type") (get fields "controller")
      (get fields "publicKeyBase58") (get fields "publicKeyMultibase") (get fields "publicKeyJwk")
  | .array [id, type_, controller, publicKeyBase58, publicKeyMultibase, publicKeyJwk] =>
    read id type_ controller publicKeyBase58 publicKeyMultibase publicKeyJwk
  | _ => none

end VerificationMethod

inductive VerificationRelationship where
  | reference (id : String)
  | embedded (method : VerificationMethod)

open VerificationRelationship

/-- The first variant that reads the value. -/
def VerificationRelationship.fromValue (value : Json) : Option VerificationRelationship :=
  match value.asStr with
  | some id => some (.reference id)
  | none => (VerificationMethod.fromValue value).map .embedded

/-! ## Services -/

structure Service where
  id : String
  type_ : String
  serviceEndpoint : Json
  properties : Fields

namespace Service

/-- `service_type_serde`: a string, or the first of an array of strings. -/
def readType : Json → Option String
  | .string s => some s
  | .array items => (items.mapM Json.asStr).bind List.head?
  | _ => none

def fromValue : Json → Option Service
  | .object fields => do
    let id ← readField Json.asStr (get fields "id")
    let type_ ← readField readType (get fields "type")
    let serviceEndpoint ← get fields "serviceEndpoint"
    return ⟨id, type_, serviceEndpoint,
      fields.filter fun field => field.1 ∉ ["id", "type", "serviceEndpoint"]⟩
  | _ => none

end Service

/-! ## Documents -/

structure DidDocument where
  id : String
  verificationMethod : List VerificationMethod
  authentication : List VerificationRelationship
  assertionMethod : List VerificationRelationship
  keyAgreement : List VerificationRelationship
  capabilityInvocation : List VerificationRelationship
  capabilityDelegation : List VerificationRelationship
  service : List Service
  context : Option Json
  alsoKnownAs : List String
  controller : Option Json

namespace DidDocument

def read (id verificationMethod authentication assertionMethod keyAgreement capabilityInvocation
    capabilityDelegation service context alsoKnownAs controller : Option Json) :
    Option DidDocument := do
  let id ← readField Json.asStr id
  let verificationMethod ← readDefault VerificationMethod.fromValue verificationMethod
  let authentication ← readDefault fromValue authentication
  let assertionMethod ← readDefault fromValue assertionMethod
  let keyAgreement ← readDefault fromValue keyAgreement
  let capabilityInvocation ← readDefault fromValue capabilityInvocation
  let capabilityDelegation ← readDefault fromValue capabilityDelegation
  let service ← readDefault Service.fromValue service
  let context ← readOptional some context
  let alsoKnownAs ← readDefault Json.asStr alsoKnownAs
  let controller ← readOptional some controller
  return ⟨id, verificationMethod, authentication, assertionMethod, keyAgreement,
    capabilityInvocation, capabilityDelegation, service, context, alsoKnownAs, controller⟩

def fromValue : Json → Option DidDocument
  | .object fields =>
    read (get fields "id") (get fields "verificationMethod") (get fields "authentication")
      (get fields "assertionMethod") (get fields "keyAgreement")
      (get fields "capabilityInvocation") (get fields "capabilityDelegation")
      (get fields "service") (get fields "@context") (get fields "alsoKnownAs")
      (get fields "controller")
  | .array [id, verificationMethod, authentication, assertionMethod, keyAgreement,
      capabilityInvocation, capabilityDelegation, service, context, alsoKnownAs, controller] =>
    read id verificationMethod authentication assertionMethod keyAgreement capabilityInvocation
      capabilityDelegation service context alsoKnownAs controller
  | _ => none

end DidDocument

/-! ## Which values are read -/

/-- What `Service::type` is read from. -/
def isType : Json → Bool
  | .string _ => true
  | .array items => !items.isEmpty && items.all isString
  | _ => false

def isService : Json → Bool
  | .object fields =>
    (get fields "id").any isString && (get fields "type").any isType &&
      (get fields "serviceEndpoint").isSome
  | _ => false

theorem isSome_readType (value : Json) : (Service.readType value).isSome = isType value := by
  cases value with
  | array items =>
    have hread : (items.mapM Json.asStr).isSome = items.all isString := by
      rw [isSome_mapM]
      simp only [isSome_asStr]
    cases items with
    | nil => rfl
    | cons item items =>
      rw [show isType (.array (item :: items)) = (item :: items).all isString from rfl, ← hread,
        show Service.readType (.array (item :: items)) =
          ((item :: items).mapM Json.asStr).bind List.head? from rfl]
      cases hmap : (item :: items).mapM Json.asStr with
      | none => rfl
      | some texts =>
        obtain ⟨text, rest, -, -, rfl⟩ := mapM_cons_eq_some.1 hmap
        rfl
  | null | bool b | number n | string s | object fields => rfl

theorem isSome_service (value : Json) : (Service.fromValue value).isSome = isService value := by
  cases value with
  | object fields =>
    have htype : (readField Service.readType (get fields "type")).isSome =
        (get fields "type").any isType := by
      rw [isSome_readField]
      simp only [isSome_readType]
    unfold Service.fromValue
    simp only [isService]
    rw [← isSome_readField_asStr, ← htype]
    cases readField Json.asStr (get fields "id") with
    | none => rfl
    | some id =>
      cases readField Service.readType (get fields "type") with
      | none => rfl
      | some type_ =>
        cases get fields "serviceEndpoint" with
        | none | some serviceEndpoint => rfl
  | null | bool b | number n | string s | array items => rfl

namespace VerificationMethod

variable {id type_ controller publicKeyBase58 publicKeyMultibase publicKeyJwk : Option Json}

theorem read_eq_some_iff {m : VerificationMethod} :
    read id type_ controller publicKeyBase58 publicKeyMultibase publicKeyJwk = some m ↔
      readField Json.asStr id = some m.id ∧ readField Json.asStr type_ = some m.type_ ∧
        readField Json.asStr controller = some m.controller ∧
        readOptional Json.asStr publicKeyBase58 = some m.publicKeyBase58 ∧
        readOptional Json.asStr publicKeyMultibase = some m.publicKeyMultibase ∧
        readOptional some publicKeyJwk = some m.publicKeyJwk := by
  unfold read
  constructor
  · intro h
    simp only [bind_eq_bind, bind_eq_some_iff] at h
    obtain ⟨id, hid, type_, htype, controller, hcontroller, b58, hb58, multibase, hmultibase, jwk,
      hjwk, hm⟩ := h
    cases hm
    exact ⟨hid, htype, hcontroller, hb58, hmultibase, hjwk⟩
  · rintro ⟨hid, htype, hcontroller, hb58, hmultibase, hjwk⟩
    rw [hid, htype, hcontroller, hb58, hmultibase, hjwk]
    rfl

theorem isSome_read :
    (read id type_ controller publicKeyBase58 publicKeyMultibase publicKeyJwk).isSome =
      (id.any isString && type_.any isString && controller.any isString &&
        publicKeyBase58.all isOptionalString && publicKeyMultibase.all isOptionalString) := by
  rw [← isSome_readField_asStr, ← isSome_readField_asStr, ← isSome_readField_asStr,
    ← isSome_readOptional_asStr, ← isSome_readOptional_asStr]
  obtain ⟨jwk, hjwk⟩ := isSome_iff_exists.1 (isSome_readOptional_some publicKeyJwk)
  unfold read
  rw [hjwk]
  cases readField Json.asStr id with
  | none => rfl
  | some id =>
    cases readField Json.asStr type_ with
    | none => rfl
    | some type_ =>
      cases readField Json.asStr controller with
      | none => rfl
      | some controller =>
        cases readOptional Json.asStr publicKeyBase58 with
        | none => rfl
        | some publicKeyBase58 =>
          cases readOptional Json.asStr publicKeyMultibase with
          | none | some publicKeyMultibase => rfl

end VerificationMethod

namespace DidDocument

variable {id verificationMethod authentication assertionMethod keyAgreement capabilityInvocation
  capabilityDelegation service context alsoKnownAs controller : Option Json}

theorem read_eq_some_iff {d : DidDocument} :
    read id verificationMethod authentication assertionMethod keyAgreement capabilityInvocation
        capabilityDelegation service context alsoKnownAs controller = some d ↔
      readField Json.asStr id = some d.id ∧
        readDefault VerificationMethod.fromValue verificationMethod = some d.verificationMethod ∧
        readDefault VerificationRelationship.fromValue authentication = some d.authentication ∧
        readDefault VerificationRelationship.fromValue assertionMethod = some d.assertionMethod ∧
        readDefault VerificationRelationship.fromValue keyAgreement = some d.keyAgreement ∧
        readDefault VerificationRelationship.fromValue capabilityInvocation =
          some d.capabilityInvocation ∧
        readDefault VerificationRelationship.fromValue capabilityDelegation =
          some d.capabilityDelegation ∧
        readDefault Service.fromValue service = some d.service ∧
        readOptional some context = some d.context ∧
        readDefault Json.asStr alsoKnownAs = some d.alsoKnownAs ∧
        readOptional some controller = some d.controller := by
  unfold read
  constructor
  · intro h
    simp only [bind_eq_bind, bind_eq_some_iff] at h
    obtain ⟨_, h₁, _, h₂, _, h₃, _, h₄, _, h₅, _, h₆, _, h₇, _, h₈, _, h₉, _, h₁₀, _, h₁₁, hd⟩ := h
    cases hd
    exact ⟨h₁, h₂, h₃, h₄, h₅, h₆, h₇, h₈, h₉, h₁₀, h₁₁⟩
  · rintro ⟨h₁, h₂, h₃, h₄, h₅, h₆, h₇, h₈, h₉, h₁₀, h₁₁⟩
    rw [h₁, h₂, h₃, h₄, h₅, h₆, h₇, h₈, h₉, h₁₀, h₁₁]
    rfl

end DidDocument

end Idiom.Did
