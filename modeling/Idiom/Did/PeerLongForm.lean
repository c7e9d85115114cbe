import Idiom.Ajna.MerkleDag
import Idiom.Did.Document
import Idiom.Lib.Base58

/-!
# Long forms of did:peer:4 (`did/src/methods/peer.rs`)

A long form carries the encoded document behind its hash.
-/

namespace Idiom.Did

open Ajna (Json asBytes)
open Ajna.JsonReader
open OrderedMap (get insert)

/-! ## Encoding -/

/-- `multibase::encode` with base58btc. -/
def multibaseEncode (bytes : List UInt8) : String := "z" ++ Base58.encode bytes

/-- What the code calls: SHA-256, `multibase::decode`, `serde_json::from_slice`, and the text of
an error of `serde_json::from_value`. Decoding inverts encoding. -/
structure Host where
  sha256 : List UInt8 → List UInt8
  multibaseDecode : String → Except String (List UInt8)
  fromSlice : List UInt8 → Except String Json
  showFromValue : Json → String
  decode_encode : ∀ bytes, multibaseDecode (multibaseEncode bytes) = .ok bytes

/-- The bytes before an encoded document. -/
def peer4Scheme : String := "did:peer:4"

/-- The encoded-document tail of a long form. -/
def splitPeer4Long (did : String) : Option String :=
  if peer4Scheme.toList <+: did.toList then
    let body := did.toList.drop peer4Scheme.length
    match body.dropWhile (· ≠ ':') with
    | [] => none
    | _ :: encoded =>
      let hash := body.takeWhile (· ≠ ':')
      if hash ≠ [] ∧ encoded ≠ [] then some (String.ofList encoded) else none
  else none

/-- Minimal unsigned-LEB128 varint reader. -/
def readUvarintFrom (value : UInt64) (shift : ℕ) : List UInt8 → Option (UInt64 × List UInt8)
  | [] => none
  | byte :: rest =>
    let value := value ||| ((byte &&& 0x7f).toUInt64 <<< UInt64.ofNat shift)
    if byte &&& 0x80 = 0 then some (value, rest)
    else if 64 ≤ shift + 7 then none
    else readUvarintFrom value (shift + 7) rest

def readUvarint (data : List UInt8) : Option (UInt64 × List UInt8) := readUvarintFrom 0 0 data

/-! ## Completing a document -/

def relationships : List String :=
  ["authentication", "keyAgreement", "assertionMethod", "capabilityDelegation",
    "capabilityInvocation"]

def withController (did : String) : Json → Json
  | .object method =>
    .object (if (get method "controller").isSome then method
      else insert "controller" (.string did) method)
  | item => item

def fillField (did : String) (fields : Fields) (name : String) : Fields :=
  match get fields name with
  | some (.array items) => insert name (.array (items.map (withController did))) fields
  | _ => fields

def fillControllers (did : String) (names : List String) (fields : Fields) : Fields :=
  names.foldl (fillField did) fields

/-- The `id` of an object. -/
def idOf (item : Json) : Option String := (item.get "id").bind Json.asStr

/-- The methods so far, after their ids. -/
abbrev Methods := List String × List Json

def hoistItem (methods : Methods) (item : Json) : Methods :=
  match idOf item with
  | none => methods
  | some id =>
    if id ∈ methods.1 then methods else (id :: methods.1, methods.2 ++ [item])

def itemsOf (fields : Fields) (name : String) : List Json :=
  (((get fields name).bind Json.asArray).getD [])

/-- The methods of `verificationMethod`, and behind them the embedded ones with another id. -/
def hoist (fields : Fields) : List Json :=
  let methods := itemsOf fields "verificationMethod"
  (relationships.foldl (fun methods name => (itemsOf fields name).foldl hoistItem methods)
    (methods.filterMap idOf, methods)).2

def complete (did short : String) (fields : Fields) : Fields :=
  let fields := insert "id" (.string did) fields
  let fields := insert "alsoKnownAs" (.array [.string short]) fields
  let fields := fillControllers did ("verificationMethod" :: relationships) fields
  let methods := hoist fields
  if methods.isEmpty then fields else insert "verificationMethod" (.array methods) fields

/-! ## The resolver -/

inductive ResolutionError where
  | invalidDid (message : String)
  | resolutionFailed (message : String)
  | internalError (message : String)
  deriving DecidableEq

/-- The service of a did:peer and its keys. -/
structure Peer2Service where
  serviceEndpoint : Option String
  serviceType : Option String
  routingKeys : List String
  authenticationKey : Option String
  keyAgreementKey : Option String
  recipientKeys : List String
  deriving DecidableEq

/-- The lower-case hexadecimal digits of a number. -/
def lowerHex (n : ℕ) : String := String.ofList (Nat.toDigits 16 n)

section

variable (host : Host)

def hashEncodedDocument (encoded : String) : String :=
  multibaseEncode (0x12 :: 0x20 :: host.sha256 (asBytes encoded))

def encodeDidPeer4 (documentJson : List UInt8) : String × String × String :=
  let encoded := multibaseEncode (0x80 :: 0x04 :: documentJson)
  let hash := hashEncodedDocument host encoded
  let shortForm := peer4Scheme ++ hash
  (shortForm, shortForm ++ ":" ++ encoded, encoded)

def decodePeer4Long (did encoded : String) : Except ResolutionError DidDocument :=
  let short := String.ofList (did.toList.take (did.length - encoded.length - 1))
  let gotHash :=
    if peer4Scheme.toList <+: short.toList then
      String.ofList (short.toList.drop peer4Scheme.length)
    else ""
  if gotHash ≠ hashEncodedDocument host encoded then
    .error (.resolutionFailed ("did:peer:4 self-certifying hash mismatch: " ++ did))
  else
    match host.multibaseDecode encoded with
    | .error e => .error (.resolutionFailed ("did:peer:4 multibase decode: " ++ e))
    | .ok data =>
      match readUvarint data with
      | none => .error (.resolutionFailed "did:peer:4 truncated multicodec")
      | some (codec, rest) =>
        if codec ≠ 0x0200 then
          .error (.resolutionFailed
            ("did:peer:4 unexpected multicodec 0x" ++ lowerHex codec.toNat ++
              " (want 0x0200 JSON)"))
        else
          match host.fromSlice rest with
          | .error e => .error (.resolutionFailed ("did:peer:4 document JSON: " ++ e))
          | .ok doc =>
            let doc :=
              match doc with
              | .object fields => .object (complete did short fields)
              | doc => doc
            match DidDocument.fromValue doc with
            | some document => .ok document
            | none =>
              .error (.internalError ("did:peer:4 -> DidDocument: " ++ host.showFromValue doc))

/-! ## The shortcut -/

/-- The base58 key of a method. -/
def base58Of (item : Json) : Option String := (item.get "publicKeyBase58").bind Json.asStr

def endsWithRef (idRef : String) (item : Json) : Bool :=
  (idOf item).any fun id => idRef.toList.isSuffixOf id.toList

/-- The items of an array field of a document. -/
def arrayOf (doc : Json) (name : String) : List Json := ((doc.get name).bind Json.asArray).getD []

/-- The first method of the fields whose id ends with the reference. -/
def methodByRef (doc : Json) (idRef : String) : List String → Option Json
  | [] => none
  | name :: names =>
    match (arrayOf doc name).find? (endsWithRef idRef) with
    | some method => some method
    | none => methodByRef doc idRef names

def keyByRef (doc : Json) (idRef : String) : Option String :=
  (methodByRef doc idRef ["authentication", "keyAgreement", "verificationMethod"]).bind base58Of

def firstBase58 (doc : Json) (name : String) : Option String :=
  (arrayOf doc name).head?.bind base58Of

def firstService (doc : Json) : Option Json := (arrayOf doc "service").head?

def recipientKey (service : Json) : Option String :=
  (arrayOf service "recipientKeys").head?.bind Json.asStr

def serviceOf (doc service : Json) : Peer2Service :=
  let authenticationKey :=
    match recipientKey service with
    | some r => if "#".toList <+: r.toList then keyByRef doc r else some r
    | none => firstBase58 doc "authentication"
  let keyAgreementKey := firstBase58 doc "keyAgreement"
  { serviceEndpoint := (service.get "serviceEndpoint").bind Json.asStr
    serviceType := (service.get "type").bind Json.asStr
    routingKeys := (arrayOf service "routingKeys").filterMap Json.asStr
    authenticationKey := authenticationKey
    keyAgreementKey := keyAgreementKey
    recipientKeys := [authenticationKey, keyAgreementKey].filterMap id }

def parsePeer4 (did : String) : Option Peer2Service := do
  let encoded ← splitPeer4Long did
  let data ← (host.multibaseDecode encoded).toOption
  let (codec, rest) ← readUvarint data
  if codec ≠ 0x0200 then none
  else
    let doc ← (host.fromSlice rest).toOption
    let service ← firstService doc
    return serviceOf doc service

end

end Idiom.Did
