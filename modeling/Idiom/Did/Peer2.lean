import Idiom.Did.PeerLongForm
import Idiom.Lib.Base64
import Idiom.Mediation.Socket

/-!
# did:peer:2: `did/src/methods/peer.rs`

A did:peer:2 carries its keys and its service in its parts, after a dot each.
-/

namespace Idiom.Did

open Ajna (Json asBytes)
open List Base58 Mediation

/-! ## Creation -/

abbrev KeyBytes := {bytes : List UInt8 // bytes.length = 32}

/-- What the code calls: the conversion of an Ed25519 key to X25519, and the JSON texts. -/
structure Peer2Host where
  toMontgomery : KeyBytes → Option KeyBytes
  printJson : Json → String
  fromSlice : List UInt8 → Option Json

structure CreateDidOptions where
  serviceEndpoints : List String
  options : String → Option Json

/-- `serde_json::from_value::<Vec<String>>`. -/
def stringsOf (value : Json) : Option (List String) := value.asArray.bind (mapM Json.asStr)

def CreateDidOptions.routingKeys (opts : CreateDidOptions) : List String :=
  ((opts.options "routing_keys").bind stringsOf).getD []

/-- Accept protocols. -/
def CreateDidOptions.accept (opts : CreateDidOptions) : List String :=
  ((opts.options "accept").bind stringsOf).getD ["didcomm/v2"]

/-- The profiles ask for DIDComm v1. -/
def isDidcommV1 (accept : List String) : Bool :=
  accept.any fun a => ["aip", "rfc19", "rfc0"].any fun profile => profile.toList <:+: a.toList

def serviceJson (endpoint : String) (routingKeys accept : List String) : Json :=
  if isDidcommV1 accept then
    .object [("priority", .number (.posInt 0)), ("r", .array (routingKeys.map .string)),
      ("recipientKeys", .array [.string "#key-1"]), ("s", .string endpoint),
      ("t", .string "did-communication")]
  else
    .object [("a", .array (accept.map .string)), ("r", .array (routingKeys.map .string)),
      ("s", .string endpoint), ("t", .string "dm")]

def peer2Scheme : String := "did:peer:2"

/-- The parts of an identifier, after a dot each. -/
def composePeer2 (host : Peer2Host) (key agreementKey : KeyBytes) (service : Json) : String :=
  peer2Scheme ++ ".V" ++ multibaseEncode (0xed :: 0x01 :: key.1) ++ ".E" ++
    multibaseEncode (0xec :: 0x01 :: agreementKey.1) ++ ".S" ++
    Base64.encode (asBytes (host.printJson service))

/-- The identifier for a key that the wallet has created. -/
def createPeerDid (host : Peer2Host) (publicKey : List UInt8) (opts : CreateDidOptions) :
    Except ResolutionError String :=
  match opts.serviceEndpoints with
  | [] => .error (.invalidDid "did:peer:2 requires at least one service endpoint")
  | endpoint :: _ =>
    if h : publicKey.length = 32 then
      match host.toMontgomery ⟨publicKey, h⟩ with
      | none => .error (.internalError "Failed to decompress Ed25519 key")
      | some agreementKey =>
        .ok (composePeer2 host ⟨publicKey, h⟩ agreementKey
          (serviceJson endpoint opts.routingKeys opts.accept))
    else .error (.internalError "Invalid Ed25519 key: TryFromSliceError(())")

/-! ## Parsing -/

/-- `get(short)`, or else `get(long)`, as a string. -/
def stringField (service : Json) (short long : String) : Option String :=
  ((service.get short).bind Json.asStr).orElse fun _ => (service.get long).bind Json.asStr

/-- The strings of the routing keys; what is no string is left out. -/
def routingKeysOf (service : Json) : List String :=
  ((((service.get "r").orElse fun _ => service.get "routingKeys").bind Json.asArray).map
    fun items => items.filterMap Json.asStr).getD []

/-- The part of a key. -/
def withKey (tag : Char) (rest : String) (out : Peer2Service) : Peer2Service :=
  match multibaseToBase58Verkey rest with
  | none => out
  | some b58 =>
    let out := if tag = 'V' ∧ out.authenticationKey = none then
        { out with authenticationKey := some b58 }
      else if tag = 'E' ∧ out.keyAgreementKey = none then
        { out with keyAgreementKey := some b58 }
      else out
    { out with recipientKeys := out.recipientKeys ++ [b58] }

/-- The part of the service. -/
def withService (host : Peer2Host) (rest : String) (out : Peer2Service) : Peer2Service :=
  match (Base64.decode rest).bind host.fromSlice with
  | none => out
  | some service =>
    { out with
      serviceEndpoint := stringField service "s" "serviceEndpoint"
      serviceType := stringField service "t" "type"
      routingKeys := routingKeysOf service }

/-- `s.len()`. -/
def byteLength (s : List Char) : ℕ := (s.map Char.utf8Size).sum

/-- One part; `split_at(1)` panics within the bytes of a character, which is `none`. -/
def parsePart (host : Peer2Host) (out : Peer2Service) (part : List Char) : Option Peer2Service :=
  if byteLength part < 2 then some out
  else
    match part with
    | [] => some out
    | tag :: rest =>
      if tag.utf8Size ≠ 1 then none
      else if tag = 'V' ∨ tag = 'E' then some (withKey tag (String.ofList rest) out)
      else if tag = 'S' then some (withService host (String.ofList rest) out)
      else some out

def Peer2Service.default : Peer2Service := ⟨none, none, [], none, none, []⟩

/-- `parse_peer2`; the outer `none` is a panic. -/
def parsePeer2 (host : Peer2Host) (did : String) : Option (Option Peer2Service) :=
  if ¬ peer2Scheme.toList <+: did.toList ∨ byteLength did.toList < 11 then some none
  else (((did.toList.drop 10).splitOn '.').foldlM (parsePart host) .default).map some

/-! ## Panics -/

variable {host : Peer2Host}

variable (host) in
theorem isSome_parsePart (out : Peer2Service) (part : List Char) :
    (parsePart host out part).isSome ↔ ∀ c ∈ part.head?, c.utf8Size = 1 := by
  unfold parsePart
  cases part with
  | nil => simp [byteLength]
  | cons tag rest =>
    by_cases htag : tag.utf8Size = 1
    · simp only [htag, ne_eq, not_true_eq_false, if_false]
      split
      · simp [htag]
      · split
        · simp [htag]
        · split <;> simp [htag]
    · have hlength : ¬ byteLength (tag :: rest) < 2 := by
        have := Char.utf8Size_pos tag
        simp only [byteLength, map_cons, sum_cons]
        omega
      simp [hlength, htag]

theorem isSome_foldlM_parsePart (out : Peer2Service) (parts : List (List Char)) :
    (parts.foldlM (parsePart host) out).isSome ↔
      ∀ part ∈ parts, ∀ c ∈ part.head?, c.utf8Size = 1 := by
  induction parts generalizing out with
  | nil => simp
  | cons part parts ih =>
    rw [foldlM_cons, forall_mem_cons, ← isSome_parsePart host out part]
    cases parsePart host out part with
    | none => simp
    | some out' => simpa using ih out'

/-- **When it does not panic**: every part of a did:peer:2 begins with an ASCII character. -/
theorem isSome_parsePeer2_iff (did : String) :
    (parsePeer2 host did).isSome ↔ (peer2Scheme.toList <+: did.toList →
      ∀ part ∈ (did.toList.drop 10).splitOn '.', ∀ c ∈ part.head?, c.utf8Size = 1) := by
  unfold parsePeer2
  by_cases hscheme : peer2Scheme.toList <+: did.toList
  · obtain ⟨rest, hrest⟩ := hscheme
    have hlength : byteLength did.toList = 10 + byteLength rest := by
      rw [← hrest, byteLength, map_append, sum_append]
      rfl
    have hdrop : did.toList.drop 10 = rest := by
      rw [← hrest, show (10 : ℕ) = peer2Scheme.toList.length from rfl, drop_left]
    simp only [← hrest, prefix_append, not_true_eq_false, false_or, true_imp_iff]
    rw [hrest, hlength, hdrop]
    split
    · have hnil : rest = [] := by
        cases rest with
        | nil => rfl
        | cons c rest =>
          have := Char.utf8Size_pos c
          simp only [byteLength, map_cons, sum_cons] at *
          omega
      rw [hnil]
      simp
    · rw [Option.isSome_map, isSome_foldlM_parsePart]
  · simp [hscheme]

/-! ## Created identifiers -/

theorem asStr_strings (l : List String) : (l.map Json.string).filterMap Json.asStr = l := by
  induction l with
  | nil => rfl
  | cons a l ih => exact congrArg (a :: ·) ih

theorem dot_notMem_multibaseEncode (bytes : List UInt8) : '.' ∉ (multibaseEncode bytes).toList := by
  unfold multibaseEncode
  rw [String.toList_append, mem_append]
  rintro (h | h)
  · revert h
    decide
  · exact absurd (mem_alphabet_of_mem_encode h) (by decide)

theorem multibaseToBase58Verkey_encode (a b : UInt8) (key : KeyBytes) :
    multibaseToBase58Verkey (multibaseEncode (a :: b :: key.1)) =
      some (encode key.1) := by
  have hstrip : stripPrefix "z" (multibaseEncode (a :: b :: key.1)) =
      some (encode (a :: b :: key.1)) := by
    unfold stripPrefix multibaseEncode
    rw [String.toList_append, if_pos (prefix_append _ _), drop_left, String.ofList_toList]
  unfold multibaseToBase58Verkey
  rw [hstrip]
  dsimp only
  rw [decode_encode]
  have hlength : ¬ (a :: b :: key.1).length ≤ 2 := by
    rw [length_cons, length_cons, key.2]
    decide
  simp only [hlength, if_false]
  rfl

theorem splitOn_composePeer2 (key agreementKey : KeyBytes) (service : Json) :
    ((composePeer2 host key agreementKey service).toList.drop 10).splitOn '.' =
      [[], 'V' :: (multibaseEncode (0xed :: 0x01 :: key.1)).toList,
        'E' :: (multibaseEncode (0xec :: 0x01 :: agreementKey.1)).toList,
        'S' :: (Base64.encode (asBytes (host.printJson service))).toList] := by
  have htext : (composePeer2 host key agreementKey service).toList.drop 10 =
      ['.'].intercalate [[], 'V' :: (multibaseEncode (0xed :: 0x01 :: key.1)).toList,
        'E' :: (multibaseEncode (0xec :: 0x01 :: agreementKey.1)).toList,
        'S' :: (Base64.encode (asBytes (host.printJson service))).toList] := by
    unfold composePeer2
    simp only [String.toList_append, append_assoc]
    rw [show (10 : ℕ) = peer2Scheme.toList.length from rfl, drop_left]
    simp [intercalate]
  rw [htext]
  refine splitOn_intercalate _ (fun l hl => ?_) (cons_ne_nil _ _)
  simp only [mem_cons, not_mem_nil, or_false] at hl
  rcases hl with rfl | rfl | rfl | rfl
  · exact not_mem_nil
  all_goals
    rw [mem_cons, not_or]
    refine ⟨by decide, ?_⟩
  · exact dot_notMem_multibaseEncode _
  · exact dot_notMem_multibaseEncode _
  · exact Base64.dot_notMem_encode _

theorem parsePart_cons {tag : Char} {text : String} (out : Peer2Service) (htag : tag.utf8Size = 1)
    (htext : text ≠ "") :
    parsePart host out (tag :: text.toList) =
      some (if tag = 'V' ∨ tag = 'E' then withKey tag text out
        else if tag = 'S' then withService host text out else out) := by
  have hlength : ¬ byteLength (tag :: text.toList) < 2 := by
    cases h : text.toList with
    | nil => exact absurd (String.toList_eq_nil_iff.1 h) htext
    | cons c rest =>
      have := Char.utf8Size_pos c
      simp only [byteLength, map_cons, sum_cons, htag]
      omega
  unfold parsePart
  rw [if_neg hlength]
  simp only [htag, ne_eq, not_true_eq_false, if_false, String.ofList_toList]
  split
  · rfl
  · split <;> rfl

theorem multibaseEncode_ne (bytes : List UInt8) : multibaseEncode bytes ≠ "" := by
  intro h
  have := congrArg String.toList h
  simp [multibaseEncode] at this

/-- What the code relies on for a service: `serde_json` reads back the text that it writes. -/
structure Peer2Host.Reads (host : Peer2Host) (service : Json) : Prop where
  text_ne : asBytes (host.printJson service) ≠ []
  fromSlice_print : host.fromSlice (asBytes (host.printJson service)) = some service

theorem encode_ne {bytes : List UInt8} (h : bytes ≠ []) : Base64.encode bytes ≠ "" := by
  intro hempty
  have hdecode := Base64.decode_encode bytes
  rw [hempty] at hdecode
  exact h (Option.some.inj hdecode).symm

/-- **The parser inverts the composition.** -/
theorem parsePeer2_composePeer2 {key agreementKey : KeyBytes} {service : Json}
    (h : host.Reads service) :
    parsePeer2 host (composePeer2 host key agreementKey service) = some (some {
      serviceEndpoint := stringField service "s" "serviceEndpoint"
      serviceType := stringField service "t" "type"
      routingKeys := routingKeysOf service
      authenticationKey := some (encode key.1)
      keyAgreementKey := some (encode agreementKey.1)
      recipientKeys := [encode key.1, encode agreementKey.1] }) := by
  have htext : (composePeer2 host key agreementKey service).toList = peer2Scheme.toList ++
      '.' :: (composePeer2 host key agreementKey service).toList.drop 11 := by
    simp only [composePeer2, String.toList_append, append_assoc]
    rfl
  have hscheme : peer2Scheme.toList <+: (composePeer2 host key agreementKey service).toList := by
    rw [htext]
    exact prefix_append _ _
  have hlength : ¬ byteLength (composePeer2 host key agreementKey service).toList < 11 := by
    rw [htext, byteLength, map_append, sum_append, map_cons, sum_cons,
      show (peer2Scheme.toList.map Char.utf8Size).sum = 10 from rfl,
      show ('.').utf8Size = 1 from rfl]
    omega
  unfold parsePeer2
  rw [if_neg (not_or.2 ⟨not_not_intro hscheme, hlength⟩), splitOn_composePeer2]
  have hV := fun out => @parsePart_cons host 'V' _ out rfl
    (multibaseEncode_ne (0xed :: 0x01 :: key.1))
  have hE := fun out => @parsePart_cons host 'E' _ out rfl
    (multibaseEncode_ne (0xec :: 0x01 :: agreementKey.1))
  have hS := fun out => @parsePart_cons host 'S' _ out rfl (encode_ne h.text_ne)
  simp only [foldlM_cons, foldlM_nil, show parsePart host .default [] = some .default
    from rfl, hV, hE, hS, Option.bind_eq_bind, Option.bind_some, Option.pure_def, Option.map_some]
  simp [withKey, withService, multibaseToBase58Verkey_encode, Base64.decode_encode,
    h.fromSlice_print, Peer2Service.default]

def serviceType (accept : List String) : String :=
  if isDidcommV1 accept then "did-communication" else "dm"

theorem fields_serviceJson (endpoint : String) (routingKeys accept : List String) :
    stringField (serviceJson endpoint routingKeys accept) "s" "serviceEndpoint" = some endpoint ∧
    stringField (serviceJson endpoint routingKeys accept) "t" "type" = some (serviceType accept) ∧
    routingKeysOf (serviceJson endpoint routingKeys accept) = routingKeys := by
  unfold serviceJson serviceType
  split
  · exact ⟨rfl, rfl, asStr_strings routingKeys⟩
  · exact ⟨rfl, rfl, asStr_strings routingKeys⟩

/-- **The parser is total** but for parts that begin with another character than an ASCII one, and
it inverts the creation. -/
theorem parsePeer2_spec :
    (∀ text, (parsePeer2 host text).isSome ↔ (peer2Scheme.toList <+: text.toList →
      ∀ part ∈ (text.toList.drop 10).splitOn '.', ∀ c ∈ part.head?, c.utf8Size = 1)) ∧
    ∀ publicKey opts did, (∀ endpoint ∈ opts.serviceEndpoints.head?,
        host.Reads (serviceJson endpoint opts.routingKeys opts.accept)) →
      createPeerDid host publicKey opts = .ok did →
      ∃ h agreementKey, host.toMontgomery ⟨publicKey, h⟩ = some agreementKey ∧
        parsePeer2 host did = some (some {
          serviceEndpoint := opts.serviceEndpoints.head?
          serviceType := some (serviceType opts.accept)
          routingKeys := opts.routingKeys
          authenticationKey := some (encode publicKey)
          keyAgreementKey := some (encode agreementKey.1)
          recipientKeys := [encode publicKey, encode agreementKey.1] }) := by
  refine ⟨isSome_parsePeer2_iff, fun publicKey opts did hreads hcreate => ?_⟩
  unfold createPeerDid at hcreate
  cases hendpoints : opts.serviceEndpoints with
  | nil =>
    rw [hendpoints] at hcreate
    cases hcreate
  | cons endpoint rest =>
    rw [hendpoints] at hcreate hreads
    dsimp only at hcreate
    split at hcreate
    · next hlength =>
      split at hcreate
      · cases hcreate
      · next agreementKey hkey =>
        cases hcreate
        refine ⟨hlength, agreementKey, hkey, ?_⟩
        rw [parsePeer2_composePeer2 (hreads endpoint rfl), (fields_serviceJson ..).1,
          (fields_serviceJson ..).2.1, (fields_serviceJson ..).2.2]
        rfl
    · cases hcreate

namespace Sample

theorem length_zeros : (replicate 32 (0 : UInt8)).length = 32 := length_replicate

def zeros : KeyBytes := ⟨replicate 32 0, length_zeros⟩

/-- The Montgomery form of the point whose bytes are zero. -/
def one : KeyBytes := ⟨1 :: replicate 31 0, rfl⟩

/-- An endpoint and a routing key. -/
def routed : CreateDidOptions where
  serviceEndpoints := ["wss://m"]
  options key := if key = "routing_keys" then some (.array [.string "did:key:r"]) else none

/-- One point, and one text, which is read back. -/
def peer2Host : Peer2Host where
  toMontgomery key := if key = zeros then some one else none
  printJson _ :=
    "\x7b\"a\":[\"didcomm/v2\"],\"r\":[\"did:key:r\"],\"s\":\"wss://m\",\"t\":\"dm\"\x7d"
  fromSlice _ := some (serviceJson "wss://m" ["did:key:r"] ["didcomm/v2"])

end Sample

open Sample

theorem parsePeer2_routed : ∃ did, createPeerDid peer2Host zeros.1 routed = .ok did ∧
    parsePeer2 peer2Host did = some (some ⟨some "wss://m", some "dm", ["did:key:r"],
      some (encode zeros.1), some (encode one.1), [encode zeros.1, encode one.1]⟩) := by
  refine ⟨_, rfl, ?_⟩
  have hreads : ∀ endpoint ∈ routed.serviceEndpoints.head?,
      peer2Host.Reads (serviceJson endpoint routed.routingKeys routed.accept) := by
    rintro endpoint ⟨⟩
    exact ⟨by decide, rfl⟩
  obtain ⟨_, _, hkey, hparse⟩ := (@parsePeer2_spec peer2Host).2 zeros.1 routed _ hreads rfl
  cases hkey
  exact hparse

/-- A part that begins with a character of two bytes. -/
theorem parsePeer2_panics : parsePeer2 peer2Host "did:peer:2.é" = none := by decide

end Idiom.Did
