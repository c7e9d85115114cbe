import Idiom.Did.PeerComplete

/-!
# The shortcut and the resolver of did:peer:4

`parse_peer4` reads the embedded document of a long form as it is; `decode_peer4_long` checks the
hash, completes the document and reads it as a DID document.
-/

namespace Idiom.Did

open Ajna (Json asBytes)
open Ajna.JsonReader List VerificationRelationship Option
open OrderedMap (get)

/-! ## Long forms -/

structure IsLongForm (did hash encoded : String) : Prop where
  eq : did = peer4Scheme ++ hash ++ ":" ++ encoded
  hash_ne : hash.toList ≠ []
  encoded_ne : encoded.toList ≠ []
  notMem : ':' ∉ hash.toList

namespace IsLongForm

variable {did hash encoded : String}

theorem toList_eq (h : IsLongForm did hash encoded) :
    did.toList = peer4Scheme.toList ++ (hash.toList ++ ':' :: encoded.toList) := by
  rw [h.eq, String.toList_append, String.toList_append, String.toList_append]
  simp only [append_assoc]
  rfl

theorem short_eq (h : IsLongForm did hash encoded) :
    String.ofList (did.toList.take (did.length - encoded.length - 1)) = peer4Scheme ++ hash := by
  have hlength : did.length - encoded.length - 1 = (peer4Scheme.toList ++ hash.toList).length := by
    rw [← String.length_toList, ← String.length_toList, h.toList_eq]
    simp only [length_append, length_cons]
    omega
  rw [hlength, h.toList_eq, ← append_assoc, take_left, ← String.toList_append, String.ofList_toList]

theorem split_eq (h : IsLongForm did hash encoded) : splitPeer4Long did = some encoded := by
  have hcolon : ∀ c ∈ hash.toList, decide (c ≠ ':') = true := by
    intro c hc
    exact decide_eq_true fun heq => h.notMem (heq ▸ hc)
  have htake : (hash.toList ++ ':' :: encoded.toList).takeWhile (· ≠ ':') = hash.toList := by
    rw [takeWhile_append_of_pos hcolon]
    simp
  have hdrop : (hash.toList ++ ':' :: encoded.toList).dropWhile (· ≠ ':') =
      ':' :: encoded.toList := by
    rw [dropWhile_append_of_pos hcolon]
    simp
  unfold splitPeer4Long
  rw [if_pos (h.toList_eq ▸ prefix_append _ _), h.toList_eq,
    show peer4Scheme.length = peer4Scheme.toList.length from rfl, drop_left]
  simp only [hdrop, htake]
  rw [if_pos ⟨h.hash_ne, h.encoded_ne⟩, String.ofList_toList]

end IsLongForm

theorem exists_longForm {did encoded : String} (h : splitPeer4Long did = some encoded) :
    ∃ hash, IsLongForm did hash encoded := by
  unfold splitPeer4Long at h
  split at h
  · next hscheme =>
    obtain ⟨body, hbody⟩ := hscheme
    rw [← hbody, show peer4Scheme.length = peer4Scheme.toList.length from rfl, drop_left] at h
    have hparts := takeWhile_append_dropWhile (p := fun c => decide (c ≠ ':')) (l := body)
    dsimp only at h
    split at h
    · cases h
    · next c rest hdrop =>
      split at h
      · next hne =>
        cases h
        have hc : c = ':' := by
          by_contra hne
          have hhead : (body.dropWhile (· ≠ ':')).head? = some c := by rw [hdrop, head?_cons]
          have hstop := head?_dropWhile_not (fun c => decide (c ≠ ':')) body
          rw [hhead] at hstop
          simp [hne] at hstop
        refine ⟨String.ofList (body.takeWhile (· ≠ ':')), ?_, ?_, ?_, ?_⟩
        · rw [hdrop, hc] at hparts
          rw [← String.toList_inj, ← hbody]
          simp only [String.toList_append, String.toList_ofList, append_assoc]
          exact congrArg (peer4Scheme.toList ++ ·) hparts.symm
        · rw [String.toList_ofList]
          exact hne.1
        · rw [String.toList_ofList]
          exact hne.2
        · rw [String.toList_ofList]
          intro hmem
          simpa using mem_takeWhile_imp hmem
      · cases h
  · cases h

theorem eq_ok_of_toOption {ε α : Type} {x : Except ε α} {a : α} (h : x.toOption = some a) :
    x = .ok a := by
  cases x with
  | error e => cases h
  | ok b => exact congrArg Except.ok (some.inj h)

section

variable (host : Host) {did hash encoded : String} {doc : Json} {fields : Fields}

/-- A long form with its document: behind the JSON multicodec stands the text of the document. -/
structure Embeds (did hash encoded : String) (doc : Json) : Prop where
  longForm : IsLongForm did hash encoded
  carries : ∃ data rest, host.multibaseDecode encoded = .ok data ∧
    readUvarint data = some (0x0200, rest) ∧ host.fromSlice rest = .ok doc

variable {host}

theorem Embeds.decode_eq (h : Embeds host did hash encoded (.object fields)) :
    decodePeer4Long host did encoded =
      if hash ≠ hashEncodedDocument host encoded then
        .error (.resolutionFailed ("did:peer:4 self-certifying hash mismatch: " ++ did))
      else
        match DidDocument.fromValue (.object (complete did (peer4Scheme ++ hash) fields)) with
        | some document => .ok document
        | none =>
          .error (.internalError ("did:peer:4 -> DidDocument: " ++
            host.showFromValue (.object (complete did (peer4Scheme ++ hash) fields)))) := by
  obtain ⟨data, rest, hdata, hcodec, hdoc⟩ := h.carries
  have hgot : String.ofList ((peer4Scheme ++ hash).toList.drop peer4Scheme.length) = hash := by
    rw [String.toList_append, show peer4Scheme.length = peer4Scheme.toList.length from rfl,
      drop_left, String.ofList_toList]
  have hscheme : peer4Scheme.toList <+: (peer4Scheme ++ hash).toList := by
    rw [String.toList_append]
    exact prefix_append _ _
  unfold decodePeer4Long
  simp only [h.longForm.short_eq, hgot, hdata, hcodec, hdoc]
  split
  · rfl
  · rfl

theorem Embeds.decode_eq_ok_iff (h : Embeds host did hash encoded (.object fields))
    {d : DidDocument} :
    decodePeer4Long host did encoded = .ok d ↔ hash = hashEncodedDocument host encoded ∧
      DidDocument.fromValue (.object (complete did (peer4Scheme ++ hash) fields)) = some d := by
  rw [h.decode_eq]
  split
  · next hne => simp [hne]
  · next heq =>
    rw [and_iff_right (not_not.1 heq)]
    cases DidDocument.fromValue (.object (complete did (peer4Scheme ++ hash) fields)) with
    | none | some document => simp

theorem parsePeer4_eq_some_iff {svc : Peer2Service} :
    parsePeer4 host did = some svc ↔ ∃ hash encoded doc service,
      Embeds host did hash encoded doc ∧ firstService doc = some service ∧
        svc = serviceOf doc service := by
  unfold parsePeer4
  constructor
  · intro h
    simp only [bind_eq_bind, bind_eq_some_iff] at h
    obtain ⟨encoded, hsplit, data, hdata, ⟨codec, rest⟩, hcodec, h⟩ := h
    obtain ⟨hash, hlong⟩ := exists_longForm hsplit
    split at h
    · cases h
    · next hjson =>
      simp only [bind_eq_some_iff] at h
      obtain ⟨doc, hdoc, service, hservice, hsvc⟩ := h
      rw [not_not] at hjson
      subst hjson
      refine ⟨hash, encoded, doc, service, ⟨hlong, data, rest, ?_, hcodec, ?_⟩, hservice,
        (some.inj hsvc).symm⟩
      · exact eq_ok_of_toOption hdata
      · exact eq_ok_of_toOption hdoc
  · rintro ⟨hash, encoded, doc, service, ⟨hlong, data, rest, hdata, hcodec, hdoc⟩, hservice, rfl⟩
    rw [hlong.split_eq]
    simp [hdata, hcodec, hdoc, hservice, Except.toOption]

end

/-! ## Agreement -/

section

variable (host : Host)

/-- **What the shortcut finds, the resolver has**: the identifier resolves, and the key of a `#id`
reference is that of the resolved method with exactly this id. -/
def Agrees (did : String) : Prop :=
  ∀ svc, parsePeer4 host did = some svc →
    ∃ encoded d, splitPeer4Long did = some encoded ∧ decodePeer4Long host did encoded = .ok d ∧
      ∀ hash doc service id key, Embeds host did hash encoded doc →
        firstService doc = some service → recipientKey service = some id →
        "#".toList <+: id.toList → svc.authenticationKey = some key →
        ∃ method, d.verificationMethod.find? (fun method => method.id = id) = some method ∧
          method.publicKeyBase58 = some key

/-- A reference finds the key of the method with exactly this id. -/
def KeysAgree (fields : Fields) : Prop :=
  ∀ service id key, firstService (.object fields) = some service →
    recipientKey service = some id → "#".toList <+: id.toList →
    keyByRef (.object fields) id = some key → exactKey fields id = some key

def Consistent (did : String) : Prop :=
  ∀ hash encoded fields, Embeds host did hash encoded (.object fields) →
    (firstService (.object fields)).isSome →
    hash = hashEncodedDocument host encoded ∧ resolves fields ∧ KeysAgree fields

variable {host} {did : String}

theorem exists_fields {doc service : Json} (h : firstService doc = some service) :
    ∃ fields, doc = .object fields := by
  cases doc with
  | object fields => exact ⟨fields, rfl⟩
  | null | bool b | number n | string s | array items => cases h

theorem Embeds.unique {hash hash' encoded encoded' : String} {doc doc' : Json}
    (h : Embeds host did hash encoded doc) (h' : Embeds host did hash' encoded' doc') :
    hash = hash' ∧ encoded = encoded' ∧ doc = doc' := by
  have hencoded : encoded = encoded' :=
    some.inj (h.longForm.split_eq.symm.trans h'.longForm.split_eq)
  subst hencoded
  refine ⟨?_, rfl, ?_⟩
  · have hlist := h.longForm.toList_eq.symm.trans h'.longForm.toList_eq
    exact String.toList_inj.1 (append_cancel_right (append_cancel_left hlist))
  · obtain ⟨data, rest, hdata, hcodec, hdoc⟩ := h.carries
    obtain ⟨data', rest', hdata', hcodec', hdoc'⟩ := h'.carries
    rw [hdata] at hdata'
    cases hdata'
    rw [hcodec] at hcodec'
    cases hcodec'
    rw [hdoc] at hdoc'
    exact Except.ok.inj hdoc'

theorem authenticationKey_serviceOf {doc service : Json} {id : String}
    (hid : recipientKey service = some id) (href : "#".toList <+: id.toList) :
    (serviceOf doc service).authenticationKey = keyByRef doc id := by
  unfold serviceOf
  rw [hid]
  exact if_pos href

/-- **When the shortcut agrees with the resolver.** -/
theorem agrees_iff_consistent (did : String) : Agrees host did ↔ Consistent host did := by
  constructor
  · intro hagrees hash encoded fields hembeds hservice
    obtain ⟨service, hservice⟩ := isSome_iff_exists.1 hservice
    obtain ⟨encoded', d, hsplit, hdecode, hkeys⟩ := hagrees (serviceOf (.object fields) service)
      (parsePeer4_eq_some_iff.2 ⟨hash, encoded, _, service, hembeds, hservice, rfl⟩)
    rw [hembeds.longForm.split_eq] at hsplit
    cases hsplit
    obtain ⟨hhash, hd⟩ := hembeds.decode_eq_ok_iff.1 hdecode
    refine ⟨hhash, (isSome_fromValue did _).1 (by rw [hd]; rfl), ?_⟩
    intro service' id key hservice' hid href hkey
    rw [hservice] at hservice'
    cases hservice'
    rw [← exactKey_eq_some_iff hd]
    exact hkeys hash _ service id key hembeds hservice hid href
      ((authenticationKey_serviceOf hid href).trans hkey)
  · intro hconsistent svc hparse
    obtain ⟨hash, encoded, doc, service, hembeds, hservice, rfl⟩ := parsePeer4_eq_some_iff.1 hparse
    obtain ⟨fields, rfl⟩ := exists_fields hservice
    obtain ⟨hhash, hresolves, hkeys⟩ := hconsistent hash encoded fields hembeds
      (by rw [hservice]; rfl)
    obtain ⟨d, hd⟩ := isSome_iff_exists.1 ((isSome_fromValue did (peer4Scheme ++ hash)).2 hresolves)
    refine ⟨encoded, d, hembeds.longForm.split_eq, hembeds.decode_eq_ok_iff.2 ⟨hhash, hd⟩, ?_⟩
    intro hash' doc' service' id key hembeds' hservice' hid href hkey
    obtain ⟨-, -, rfl⟩ := hembeds.unique hembeds'
    rw [hservice] at hservice'
    cases hservice'
    rw [exactKey_eq_some_iff hd]
    rw [authenticationKey_serviceOf hid href] at hkey
    exact hkeys service id key hservice hid href hkey

end

/-! ## Minted identifiers -/

/-- The document is the embedded one under its long form: missing controllers are filled in, and
behind its methods stand methods that it embeds. -/
structure Describes (did short : String) (fields : Fields) (d : DidDocument) : Prop where
  id : d.id = did
  alsoKnownAs : d.alsoKnownAs = [short]
  context : readOptional some (get fields "@context") = some d.context
  controller : readOptional some (get fields "controller") = some d.controller
  service : readDefault Service.fromValue (get fields "service") = some d.service
  relationship : ∀ entry ∈ [("authentication", d.authentication), ("keyAgreement", d.keyAgreement),
      ("assertionMethod", d.assertionMethod), ("capabilityDelegation", d.capabilityDelegation),
      ("capabilityInvocation", d.capabilityInvocation)],
    readDefault fromValue ((get fields entry.1).map (mapItems (withController did))) = some entry.2
  methods : ∃ own embedded, d.verificationMethod = own ++ embedded ∧
    readDefault VerificationMethod.fromValue
      ((get fields "verificationMethod").map (mapItems (withController did))) = some own ∧
    ∀ method ∈ embedded, ∃ relationship ∈ [d.authentication, d.keyAgreement, d.assertionMethod,
      d.capabilityDelegation, d.capabilityInvocation], .embedded method ∈ relationship

section

variable (host : Host)

/-- The identifier minted for a document passes the checks: only the document itself may be no DID
document. -/
def PassesChecks (documentJson : List UInt8) : Prop :=
  splitPeer4Long (encodeDidPeer4 host documentJson).2.1 =
      some (encodeDidPeer4 host documentJson).2.2 ∧
    ∀ fields message, host.fromSlice documentJson = .ok (.object fields) →
      decodePeer4Long host (encodeDidPeer4 host documentJson).2.1
        (encodeDidPeer4 host documentJson).2.2 ≠ .error (.resolutionFailed message)

/-- The identifier minted for a document yields this document. -/
def Mints (documentJson : List UInt8) : Prop :=
  ∀ fields, host.fromSlice documentJson = .ok (.object fields) →
    ∃ d, decodePeer4Long host (encodeDidPeer4 host documentJson).2.1
        (encodeDidPeer4 host documentJson).2.2 = .ok d ∧
      Describes (encodeDidPeer4 host documentJson).2.1 (encodeDidPeer4 host documentJson).1 fields d

/-- The bytes are those of a DID document, whose controllers may be missing. -/
def IsDidDocument (documentJson : List UInt8) : Prop :=
  ∀ fields, host.fromSlice documentJson = .ok (.object fields) →
    isVec isMethod (get fields "verificationMethod") ∧ areRelationships fields ∧
      isVec isService (get fields "service")

variable {host} {documentJson : List UInt8} {fields : Fields}

theorem isLongForm_minted (documentJson : List UInt8) :
    IsLongForm (encodeDidPeer4 host documentJson).2.1
      (hashEncodedDocument host (encodeDidPeer4 host documentJson).2.2)
      (encodeDidPeer4 host documentJson).2.2 where
  eq := rfl
  hash_ne := by
    unfold hashEncodedDocument multibaseEncode
    rw [String.toList_append]
    exact cons_ne_nil _ _
  encoded_ne := by
    unfold encodeDidPeer4 multibaseEncode
    rw [String.toList_append]
    exact cons_ne_nil _ _
  notMem := by
    unfold hashEncodedDocument multibaseEncode
    rw [String.toList_append]
    intro hmem
    rcases mem_append.1 hmem with hbase | hdigit
    · exact absurd hbase (by decide)
    · exact absurd (Base58.mem_alphabet_of_mem_encode hdigit) (by decide)

theorem embeds_minted {doc : Json} (h : host.fromSlice documentJson = .ok doc) :
    Embeds host (encodeDidPeer4 host documentJson).2.1
      (hashEncodedDocument host (encodeDidPeer4 host documentJson).2.2)
      (encodeDidPeer4 host documentJson).2.2 doc :=
  ⟨isLongForm_minted documentJson, _, documentJson, host.decode_encode _, rfl, h⟩

theorem passesChecks (documentJson : List UInt8) : PassesChecks host documentJson := by
  refine ⟨(isLongForm_minted documentJson).split_eq, fun fields message h heq => ?_⟩
  rw [(embeds_minted h).decode_eq, if_neg (not_not.2 rfl)] at heq
  split at heq
  · cases heq
  · cases heq

theorem describes_of_fromValue {did short : String} {d : DidDocument}
    (hfield : isVec isMethod (get fields "verificationMethod"))
    (h : DidDocument.fromValue (.object (complete did short fields)) = some d) :
    Describes did short fields d := by
  obtain ⟨hid, -, hauth, hassert, hagree, hinvoke, hdelegate, hsvc, hcontext, hknown,
    hcontroller⟩ :=
    DidDocument.read_eq_some_iff.1 h
  rw [get_complete_id] at hid
  rw [get_complete_alsoKnownAs] at hknown
  rw [get_complete_other did short fields (by decide)] at hsvc hcontext hcontroller
  rw [get_complete_relationship did short fields (by decide)] at hauth hassert hagree
  rw [get_complete_relationship did short fields (by decide)] at hinvoke hdelegate
  have hrelationship : ∀ entry ∈ [("authentication", d.authentication),
      ("keyAgreement", d.keyAgreement), ("assertionMethod", d.assertionMethod),
      ("capabilityDelegation", d.capabilityDelegation),
      ("capabilityInvocation", d.capabilityInvocation)],
      readDefault fromValue
        ((get fields entry.1).map (mapItems (withController did))) = some entry.2 := by
    simp only [forall_mem_cons, not_mem_nil, false_imp_iff, implies_true, and_true]
    exact ⟨hauth, hagree, hassert, hdelegate, hinvoke⟩
  refine ⟨(some.inj hid).symm, (some.inj hknown).symm, hcontext, hcontroller, hsvc,
    hrelationship, ?_⟩
  obtain ⟨embedded, heq, hembedded⟩ := foldl_hoistItem_eq
    (((itemsOf fields "verificationMethod").map (withController did)).filterMap idOf)
    ((itemsOf fields "verificationMethod").map (withController did))
    ((relationships.flatMap (itemsOf fields)).map (withController did))
  have hmapM := mapM_hoist h
  rw [hoist_filled, heq] at hmapM
  obtain ⟨own, others, hown, hothers, hmethods⟩ := mapM_append_eq_some.1 hmapM
  refine ⟨own, others, hmethods, ?_, fun method hmethod => ?_⟩
  · rw [← hown]
    unfold itemsOf
    cases hget : get fields "verificationMethod" with
    | none => rfl
    | some value =>
      rw [hget] at hfield
      cases value with
      | array items => rfl
      | null | bool b | number n | string s | object m => cases hfield
  · obtain ⟨item, hitem, hread⟩ := (mem_mapM_iff hothers method).1 hmethod
    obtain ⟨hitems, hid⟩ := hembedded item hitem
    obtain ⟨raw, hraw, rfl⟩ := mem_map.1 hitems
    obtain ⟨name, hname, hmem⟩ := mem_flatMap.1 hraw
    -- an item with an id is read as an embedded method
    have hvariant : fromValue (withController did raw) = some (.embedded method) := by
      unfold fromValue
      rw [hread]
      cases hcontrolled : withController did raw with
      | string s =>
        rw [hcontrolled] at hid
        cases hid
      | null | bool b | number n | array items | object m => rfl
    have hlists : ∀ l, readDefault fromValue
        ((get fields name).map (mapItems (withController did))) = some l →
        .embedded method ∈ l := by
      intro l hl
      unfold itemsOf at hmem
      cases hget : get fields name with
      | none =>
        rw [hget] at hmem
        cases hmem
      | some value =>
        rw [hget] at hmem hl
        cases value with
        | array items =>
          refine (mem_mapM_iff hl _).2 ⟨_, mem_map_of_mem hmem, hvariant⟩
        | null | bool b | number n | string s | object m => cases hmem
    simp only [relationships, mem_cons, not_mem_nil, or_false] at hname
    rcases hname with rfl | rfl | rfl | rfl | rfl
    · exact ⟨_, by simp, hlists _ hauth⟩
    · exact ⟨_, by simp, hlists _ hagree⟩
    · exact ⟨_, by simp, hlists _ hassert⟩
    · exact ⟨_, by simp, hlists _ hdelegate⟩
    · exact ⟨_, by simp, hlists _ hinvoke⟩

theorem isDidDocument_of_describes {did short : String} {d : DidDocument}
    (h : Describes did short fields d) :
    isVec isMethod (get fields "verificationMethod") ∧ areRelationships fields ∧
      isVec isService (get fields "service") := by
  refine ⟨?_, all_eq_true.2 fun name hname => ?_, ?_⟩
  · obtain ⟨own, -, -, hown, -⟩ := h.methods
    have hread := @isSome_readDefault _ VerificationMethod.fromValue
      ((get fields "verificationMethod").map (mapItems (withController did)))
    rw [hown, isVec_map] at hread
    simp only [isSome_method] at hread
    exact hread.symm
  · obtain ⟨l, hl⟩ : ∃ l, readDefault fromValue
        ((get fields name).map (mapItems (withController did))) = some l := by
      have hentries := h.relationship
      simp only [forall_mem_cons, not_mem_nil, false_imp_iff, implies_true, and_true] at hentries
      obtain ⟨hauth, hagree, hassert, hdelegate, hinvoke⟩ := hentries
      simp only [relationships, mem_cons, not_mem_nil, or_false] at hname
      rcases hname with rfl | rfl | rfl | rfl | rfl
      · exact ⟨_, hauth⟩
      · exact ⟨_, hagree⟩
      · exact ⟨_, hassert⟩
      · exact ⟨_, hdelegate⟩
      · exact ⟨_, hinvoke⟩
    have hread := @isSome_readDefault _ fromValue
      ((get fields name).map (mapItems (withController did)))
    rw [hl, isVec_map] at hread
    simp only [isSome_relationship] at hread
    exact hread.symm
  · have hread := @isSome_readDefault _ Service.fromValue (get fields "service")
    rw [h.service] at hread
    simp only [isSome_service] at hread
    exact hread.symm

theorem mints_iff (documentJson : List UInt8) :
    Mints host documentJson ↔ IsDidDocument host documentJson := by
  refine forall₂_congr fun fields h => ?_
  constructor
  · rintro ⟨d, -, hd⟩
    exact isDidDocument_of_describes hd
  · rintro ⟨hmethods, hrelationships, hservice⟩
    have hresolves : resolves fields := by
      unfold resolves isMethodField
      rw [hmethods, hrelationships, hservice]
      rfl
    obtain ⟨d, hd⟩ := isSome_iff_exists.1 ((isSome_fromValue
      (encodeDidPeer4 host documentJson).2.1 (encodeDidPeer4 host documentJson).1).2 hresolves)
    exact ⟨d, (embeds_minted h).decode_eq_ok_iff.2 ⟨rfl, hd⟩, describes_of_fromValue hmethods hd⟩

end

/-- **The shortcut and the resolver**: they agree on an identifier exactly if it is consistent, and
an identifier that is minted passes the checks and yields its document exactly if this is a DID
document. -/
theorem shortcut_iff (host : Host) :
    (∀ did, Agrees host did ↔ Consistent host did) ∧
      ∀ documentJson, PassesChecks host documentJson ∧
        (Mints host documentJson ↔ IsDidDocument host documentJson) :=
  ⟨agrees_iff_consistent, fun documentJson => ⟨passesChecks documentJson, mints_iff documentJson⟩⟩

/-! ## A forged identifier -/

/-- `multibase::decode` of base58btc. -/
def base58btcDecode (text : String) : Except String (List UInt8) :=
  match text.toList with
  | 'z' :: rest =>
    match Base58.decode (String.ofList rest) with
    | some bytes => .ok bytes
    | none => .error "invalid character"
  | _ => .error "unknown base"

theorem base58btcDecode_encode (bytes : List UInt8) :
    base58btcDecode (multibaseEncode bytes) = .ok bytes := by
  have hlist : (multibaseEncode bytes).toList = 'z' :: (Base58.encode bytes).toList := by
    unfold multibaseEncode
    rw [String.toList_append]
    rfl
  unfold base58btcDecode
  rw [hlist]
  simp only [String.ofList_toList, Base58.decode_encode]

/-- The text of a document with a service. -/
def forgedText : String :=
  "\x7b\"service\":[\x7b\"id\":\"#s\",\"serviceEndpoint\":\"https://evil.example\"," ++
    "\"type\":\"did-communication\"\x7d]\x7d"

def forgedFields : Fields :=
  [("service", .array [.object [("id", .string "#s"),
    ("serviceEndpoint", .string "https://evil.example"), ("type", .string "did-communication")]])]

/-- The library on this text; the digest does not matter. -/
def forgedHost : Host where
  sha256 _ := replicate 32 0
  multibaseDecode := base58btcDecode
  fromSlice bytes :=
    if bytes = asBytes forgedText then .ok (.object forgedFields) else .error "expected value"
  showFromValue _ := ""
  decode_encode := base58btcDecode_encode

/-- Another hash in front of the document. -/
def forgedDid : String :=
  peer4Scheme ++ "1" ++ ":" ++ (encodeDidPeer4 forgedHost (asBytes forgedText)).2.2

theorem embeds_forged :
    Embeds forgedHost forgedDid "1" (encodeDidPeer4 forgedHost (asBytes forgedText)).2.2
      (.object forgedFields) where
  longForm := ⟨rfl, by decide, (isLongForm_minted (asBytes forgedText)).encoded_ne, by decide⟩
  carries := (@embeds_minted forgedHost _ _ (if_pos rfl)).carries

/-- The shortcut takes a service under any hash. -/
theorem shortcut_fails :
    ¬ ∀ host : Host, (∀ did, Agrees host did) ∧
      ∀ documentJson, PassesChecks host documentJson ∧ Mints host documentJson := by
  intro h
  obtain ⟨encoded, d, hsplit, hdecode, -⟩ := (h forgedHost).1 forgedDid _
    (parsePeer4_eq_some_iff.2 ⟨_, _, _, _, embeds_forged, rfl, rfl⟩)
  rw [embeds_forged.longForm.split_eq] at hsplit
  cases hsplit
  have hhash := (embeds_forged.decode_eq_ok_iff.1 hdecode).1
  -- the hash of a document starts with its base
  have hlist := congrArg String.toList hhash
  exact absurd (cons.inj hlist).1 (by decide)

end Idiom.Did
