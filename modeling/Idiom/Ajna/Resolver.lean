import Idiom.Ajna.Integrity

/-!
# The multi-tier resolver

A resolution looks in a cache, then in the local registry, then in the DHT, and caches what
it found under the DID that was asked for. The DHT is not trusted: it holds arbitrary JSON
in one of two formats.
-/

namespace Idiom.Ajna

open Run

/-! ## The W3C format -/

namespace Core

/-- Verification method in a DID document. -/
structure VerificationMethod where
  id : String
  type_ : String
  controller : String
  publicKeyBase58 : Option String
  publicKeyMultibase : Option String

inductive VerificationRelationship where
  | reference (id : String)
  | embedded (method : VerificationMethod)

/-- Service in a DID document; the endpoint can be a string, an array or an object. -/
structure Service where
  id : String
  type_ : String
  serviceEndpoint : Json

/-- The parts of a W3C DID document that the conversion reads. -/
structure DidDocument where
  id : String
  verificationMethod : List VerificationMethod
  authentication : List VerificationRelationship
  assertionMethod : List VerificationRelationship
  keyAgreement : List VerificationRelationship
  service : List Service

/-- A minimal document. -/
def DidDocument.new (id : String) : DidDocument := ⟨id, [], [], [], [], []⟩

/-- A reference that contains the id of the method or that the id ends with. -/
def VerificationRelationship.refersTo (vm : VerificationMethod) : VerificationRelationship → Bool
  | .reference id => decide (vm.id.toList <:+: id.toList) || decide (id.toList <:+ vm.id.toList)
  | .embedded _ => false

/-- The purposes of a method, read off the relationships. -/
def DidDocument.purposesOf (doc : DidDocument) (vm : VerificationMethod) : List String :=
  (if doc.authentication.any (·.refersTo vm) then ["authentication"] else []) ++
  (if doc.keyAgreement.any (·.refersTo vm) then ["keyAgreement"] else []) ++
  (if doc.assertionMethod.any (·.refersTo vm) then ["assertionMethod"] else [])

/-- The endpoint as a string, or its `uri` if it is an object. -/
def Service.endpoint (svc : Service) : String :=
  match svc.serviceEndpoint with
  | .string s => s
  | .object fields =>
    match fields.lookup "uri" with
    | some (.string s) => s
    | _ => ""
  | _ => ""

end Core

/-- What a conversion draws from outside its argument. -/
structure ConvertAmbient where
  /-- The UUID under which the `i`-th method is added. -/
  methodUuid : ℕ → Uuid
  /-- The UUID under which the `i`-th reference of a purpose is added. -/
  refUuid : VerificationPurpose → ℕ → Uuid
  /-- The clock reading the `i`-th service is written at. -/
  serviceTime : ℕ → DateTime
  now : DateTime

namespace AjnaDocument

/-- The converted method. -/
def methodFromDidCore (doc : Core.DidDocument) (vm : Core.VerificationMethod) :
    VerificationMethod where
  id := vm.id
  type_ := vm.type_
  controller := vm.controller
  publicKeyMultibase := (vm.publicKeyMultibase.or vm.publicKeyBase58).getD ""
  purpose := if (doc.purposesOf vm).isEmpty then none else some (doc.purposesOf vm)

/-- The references of a purpose; embedded methods are skipped. -/
def refsFromDidCore (relationships : List Core.VerificationRelationship) (uuid : ℕ → Uuid) :
    Option (ORSet String) :=
  if relationships.isEmpty then none
  else some (relationships.zipIdx.foldl
    (fun set p =>
      match p.1 with
      | .reference id => set.add id (uuid p.2)
      | .embedded _ => set)
    ORSet.new)

/-- The converted services. -/
def servicesFromDidCore (services : List Core.Service) (nodeId : String) (now : ℕ → DateTime) :
    Option (LWWMap String Service) :=
  if services.isEmpty then none
  else some (services.zipIdx.foldl
    (fun m p => m.set p.1.id ⟨p.1.id, p.1.type_, p.1.endpoint, ∅⟩ nodeId (now p.2)) LWWMap.new)

def fromDidCore (doc : Core.DidDocument) (env : ConvertAmbient) : Except AjnaError AjnaDocument :=
  .ok
    { id := doc.id
      verificationMethods := doc.verificationMethod.zipIdx.foldl
        (fun set p => set.add (methodFromDidCore doc p.1) (env.methodUuid p.2)) ORSet.new
      authentication := refsFromDidCore doc.authentication (env.refUuid .authentication)
      assertionMethod := refsFromDidCore doc.assertionMethod (env.refUuid .assertionMethod)
      keyAgreement := refsFromDidCore doc.keyAgreement (env.refUuid .keyAgreement)
      capabilityInvocation := none
      capabilityDelegation := none
      controller := none
      service := servicesFromDidCore doc.service doc.id env.serviceTime
      policy := none
      deactivated := none
      vectorClock := VectorClock.new
      created := env.now
      updated := env.now
      nodeId := doc.id
      blockchainAnchor := none }

end AjnaDocument

/-! ## The service -/

/-- Verification tier of a resolution. -/
inductive VerificationLevel where
  | T0
  | T1
  | T2
  deriving DecidableEq

namespace VerificationLevel

/-- The tiers in order. -/
def rank : VerificationLevel → ℕ
  | T0 => 0
  | T1 => 1
  | T2 => 2

instance : LE VerificationLevel := ⟨fun a b => a.rank ≤ b.rank⟩

instance (a b : VerificationLevel) : Decidable (a ≤ b) := inferInstanceAs (Decidable (_ ≤ _))

/-- Is this level at least the required one? -/
def satisfies (level required : VerificationLevel) : Bool := decide (required ≤ level)

/-- The `Display` text of a level. -/
def text : VerificationLevel → String
  | T0 => "T0 (local)"
  | T1 => "T1 (anchored)"
  | T2 => "T2 (complete proof)"

end VerificationLevel

open VerificationLevel

/-- `TimeDelta::num_hours`: whole hours, rounded towards zero. -/
def numHours (nanoseconds : ℤ) : ℤ := (nanoseconds.tdiv (10 ^ 9)).tdiv 3600

structure CachedResolution where
  document : AjnaDocument
  verificationLevel : VerificationLevel
  cachedAt : DateTime

/-- Is the entry less than an hour old? The configured TTL is not consulted. -/
def CachedResolution.isFresh (cached : CachedResolution) (now : DateTime) : Bool :=
  decide (numHours (now - cached.cachedAt) < 1)

/-- The part of an anchor that a resolution compares. -/
structure AnchorRecord where
  merkleRoot : Hash

/-- The `serde_json` readers of the two formats a DHT value may have. -/
structure Readers where
  ajnaDocument : Json → Except String AjnaDocument
  didDocument : Json → Except String Core.DidDocument

/-- What one resolution finds outside the service. -/
structure ResolveAmbient where
  /-- The DHT, if there is a provider, at the time of the call. -/
  dht : Option (String → Option Json)
  /-- The latest anchors, if there is an anchoring service, at the time of the call. -/
  anchoring : Option (FMap String AnchorRecord)
  /-- The clock reading the age of a cached entry is taken at. -/
  checkedAt : DateTime
  /-- The clock reading a new entry is stamped with. -/
  cachedAt : DateTime
  order : IterOrder VerificationMethod
  refOrder : IterOrder String
  convert : ConvertAmbient

/-- Multi-tier DID resolution service. -/
structure ResolutionService where
  cache : FMap String CachedResolution
  /-- Cache TTL in seconds. -/
  cacheTtlSeconds : ℤ

namespace ResolutionService

/-- A new service, with a TTL of an hour. -/
def new : ResolutionService := ⟨∅, 3600⟩

def withCacheTtl (service : ResolutionService) (ttlSeconds : ℤ) : ResolutionService :=
  { service with cacheTtlSeconds := ttlSeconds }

def checkCache (service : ResolutionService) (did : String) (requiredLevel : VerificationLevel)
    (now : DateTime) : Option CachedResolution :=
  match service.cache.lookup did with
  | some cached =>
    if cached.isFresh now && cached.verificationLevel.satisfies requiredLevel then some cached
    else none
  | none => none

def verifyAgainstAnchor (document : AjnaDocument) (anchoring : FMap String AnchorRecord) :
    VerificationLevel :=
  match anchoring.lookup document.id with
  | none => .T0
  | some anchor =>
    match document.blockchainAnchor with
    | some docAnchor => if docAnchor.merkleRoot = anchor.merkleRoot then .T1 else .T0
    | none => .T0

/-- The level a document reaches: anchors are looked at only if the level requires them. -/
def levelOf (requiredLevel : VerificationLevel) (env : ResolveAmbient) (document : AjnaDocument) :
    VerificationLevel :=
  if T1 ≤ requiredLevel then
    match env.anchoring with
    | some anchoring => verifyAgainstAnchor document anchoring
    | none => .T0
  else .T0

def levelError (requiredLevel level : VerificationLevel) : AjnaError :=
  .resolutionFailed ("Could not achieve required verification level " ++ requiredLevel.text ++
    " (got " ++ level.text ++ ")")

def cacheResolution (service : ResolutionService) (did : String) (document : AjnaDocument)
    (level : VerificationLevel) (now : DateTime) : ResolutionService :=
  { service with cache := service.cache.insert did ⟨document, level, now⟩ }

/-- Read a DHT value, in the native format or else in the W3C format. -/
def readDocument (readers : Readers) (env : ResolveAmbient) (value : Json) :
    Except AjnaError AjnaDocument :=
  match readers.ajnaDocument value with
  | .ok doc => .ok doc
  | .error _ =>
    match readers.didDocument value with
    | .error e => .error (.resolutionFailed ("Failed to parse DID document from DHT " ++
        "(tried both AjnaDocument and DidDocument): " ++ e))
    | .ok core =>
      match AjnaDocument.fromDidCore core env.convert with
      | .error e =>
        .error (.resolutionFailed ("Failed to convert DidDocument to AjnaDocument: " ++ e.text))
      | .ok doc => .ok doc

abbrev Resolution := ResolutionService × Except AjnaError (AjnaDocument × VerificationLevel)

def resolveViaSync (readers : Readers) (service : ResolutionService) (did : String)
    (requiredLevel : VerificationLevel) (env : ResolveAmbient) : Resolution :=
  match env.dht.bind fun dht => dht did with
  | none =>
    (service, .error (.resolutionFailed ("DID " ++ did ++ " not found in DHT or local storage")))
  | some value =>
    match readDocument readers env value with
    | .error e => (service, .error e)
    | .ok document =>
      match validate env.order env.refOrder document with
      | .error e => (service, .error e)
      | .ok () =>
        let level := levelOf requiredLevel env document
        if !level.satisfies requiredLevel then (service, .error (levelError requiredLevel level))
        else (service.cacheResolution did document level env.cachedAt, .ok (document, level))

/-- Resolve a DID: cache, then registry, then DHT. -/
def resolve (readers : Readers) (service : ResolutionService) (method : AjnaMethod) (did : String)
    (requiredLevel : VerificationLevel) (env : ResolveAmbient) : Resolution :=
  match service.checkCache did requiredLevel env.checkedAt with
  | some cached => (service, .ok (cached.document, cached.verificationLevel))
  | none =>
    match method.resolve did with
    | .error _ => service.resolveViaSync readers did requiredLevel env
    | .ok document =>
      let level := levelOf requiredLevel env document
      match validate env.order env.refOrder document with
      | .error e => (service, .error e)
      | .ok () =>
        if !level.satisfies requiredLevel then (service, .error (levelError requiredLevel level))
        else (service.cacheResolution did document level env.cachedAt, .ok (document, level))

def invalidateCache (service : ResolutionService) (did : String) : ResolutionService :=
  { service with cache := service.cache.erase did }

def clearCache (service : ResolutionService) : ResolutionService := { service with cache := ∅ }

/-! ## What a resolution does -/

/-- The document a resolution finds past the cache: the registry's, or else the DHT's. -/
def findDocument (readers : Readers) (method : AjnaMethod) (did : String) (env : ResolveAmbient) :
    Except AjnaError AjnaDocument :=
  match method.registry.lookup did with
  | some document => .ok document
  | none =>
    match env.dht.bind fun dht => dht did with
    | none => .error (.resolutionFailed ("DID " ++ did ++ " not found in DHT or local storage"))
    | some value => readDocument readers env value

/-- The document passes the checks. -/
def Accepts (requiredLevel : VerificationLevel) (env : ResolveAmbient) (document : AjnaDocument) :
    Prop :=
  validate env.order env.refOrder document = .ok () ∧
    requiredLevel ≤ levelOf requiredLevel env document

/-- What becomes of a document that was found. -/
def answer (service : ResolutionService) (did : String) (requiredLevel : VerificationLevel)
    (env : ResolveAmbient) (document : AjnaDocument) : Resolution :=
  match validate env.order env.refOrder document with
  | .error e => (service, .error e)
  | .ok () =>
    let level := levelOf requiredLevel env document
    if !level.satisfies requiredLevel then (service, .error (levelError requiredLevel level))
    else (service.cacheResolution did document level env.cachedAt, .ok (document, level))

variable {requiredLevel : VerificationLevel} {service : ResolutionService} {did : String}
  {env : ResolveAmbient}

/-- **Past the cache the two paths are one**: they differ in where the document is from. -/
theorem resolve_eq {readers : Readers} {method : AjnaMethod}
    (h : service.checkCache did requiredLevel env.checkedAt = none) :
    service.resolve readers method did requiredLevel env =
      match findDocument readers method did env with
      | .error e => (service, .error e)
      | .ok document => service.answer did requiredLevel env document := by
  unfold resolve findDocument AjnaMethod.resolve
  rw [h]
  cases method.registry.lookup did with
  | some document => rfl
  | none =>
    simp only [resolveViaSync]
    cases env.dht.bind fun dht => dht did with
    | none | some value => rfl

variable {document : AjnaDocument}

theorem answer_of_accepts (h : Accepts requiredLevel env document) :
    service.answer did requiredLevel env document =
      (service.cacheResolution did document (levelOf requiredLevel env document) env.cachedAt,
        .ok (document, levelOf requiredLevel env document)) := by
  unfold answer
  simp [h.1, satisfies, h.2]

theorem resolve_of_accepts {readers : Readers} {method : AjnaMethod}
    (hmiss : service.checkCache did requiredLevel env.checkedAt = none)
    (hfind : findDocument readers method did env = .ok document)
    (h : Accepts requiredLevel env document) :
    service.resolve readers method did requiredLevel env =
      (service.cacheResolution did document (levelOf requiredLevel env document) env.cachedAt,
        .ok (document, levelOf requiredLevel env document)) := by
  rw [resolve_eq hmiss, hfind]
  exact answer_of_accepts h

theorem answer_cases (service : ResolutionService) (did : String)
    (requiredLevel : VerificationLevel) (env : ResolveAmbient) (document : AjnaDocument) :
    (∃ e, service.answer did requiredLevel env document = (service, .error e)) ∨
    Accepts requiredLevel env document := by
  unfold answer Accepts
  cases validate env.order env.refOrder document with
  | error e => exact .inl ⟨e, rfl⟩
  | ok u =>
    by_cases hl : requiredLevel ≤ levelOf requiredLevel env document
    · exact .inr ⟨rfl, hl⟩
    · simp [satisfies, hl]

/-- **What a resolution can do**: fail, answer from the cache, or answer with a document
that it found, and cache it. -/
theorem resolve_cases (readers : Readers) (service : ResolutionService) (method : AjnaMethod)
    (did : String) (requiredLevel : VerificationLevel) (env : ResolveAmbient) :
    (∃ e, service.resolve readers method did requiredLevel env = (service, .error e)) ∨
    (∃ cached, service.checkCache did requiredLevel env.checkedAt = some cached ∧
      service.resolve readers method did requiredLevel env =
        (service, .ok (cached.document, cached.verificationLevel))) ∨
    (service.checkCache did requiredLevel env.checkedAt = none ∧
      ∃ document, findDocument readers method did env = .ok document ∧
        Accepts requiredLevel env document ∧
        service.resolve readers method did requiredLevel env =
          (service.cacheResolution did document (levelOf requiredLevel env document) env.cachedAt,
            .ok (document, levelOf requiredLevel env document))) := by
  cases hc : service.checkCache did requiredLevel env.checkedAt with
  | some cached =>
    refine .inr (.inl ⟨cached, rfl, ?_⟩)
    unfold resolve
    rw [hc]
  | none =>
    rw [resolve_eq hc]
    cases hf : findDocument readers method did env with
    | error e => exact .inl ⟨e, rfl⟩
    | ok document =>
      rcases service.answer_cases did requiredLevel env document with hrefused | haccepts
      · exact .inl hrefused
      · exact .inr (.inr ⟨rfl, document, rfl, haccepts, answer_of_accepts haccepts⟩)

theorem of_checkCache {now : DateTime} {cached : CachedResolution}
    (h : service.checkCache did requiredLevel now = some cached) :
    service.cache.lookup did = some cached ∧ cached.isFresh now = true ∧
      requiredLevel ≤ cached.verificationLevel := by
  unfold checkCache at h
  split at h
  · next c hc =>
    split at h
    · next hok =>
      cases h
      simp only [Bool.and_eq_true, satisfies, decide_eq_true_eq] at hok
      exact ⟨hc, hok⟩
    · cases h
  · cases h

theorem checkCache_of_lookup {now : DateTime} {cached : CachedResolution}
    (hlookup : service.cache.lookup did = some cached) (hfresh : cached.isFresh now = true)
    (hlevel : requiredLevel ≤ cached.verificationLevel) :
    service.checkCache did requiredLevel now = some cached := by
  unfold checkCache
  simp [hlookup, hfresh, satisfies, hlevel]

theorem levelOf_T0 (env : ResolveAmbient) (document : AjnaDocument) :
    levelOf .T0 env document = .T0 := if_neg (by decide)

theorem active_of_accepts (h : Accepts requiredLevel env document) :
    document.isDeactivated = false := by
  cases hd : document.isDeactivated with
  | false => rfl
  | true =>
    have hv := h.1
    rw [validate, if_pos hd] at hv
    cases hv

end ResolutionService

open ResolutionService

/-! ## Registries are keyed by id -/

theorem CRDTOperation.id_applyAll (ops : List CRDTOperation) (doc : AjnaDocument)
    (amb : ℕ → Ambient) : (applyAll ops doc amb).id = doc.id := by
  unfold applyAll
  generalize ops.zipIdx = l
  induction l generalizing doc with
  | nil => rfl
  | cons p l ih =>
    rw [List.foldl_cons, ih]
    cases p.1 <;> rfl

variable {host : Host}

theorem Call.id_transform {call : Call} {env : CallAmbient} {document doc : AjnaDocument}
    (h : call.transform host env document = .ok doc) : doc.id = document.id := by
  cases call with
  | create did | createWithGenesis did controllers policy => cases h; rfl
  | deactivate did reason =>
    simp only [transform, AjnaMethod.deactivateTransform] at h
    split at h
    · cases h
    · exact AjnaDocument.id_applyDeltaV2 h
  | applyOperationV2 operation => exact (transformed_of_ok h :
      Transformed (operation, env) document doc).id
  | applyOperation did operation =>
    cases h
    cases operation <;> rfl
  | applyOperations did operations | mergeUpdate update =>
    cases h
    exact CRDTOperation.id_applyAll _ _ _

theorem Call.id_newDocument (nodeId : String) (env : CallAmbient) (call : Call) :
    (call.newDocument nodeId env).id = call.did := by
  cases call <;> rfl

namespace AjnaMethod

/-- Every document is registered under its id. -/
def Keyed (m : AjnaMethod) : Prop :=
  ∀ did doc, m.registry.lookup did = some doc → doc.id = did

theorem keyed_new (nodeId : String) : (AjnaMethod.new nodeId).Keyed := by
  intro did doc h
  simp [AjnaMethod.new] at h

variable {m : AjnaMethod}

theorem Keyed.of_insert {m' : AjnaMethod} {did : String} {doc : AjnaDocument} (h : m.Keyed)
    (hid : doc.id = did) (hreg : m'.registry = m.registry.insert did doc) : m'.Keyed := by
  intro did' doc' h'
  rw [hreg, FMap.lookup_insert_ite] at h'
  split at h'
  · next heq =>
    cases h'
    rw [hid, heq]
  · exact h did' doc' h'

theorem Keyed.modify {document : AjnaDocument} {call : Call} {env : CallAmbient} {nodeId : String}
    (h : m.Keyed) (hid : document.id = call.did) :
    (m.modify host call.did document (call.transform host env)
      (call.record host nodeId env)).1.Keyed := by
  have hreg := registry_modify host m call.did document (call.transform host env)
    (call.record host nodeId env)
  cases ht : call.transform host env document with
  | error fault =>
    rw [ht] at hreg
    intro did doc hdoc
    rw [hreg] at hdoc
    exact h did doc hdoc
  | ok doc =>
    rw [ht] at hreg
    exact h.of_insert ((Call.id_transform ht).trans hid) hreg

/-- **Every call keeps the registry keyed by id.** -/
theorem Keyed.perform (h : m.Keyed) (call : Call) (env : CallAmbient) :
    (call.perform host m env).1.Keyed := by
  have hinsert : ((m.insertDocument call.did (call.newDocument m.nodeId env)).initHistory
      call.did).Keyed := h.of_insert (Call.id_newDocument _ _ _) rfl
  rw [perform_eq]
  split
  · unfold createWith
    split
    · exact h
    · exact hinsert
  · cases hl : m.registry.lookup call.did with
    | some document => exact h.modify (h _ _ hl)
    | none =>
      dsimp only
      split
      · exact hinsert.modify (Call.id_newDocument _ _ _)
      · exact h

end AjnaMethod

/-! ## Runs of resolutions -/

namespace ResolutionService

/-- The service and the registry it reads. -/
structure State where
  service : ResolutionService
  method : AjnaMethod

/-- A call of the service, or a call that changes the registry in between. -/
inductive Event where
  | resolve (did : String) (requiredLevel : VerificationLevel) (env : ResolveAmbient)
  | invalidateCache (did : String)
  | clearCache
  | call (call : Call) (env : CallAmbient)

/-- Every call runs, whatever its outcome. -/
def step (host : Host) (readers : Readers) (s : State) : Event → Option State
  | .resolve did requiredLevel env =>
    some { s with service := (s.service.resolve readers s.method did requiredLevel env).1 }
  | .invalidateCache did => some { s with service := s.service.invalidateCache did }
  | .clearCache => some { s with service := s.service.clearCache }
  | .call call env => some { s with method := (call.perform host s.method env).1 }

/-- A service built with a TTL, over an empty registry. -/
def start (ttlSeconds : ℤ) (nodeId : String) : State :=
  ⟨new.withCacheTtl ttlSeconds, AjnaMethod.new nodeId⟩

def AnswerMatches (readers : Readers) (s : State) : Event → Prop
  | .resolve did requiredLevel env => ∀ doc level,
    (s.service.resolve readers s.method did requiredLevel env).2 = .ok (doc, level) →
      doc.id = did ∧ doc.isDeactivated = false ∧ requiredLevel ≤ level
  | _ => True

def DhtMatches (readers : Readers) (s : State) : Event → Prop
  | .resolve did requiredLevel env =>
    s.service.checkCache did requiredLevel env.checkedAt = none →
    s.method.registry.lookup did = none →
    ∀ value doc, (env.dht.bind fun dht => dht did) = some value →
      readDocument readers env value = .ok doc → Accepts requiredLevel env doc → doc.id = did
  | _ => True

/-- What registry and cache hold under a DID is active and for that DID. -/
structure Sound (s : State) : Prop where
  keyed : s.method.Keyed
  cached : ∀ did c, s.service.cache.lookup did = some c →
    c.document.id = did ∧ c.document.isDeactivated = false

theorem sound_start (ttlSeconds : ℤ) (nodeId : String) : Sound (start ttlSeconds nodeId) where
  keyed := AjnaMethod.keyed_new nodeId
  cached := by
    intro did c h
    simp [start, new, withCacheTtl] at h

variable {s : State} {readers : Readers}

theorem Sound.id_of_findDocument (h : Sound s) {did : String} {requiredLevel : VerificationLevel}
    {env : ResolveAmbient} {doc : AjnaDocument}
    (hd : DhtMatches readers s (.resolve did requiredLevel env))
    (hmiss : s.service.checkCache did requiredLevel env.checkedAt = none)
    (hf : findDocument readers s.method did env = .ok doc) (ha : Accepts requiredLevel env doc) :
    doc.id = did := by
  unfold findDocument at hf
  cases hl : s.method.registry.lookup did with
  | some document =>
    rw [hl] at hf
    cases hf
    exact h.keyed did doc hl
  | none =>
    simp only [hl] at hf
    cases hv : env.dht.bind fun dht => dht did with
    | none =>
      rw [hv] at hf
      cases hf
    | some value =>
      rw [hv] at hf
      exact hd hmiss hl value doc hv hf ha

/-- **In a sound state the answer matches exactly when the DHT's document does.** -/
theorem Sound.answerMatches_iff (h : Sound s) (event : Event) :
    AnswerMatches readers s event ↔ DhtMatches readers s event := by
  cases event with
  | resolve did requiredLevel env =>
    constructor
    · intro hanswer hmiss hl value doc hv hread haccepts
      have hfind : findDocument readers s.method did env = .ok doc := by
        unfold findDocument
        simp only [hl, hv, hread]
      refine (hanswer doc (levelOf requiredLevel env doc) ?_).1
      rw [resolve_of_accepts hmiss hfind haccepts]
    · intro hd doc level hok
      rcases s.service.resolve_cases readers s.method did requiredLevel env with
        ⟨e, he⟩ | ⟨c, hc, hans⟩ | ⟨hmiss, document, hf, haccepts, hans⟩
      · rw [he] at hok
        cases hok
      · rw [hans] at hok
        cases hok
        obtain ⟨hlookup, -, hlevel⟩ := of_checkCache hc
        exact ⟨(h.cached did c hlookup).1, (h.cached did c hlookup).2, hlevel⟩
      · rw [hans] at hok
        cases hok
        exact ⟨h.id_of_findDocument hd hmiss hf haccepts, active_of_accepts haccepts, haccepts.2⟩
  | invalidateCache did | clearCache | call call env => exact Iff.rfl

theorem Sound.cacheResolution (h : Sound s) {did : String} {doc : AjnaDocument} (hid : doc.id = did)
    (hactive : doc.isDeactivated = false) (level : VerificationLevel) (now : DateTime) :
    Sound { s with service := s.service.cacheResolution did doc level now } where
  keyed := h.keyed
  cached := by
    intro did' c hc
    simp only [ResolutionService.cacheResolution, FMap.lookup_insert_ite] at hc
    split at hc
    · next heq =>
      cases hc
      exact ⟨hid.trans heq.symm, hactive⟩
    · exact h.cached did' c hc

theorem Sound.step {s' : State} {event : Event} (h : Sound s) (hd : DhtMatches readers s event)
    (hstep : step host readers s event = some s') : Sound s' := by
  cases event with
  | resolve did requiredLevel env =>
    cases hstep
    rcases s.service.resolve_cases readers s.method did requiredLevel env with
      ⟨e, he⟩ | ⟨c, hc, hans⟩ | ⟨hmiss, document, hf, haccepts, hans⟩
    · rw [he]
      exact h
    · rw [hans]
      exact h
    · rw [hans]
      exact h.cacheResolution (h.id_of_findDocument hd hmiss hf haccepts)
        (active_of_accepts haccepts) _ _
  | invalidateCache did =>
    cases hstep
    refine ⟨h.keyed, fun did' c hc => ?_⟩
    simp only [invalidateCache, FMap.lookup_erase_ite] at hc
    split at hc
    · cases hc
    · exact h.cached did' c hc
  | clearCache =>
    cases hstep
    refine ⟨h.keyed, fun did' c hc => ?_⟩
    simp [clearCache] at hc
  | call call env =>
    cases hstep
    exact ⟨h.keyed.perform call env, h.cached⟩

/-- **Every answer of a run matches exactly when the DHT does.**  Whatever happens to the
registry, the DHT and the anchors in between, every answer is for the DID that was asked
for, active, and of the required level, if and only if every DHT document that passes the
checks has the DID it was asked under for its id. -/
theorem answersMatch_iff (host : Host) (readers : Readers) (ttlSeconds : ℤ) (nodeId : String)
    (events : List Event) :
    Along (step host readers) (AnswerMatches readers) (start ttlSeconds nodeId) events ↔
      Along (step host readers) (DhtMatches readers) (start ttlSeconds nodeId) events :=
  along_iff_along (fun _ event h => h.answerMatches_iff event)
    (fun _ _ _ h hd hstep => h.step hd hstep) (sound_start ttlSeconds nodeId)

end ResolutionService

namespace Sample

/-- A call at given times, without anchors. -/
noncomputable def lookAt (dht : Option (String → Option Json)) (checkedAt cachedAt : DateTime) :
    ResolveAmbient where
  dht := dht
  anchoring := none
  checkedAt := checkedAt
  cachedAt := cachedAt
  order := IterOrder.some
  refOrder := IterOrder.some
  convert := ⟨fun _ => 0, fun _ _ => 0, fun _ => 0, 0⟩

/-- What is read from an object with an id alone: no native document, a minimal W3C one. -/
def idReaders : Readers where
  ajnaDocument _ := .error "missing field `verificationMethod`"
  didDocument
    | .object [("id", .string id)] => .ok (.new id)
    | _ => .error "missing field `id`"

/-- A DHT that answers every question with the document of another DID. -/
def malloryDht : String → Option Json :=
  fun _ => some (.object [("id", .string "did:ajna:mallory")])

end Sample

open Sample

namespace ResolutionService

theorem answersMatch_fails_foreignDocument :
    ¬ Along (step Sample.host idReaders) (AnswerMatches idReaders) (start 3600 "node1")
      [.resolve "did:ajna:alice" .T0 (lookAt (some malloryDht) 0 0)] := by
  rintro ⟨hanswer, -⟩
  have hmiss : (start 3600 "node1").service.checkCache "did:ajna:alice" .T0 0 = none := by
    simp [start, new, withCacheTtl, checkCache]
  obtain ⟨mallory, hread, hid⟩ : ∃ doc, readDocument idReaders
      (lookAt (some malloryDht) 0 0) (.object [("id", .string "did:ajna:mallory")]) =
        .ok doc ∧ doc.id = "did:ajna:mallory" := ⟨_, rfl, rfl⟩
  have hfind : findDocument idReaders (start 3600 "node1").method "did:ajna:alice"
      (lookAt (some malloryDht) 0 0) = .ok mallory := by
    rw [← hread]
    simp [findDocument, start, AjnaMethod.new, lookAt, malloryDht]
  have haccepts : Accepts .T0 (lookAt (some malloryDht) 0 0) mallory := by
    cases hread
    exact ⟨rfl, by decide⟩
  have halice := (hanswer mallory _ (congrArg Prod.snd (resolve_of_accepts hmiss hfind haccepts))).1
  rw [hid] at halice
  exact absurd halice (by decide)

/-! ## The age of a cached answer -/

theorem numHours_lt_one_iff (age : ℤ) : numHours age < 1 ↔ age < 3600 * 10 ^ 9 := by
  unfold numHours
  rcases lt_or_ge age 0 with hneg | hpos
  · -- a negative age is rounded towards zero
    obtain ⟨n, rfl⟩ : ∃ n : ℕ, age = -n := ⟨age.natAbs, by omega⟩
    have hn : 0 ≤ ((n : ℤ).tdiv (10 ^ 9)).tdiv 3600 :=
      Int.tdiv_nonneg (Int.tdiv_nonneg (Int.natCast_nonneg n) (by omega)) (by omega)
    rw [Int.neg_tdiv, Int.neg_tdiv]
    omega
  · rw [Int.tdiv_eq_ediv_of_nonneg hpos, Int.tdiv_eq_ediv_of_nonneg (by omega)]
    omega

/-- An answer from the cache is younger than `ttlSeconds`. -/
def HonoursTtl (ttlSeconds : ℤ) (s : State) : Event → Prop
  | .resolve did requiredLevel env => ∀ cached,
    s.service.checkCache did requiredLevel env.checkedAt = some cached →
      env.checkedAt - cached.cachedAt < ttlSeconds * 10 ^ 9
  | _ => True

/-- The clock readings of the service, in the order in which they are taken. -/
def readings (events : List Event) : List DateTime :=
  events.flatMap fun
    | .resolve _ _ env => [env.checkedAt, env.cachedAt]
    | _ => []

/-- The clock never goes back. -/
def NonDecreasing (events : List Event) : Prop := (readings events).Pairwise (· ≤ ·)

theorem honoursTtl_hour (s : State) {ttlSeconds : ℤ} (h : 3600 ≤ ttlSeconds) (event : Event) :
    HonoursTtl ttlSeconds s event := by
  cases event with
  | resolve did requiredLevel env =>
    intro cached hc
    have hfresh := (of_checkCache hc).2.1
    rw [CachedResolution.isFresh, decide_eq_true_eq, numHours_lt_one_iff] at hfresh
    calc env.checkedAt - cached.cachedAt < 3600 * 10 ^ 9 := hfresh
      _ ≤ ttlSeconds * 10 ^ 9 := Int.mul_le_mul_of_nonneg_right h (by decide)
  | invalidateCache did | clearCache | call call env => trivial

/-- A document is created and resolved, and resolved again some time later. -/
noncomputable def againAfter (age : ℤ) : List Event :=
  [.call (.create did) env, .resolve did .T0 (lookAt none 0 0),
    .resolve did .T0 (lookAt none age age)]

theorem nonDecreasing_againAfter {age : ℤ} (h : 0 ≤ age) : NonDecreasing (againAfter age) := by
  simpa [NonDecreasing, readings, againAfter, lookAt] using h

theorem not_honoursTtl_againAfter (host : Host) (readers : Readers) (nodeId : String)
    {ttlSeconds age : ℤ} (hold : ttlSeconds * 10 ^ 9 ≤ age) (hhour : age < 3600 * 10 ^ 9) :
    ¬ Along (step host readers) (HonoursTtl ttlSeconds) (start ttlSeconds nodeId)
      (againAfter age) := by
  rintro ⟨-, hrest⟩
  obtain ⟨-, hrest'⟩ := hrest _ rfl
  obtain ⟨hlast, -⟩ := hrest' _ rfl
  have hlookup : (Call.perform host (.new nodeId) env (.create did)).1.registry.lookup
      did = some (.new did nodeId 0 0) := by
    simp [Call.perform, AjnaMethod.create, AjnaMethod.createWith, AjnaMethod.new, env]
  have hmiss : (start ttlSeconds nodeId).service.checkCache did .T0 0 = none := by
    simp [start, new, withCacheTtl, checkCache]
  have hfind : findDocument readers (Call.perform host (.new nodeId) env
      (.create did)).1 did (lookAt none 0 0) = .ok (.new did nodeId 0 0) := by
    rw [findDocument, hlookup]
  have hfound := resolve_of_accepts hmiss hfind ⟨rfl, by rw [levelOf_T0]; decide⟩
  have hcached : ((start ttlSeconds nodeId).service.resolve readers (Call.perform host (.new nodeId)
      env (.create did)).1 did .T0 (lookAt none 0 0)).1.cache.lookup
      did = some ⟨.new did nodeId 0 0, .T0, 0⟩ := by
    rw [hfound]
    exact Finmap.lookup_insert _
  have hfresh : (⟨.new did nodeId 0 0, .T0, 0⟩ : CachedResolution).isFresh age = true := by
    rw [CachedResolution.isFresh, decide_eq_true_eq, numHours_lt_one_iff, sub_zero]
    exact hhour
  have hage := hlast _ (checkCache_of_lookup hcached hfresh (Nat.le_refl 0))
  rw [sub_zero] at hage
  exact absurd hage (not_lt.2 hold)

/-- **The cache keeps to its TTL exactly when that is an hour or more.** -/
theorem honoursTtl_iff (host : Host) (readers : Readers) (nodeId : String) (ttlSeconds : ℤ) :
    (∀ events, NonDecreasing events → Along (step host readers) (HonoursTtl ttlSeconds)
      (start ttlSeconds nodeId) events) ↔ 3600 ≤ ttlSeconds := by
  constructor
  · intro h
    by_contra hlt
    have hold : ttlSeconds * 10 ^ 9 ≤ max 0 ttlSeconds * 10 ^ 9 := by omega
    have hhour : max 0 ttlSeconds * 10 ^ 9 < 3600 * 10 ^ 9 := by omega
    exact not_honoursTtl_againAfter host readers nodeId hold hhour
      (h _ (nonDecreasing_againAfter (by omega)))
  · intro h events _
    exact along_of_forall fun s event => honoursTtl_hour s h event

theorem honoursTtl_fails_minute :
    ¬ ∀ events, NonDecreasing events → Along (step Sample.host idReaders) (HonoursTtl 60)
      (start 60 "node1") events := by
  intro h
  exact not_honoursTtl_againAfter Sample.host idReaders "node1" (le_refl (60 * 10 ^ 9)) (by decide)
    (h _ (nonDecreasing_againAfter (by decide)))

end ResolutionService
end Idiom.Ajna
