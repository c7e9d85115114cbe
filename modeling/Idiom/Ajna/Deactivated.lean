import Idiom.Ajna.Method

/-!
# What a deactivated DID may still change into

`deactivate` promises that it *permanently* deactivates a document, and the
authorization engine refuses every version 2 operation on a deactivated one. The
legacy entry points never ask the engine.
-/

namespace Idiom.Ajna

open AjnaMethod Sample AuthorizationEngine List CRDTOperation

/-! ## Sequential runs -/

/-- A call with the values it draws from outside. -/
inductive Request where
  | call (call : Call) (env : CallAmbient)
  | importUpdates (updates : List DIDUpdate) (env : ℕ → CallAmbient)

/-- The state after a request. -/
def Request.after (host : Host) (m : AjnaMethod) : Request → AjnaMethod
  | .call c env => (c.perform host m env).1
  | .importUpdates updates env => (m.importUpdates host updates env).1

/-- The state after a sequence of requests. -/
def runRequests (host : Host) (m : AjnaMethod) (requests : List Request) : AjnaMethod :=
  requests.foldl (fun m r => r.after host m) m

/-- What a document shows: verification methods, purpose references, controllers,
services and policy, down to the state of each CRDT. -/
structure Content where
  verificationMethods : ORSet VerificationMethod
  purposes : VerificationPurpose → Option (ORSet String)
  controller : Option (ORSet String)
  service : Option (LWWMap String Service)
  policy : Option (LWWMap String Json)

def AjnaDocument.content (doc : AjnaDocument) : Content where
  verificationMethods := doc.verificationMethods
  purposes := doc.purposeSet
  controller := doc.controller
  service := doc.service
  policy := doc.policy

def DIDUpdate.CarriesOperations (update : DIDUpdate) (did : String) : Prop :=
  update.did = did ∧ update.operations ≠ []

def Request.HandsLegacyOperation (did : String) : Request → Prop
  | .call (.applyOperation d _) _ => d = did
  | .call (.applyOperations d operations) _ => d = did ∧ operations ≠ []
  | .call (.mergeUpdate update) _ => update.CarriesOperations did
  | .call _ _ => False
  | .importUpdates updates _ => ∃ update ∈ updates, update.CarriesOperations did

/-! ## One call on a deactivated document -/

section

variable {host : Host} {env : CallAmbient} {call : Call} {document doc : AjnaDocument}

theorem transform_isDeactivated (h : call.transform host env document = .ok doc)
    (hd : document.isDeactivated = true) : doc.isDeactivated = true := by
  have hflag : ∀ d : AjnaDocument, d.deactivated = document.deactivated →
      d.isDeactivated = true := by
    intro d hdd
    unfold AjnaDocument.isDeactivated at *
    rw [hdd]
    exact hd
  cases call with
  | create did | createWithGenesis did controllers policy => cases h; exact hd
  | deactivate did reason =>
    simp [Call.transform, deactivateTransform, hd] at h
  | applyOperationV2 operation =>
    simp [Call.transform, v2Transform, canApply, authorize, hd, AuthorizationResult.isAllowed] at h
  | applyOperation did operation =>
    cases h
    exact hflag _ (deactivated_apply _ _ _)
  | applyOperations did operations | mergeUpdate update =>
    cases h
    exact hflag _ (deactivated_applyAll _ _ _)

theorem transform_content (h : call.transform host env document = .ok doc)
    (hd : document.isDeactivated = true)
    (hr : ¬ (Request.call call env).HandsLegacyOperation call.did) :
    doc.content = document.content := by
  cases call with
  | create did | createWithGenesis did controllers policy => cases h; rfl
  | deactivate did reason =>
    simp [Call.transform, deactivateTransform, hd] at h
  | applyOperationV2 operation =>
    simp [Call.transform, v2Transform, canApply, authorize, hd, AuthorizationResult.isAllowed] at h
  | applyOperation did operation => exact absurd rfl hr
  | applyOperations did operations =>
    have hnil : operations = [] := by
      by_contra hne
      exact hr ⟨rfl, hne⟩
    subst hnil
    cases h
    rfl
  | mergeUpdate update =>
    have hnil : update.operations = [] := by
      by_contra hne
      exact hr ⟨rfl, hne⟩
    simp only [Call.transform, hnil] at h
    cases h
    -- with no operations only the vector clock moves
    unfold AjnaDocument.content
    congr 1

end

/-! ## Whole runs -/

section

variable (host : Host) (did : String)

/-- The DID is registered, deactivated, and satisfies `P`. -/
def DeactivatedWith (P : AjnaDocument → Prop) (m : AjnaMethod) : Prop :=
  ∃ doc, m.registry.lookup did = some doc ∧ doc.isDeactivated = true ∧ P doc

variable {m : AjnaMethod} {P : AjnaDocument → Prop}

theorem deactivatedWith_perform (env : CallAmbient) (call : Call) (h : DeactivatedWith did P m)
    (hP : call.did = did → ∀ document doc, document.isDeactivated = true → P document →
      call.transform host env document = .ok doc → P doc) :
    DeactivatedWith did P (call.perform host m env).1 := by
  obtain ⟨document, hl, hd, hp⟩ := h
  rcases registry_perform host m env call with
    hsame | ⟨hnone, doc, hins⟩ | ⟨document', doc, hl', -, ht, hins⟩
  · exact ⟨document, by rw [hsame, hl], hd, hp⟩
  · have hne : did ≠ call.did := by
      rintro rfl
      rw [hl] at hnone
      cases hnone
    exact ⟨document, by rw [hins, FMap.lookup_insert_ite, if_neg hne, hl], hd, hp⟩
  · by_cases hdid : did = call.did
    · subst hdid
      rw [hl] at hl'
      cases hl'
      refine ⟨doc, by rw [hins, Finmap.lookup_insert], transform_isDeactivated ht hd, ?_⟩
      exact hP rfl document doc hd hp ht
    · exact ⟨document, by rw [hins, FMap.lookup_insert_ite, if_neg hdid, hl], hd, hp⟩

theorem deactivatedWith_importUpdates {updates : List DIDUpdate} {env : ℕ → CallAmbient}
    (h : DeactivatedWith did P m) (hP : ∀ update ∈ updates, update.did = did → ∀ env document doc,
      document.isDeactivated = true → P document →
      (Call.mergeUpdate update).transform host env document = .ok doc → P doc) :
    DeactivatedWith did P (m.importUpdates host updates env).1 := by
  have hround : ∀ (acc : Outcome ℕ) (update : DIDUpdate) (env : CallAmbient),
      update ∈ updates → DeactivatedWith did P acc.1 →
      DeactivatedWith did P (importStep host acc update env).1 := by
    rintro ⟨m, r⟩ update env hmem hacc
    cases r with
    | error fault => exact hacc
    | ok count =>
      have hmerge := deactivatedWith_perform host did env (.mergeUpdate update) hacc
        fun hdid => hP update hmem hdid env
      simp only [Call.perform] at hmerge
      simp only [importStep]
      cases hm : m.mergeUpdate host update env with
      | mk m' r' =>
        rw [hm] at hmerge
        rcases r' with (_ | _) | _ <;> exact hmerge
  have hloop : ∀ (l : List (DIDUpdate × ℕ)) (acc : Outcome ℕ),
      (∀ p ∈ l, p.1 ∈ updates) → DeactivatedWith did P acc.1 →
      DeactivatedWith did P
        (l.foldl (fun acc p => importStep host acc p.1 (env p.2)) acc).1 := by
    intro l
    induction l with
    | nil => exact fun acc _ hacc => hacc
    | cons p l ih =>
      intro acc hmem hacc
      exact ih _ (fun q hq => hmem q (mem_cons_of_mem _ hq))
        (hround acc p.1 (env p.2) (hmem p mem_cons_self) hacc)
  exact hloop _ _ (fun p hp => fst_mem_of_mem_zipIdx hp) h

theorem deactivatedWith_runRequests {requests : List Request} (h : DeactivatedWith did P m)

    (hstep : ∀ r ∈ requests, ∀ m, DeactivatedWith did P m →
      DeactivatedWith did P (r.after host m)) :
    DeactivatedWith did P (runRequests host m requests) := by
  induction requests generalizing m with
  | nil => exact h
  | cons r l ih =>
    exact ih (hstep r mem_cons_self m h) fun r' hr' => hstep r' (mem_cons_of_mem _ hr')

theorem deactivatedWith_after_true (r : Request) (h : DeactivatedWith did (fun _ => True) m) :
    DeactivatedWith did (fun _ => True) (r.after host m) := by
  cases r with
  | call c env => exact deactivatedWith_perform host did env c h fun _ _ _ _ _ _ => trivial
  | importUpdates updates env =>
    exact deactivatedWith_importUpdates host did h fun _ _ _ _ _ _ _ _ _ => trivial

theorem deactivatedWith_after_content {content : Content} {r : Request}
    (hr : ¬ r.HandsLegacyOperation did) (h : DeactivatedWith did (fun d => d.content = content) m) :
    DeactivatedWith did (fun d => d.content = content) (r.after host m) := by
  cases r with
  | call c env =>
    refine deactivatedWith_perform host did env c h ?_
    rintro rfl document doc hd hc ht
    rw [transform_content ht hd hr, hc]
  | importUpdates updates env =>
    refine deactivatedWith_importUpdates host did h fun update hmem hdid env document doc hd hc
      ht => ?_
    have hnot : ¬ (Request.call (.mergeUpdate update) env).HandsLegacyOperation update.did :=
      fun hcarries => hr ⟨update, hmem, hdid, hcarries.2⟩
    rw [transform_content ht hd hnot, hc]

theorem deactivate_ok {m₁ : AjnaMethod} {reason : Option String} {env : CallAmbient}
    {document : AjnaDocument} (h : m.deactivate host did reason env = (m₁, .ok document)) :
    m₁.registry.lookup did = some document ∧ document.isDeactivated = true := by
  unfold deactivate at h
  split at h
  · cases h
  · next document₀ hres =>
    have ht := modify_ok host h
    have hreg := registry_modify host m did document₀ (deactivateTransform did reason env) none
    rw [h, ht] at hreg
    refine ⟨?_, ?_⟩
    · rw [hreg, Finmap.lookup_insert]
    · unfold deactivateTransform at ht
      split at ht
      · cases ht
      · cases ht; rfl

end

/-! ## Frozen, as long as the legacy entry points are left alone -/

def FrozenAfter (host : Host) (m : AjnaMethod) (did : String) (document : AjnaDocument)
    (requests : List Request) : Prop :=
  ∃ doc, (runRequests host m requests).resolve did = .ok doc ∧ doc.isDeactivated = true ∧
    doc.content = document.content

/-- **A deactivated DID stays deactivated, and its contents stay frozen in every run
that hands the legacy entry points no operation for it.** -/
theorem deactivated_content_frozen (host : Host) (m m₁ : AjnaMethod) (did : String)
    (reason : Option String) (env : CallAmbient) (document : AjnaDocument)
    (h : m.deactivate host did reason env = (m₁, .ok document)) (requests : List Request) :
    (∃ doc, (runRequests host m₁ requests).resolve did = .ok doc ∧ doc.isDeactivated = true) ∧
    ((∀ r ∈ requests, ¬ r.HandsLegacyOperation did) →
      FrozenAfter host m₁ did document requests) := by
  obtain ⟨hl, hd⟩ := deactivate_ok host did h
  constructor
  · obtain ⟨doc, hdoc, hdoc', -⟩ := deactivatedWith_runRequests host did
      (P := fun _ => True) ⟨document, hl, hd, trivial⟩
      fun r _ m hm => deactivatedWith_after_true host did r hm
    exact ⟨doc, resolve_eq_ok.2 hdoc, hdoc'⟩
  · intro hr
    obtain ⟨doc, hdoc, hdoc', hcontent⟩ := deactivatedWith_runRequests host did
      (P := fun d => d.content = document.content) ⟨document, hl, hd, rfl⟩
      fun r hmem m hm => deactivatedWith_after_content host did (hr r hmem) hm
    exact ⟨doc, resolve_eq_ok.2 hdoc, hdoc', hcontent⟩

/-- A method added after the deactivation, by the legacy path. -/
def Sample.lateMethod : VerificationMethod :=
  ⟨"did:ajna:alice#key-1", "Ed25519VerificationKey2020", "did:ajna:alice", "z6MkhaXg", none⟩

def Sample.deactivatedDocument : AjnaDocument := { document with deactivated := some true }

theorem Sample.deactivate_did (host : Host) :
    method.deactivate host did none env =
      (method.insertDocument did deactivatedDocument, .ok deactivatedDocument) := by
  rfl

/-- A method added after the deactivation, by an operation of version 2. -/
def Sample.lateOperation : Operation where
  opType := "org.ajna.did/op/1.0"
  doc := did
  opId := "op-1"
  parents := []
  actor := did
  clock := ⟨1, 1⟩
  delta := .vmAdd lateMethod
  auth := ⟨"", "did:ajna:alice#key-1"⟩
  timestampMs := 0

/-- A deactivated DID after an operation, an empty update, a `create` and another `deactivate`. -/
theorem deactivated_content_frozen_lateOperation :
    FrozenAfter Sample.host (method.insertDocument did deactivatedDocument) did deactivatedDocument
      [.call (.applyOperationV2 lateOperation) env, .call (.applyOperations did []) env,
        .call (.create did) env, .call (.deactivate did none) env] := by
  refine (deactivated_content_frozen _ _ _ _ _ _ _ (deactivate_did _) _).2 ?_
  intro r hr
  simp only [mem_cons, not_mem_nil, or_false] at hr
  rcases hr with rfl | rfl | rfl | rfl
  · exact fun hc => hc
  · exact fun hc => hc.2 rfl
  · exact fun hc => hc
  · exact fun hc => hc

/-- Deactivate, then `apply_operation` with a new verification method: the method is
there. -/
theorem deactivated_content_changes :
    ¬ ∃ host : Host, ∀ (m m₁ : AjnaMethod) (did : String) (reason : Option String)
      (env : CallAmbient) (document : AjnaDocument) (requests : List Request),
      m.deactivate host did reason env = (m₁, .ok document) →
      FrozenAfter host m₁ did document requests := by
  rintro ⟨host, hclaim⟩
  obtain ⟨doc, hdoc, -, hcontent⟩ := hclaim _ _ _ _ _ _
    [.call (.applyOperation did (.addVerificationMethod lateMethod 0 "node1"))
      env] (deactivate_did host)
  rw [resolve_eq_ok] at hdoc
  simp only [runRequests, foldl_cons, foldl_nil, Request.after, perform_eq,
    Call.onlyCreates, Call.did, registry_insertDocument, Call.transform] at hdoc
  simp only [Bool.false_eq_true, if_false, registry_modify, Finmap.lookup_insert,
    Option.some.injEq] at hdoc
  have hvm := congrArg Content.verificationMethods hcontent
  rw [← hdoc] at hvm
  have hlive : deactivatedDocument.content.verificationMethods.Live lateMethod 0 := by
    rw [← hvm]
    exact (ORSet.live_add _ _ _ _ _).2 (.inl ⟨rfl, rfl⟩)
  exact ORSet.live_new _ _ hlive

end Idiom.Ajna
