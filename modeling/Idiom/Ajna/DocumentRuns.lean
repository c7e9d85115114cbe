import Idiom.Ajna.OperationV2
import Idiom.Lib.Run

/-!
# Runs of `apply_operation_v2`, seen from one document

A run is any list of calls, for any DIDs, by anybody; what a call leaves behind counts
whether it returned a document, an error or a panic. The document of one DID changes
only in the calls for that DID whose transformation succeeds.
-/

namespace Idiom.Ajna

open AuthorizationEngine Sample Option

variable {host : Host}

/-- A call of `apply_operation_v2`: the operation and what the call draws from outside. -/
abbrev V2Call := Operation × CallAmbient

variable {document doc : AjnaDocument}

theorem v2Transform_eq_ok_iff {operation : Operation} {env : CallAmbient} :
    AjnaMethod.v2Transform host operation env document = .ok doc ↔
      (canApply env.authOrder operation document).isAllowed = true ∧
      ∃ d, document.applyDeltaV2 operation.delta (env.amb 0) = .ok d ∧
        doc = { d with vectorClock := d.vectorClock.increment operation.actor } := by
  unfold AjnaMethod.v2Transform
  dsimp only
  split
  · next hdenied =>
    have hfalse : ¬ (canApply env.authOrder operation document).isAllowed = true := by
      simpa using hdenied
    exact ⟨fun h => (nomatch h), fun h => absurd h.1 hfalse⟩
  · next hallowed =>
    rw [Bool.not_eq_true, Bool.not_eq_false'] at hallowed
    cases document.applyDeltaV2 operation.delta (env.amb 0) with
    | error fault => exact ⟨fun h => (nomatch h), fun ⟨_, d, hd, _⟩ => (nomatch hd)⟩
    | ok d =>
      constructor
      · intro h
        cases h
        exact ⟨hallowed, d, rfl, rfl⟩
      · rintro ⟨-, d', hd, rfl⟩
        cases hd
        rfl

theorem purposeSet_withClock (d : AjnaDocument) (clock : VectorClock) (q : VerificationPurpose) :
    ({ d with vectorClock := clock } : AjnaDocument).purposeSet q = d.purposeSet q := by
  cases q <;> rfl

/-- The fields a successful transformation leaves, read off the delta. -/
structure Transformed (call : V2Call) (document doc : AjnaDocument) : Prop where
  allowed : (canApply call.2.authOrder call.1 document).isAllowed = true
  id : doc.id = document.id
  verificationMethods : doc.verificationMethods =
    call.1.delta.onVerificationMethods (call.2.amb 0) document.verificationMethods
  purposeSet (q : VerificationPurpose) :
    doc.purposeSet q = call.1.delta.onPurposeSet (call.2.amb 0) q (document.purposeSet q)
  controller : doc.controller = call.1.delta.onController (call.2.amb 0) document.controller
  deactivated : doc.deactivated = call.1.delta.onDeactivated document.deactivated

variable {call : V2Call}

theorem transformed_of_ok (h : AjnaMethod.v2Transform host call.1 call.2 document = .ok doc) :
    Transformed call document doc := by
  obtain ⟨hallowed, d, hd, rfl⟩ := v2Transform_eq_ok_iff.1 h
  have happ := AjnaDocument.applied_of_ok hd
  exact
    { allowed := hallowed
      id := (AjnaDocument.id_applyDeltaV2 hd : d.id = document.id)
      verificationMethods := happ.verificationMethods
      purposeSet := fun q => (purposeSet_withClock d _ q).trans (happ.purposeSet q)
      controller := happ.controller
      deactivated := happ.deactivated }

namespace AjnaMethod

/-- One call, with the state it leaves behind. -/
def v2Step (host : Host) (m : AjnaMethod) (call : V2Call) : Option AjnaMethod :=
  some (m.applyOperationV2 host call.1 call.2).1

variable {m m' : AjnaMethod}

theorem lookup_v2Step (h : m.v2Step host call = some m') (did : String) :
    (m'.registry.lookup did = m.registry.lookup did ∧
      (call.1.doc = did → ∀ document, m.registry.lookup did = some document →
        ∀ doc, v2Transform host call.1 call.2 document ≠ .ok doc)) ∨
    (call.1.doc = did ∧ ∃ document doc, m.registry.lookup did = some document ∧
      v2Transform host call.1 call.2 document = .ok doc ∧ m'.registry.lookup did = some doc) := by
  cases h
  obtain ⟨operation, env⟩ := call
  dsimp only [applyOperationV2, resolve]
  cases hl : m.registry.lookup operation.doc with
  | none =>
    refine .inl ⟨rfl, fun hdid document hdoc => ?_⟩
    rw [← hdid, hl] at hdoc
    cases hdoc
  | some document =>
    rw [registry_modify]
    cases ht : v2Transform host operation env document with
    | error fault =>
      refine .inl ⟨rfl, fun hdid document' hdoc doc => ?_⟩
      rw [← hdid, hl, some.injEq] at hdoc
      rw [← hdoc, ht]
      exact fun hc => by cases hc
    | ok doc =>
      by_cases hdid : operation.doc = did
      · subst hdid
        exact .inr ⟨rfl, document, doc, hl, ht, Finmap.lookup_insert _⟩
      · refine .inl ⟨?_, fun hc => absurd hc hdid⟩
        exact Finmap.lookup_insert_of_ne _ fun hc => hdid hc.symm

theorem v2Step_of_ok {m : AjnaMethod} {did : String} (hdid : call.1.doc = did)
    (hl : m.registry.lookup did = some document)
    (ht : v2Transform host call.1 call.2 document = .ok doc) :
    ∃ m', m.v2Step host call = some m' ∧ m'.registry.lookup did = some doc := by
  refine ⟨_, rfl, ?_⟩
  rcases lookup_v2Step rfl did with ⟨-, hnot⟩ | ⟨-, document', doc', hl', ht', hstored⟩
  · exact absurd ht (hnot hdid document hl doc)
  · obtain rfl : document' = document := some.inj (hl'.symm.trans hl)
    obtain rfl : doc' = doc := Except.ok.inj (ht'.symm.trans ht)
    exact hstored

/-- The DID has a document, with the property. -/
def Holds (did : String) (P : AjnaDocument → Prop) (m : AjnaMethod) : Prop :=
  ∃ document, m.registry.lookup did = some document ∧ P document

/-- The call, if it is for the DID, meets the condition on its document. -/
def OnDocument (did : String) (G : AjnaDocument → V2Call → Prop) (m : AjnaMethod)
    (call : V2Call) : Prop :=
  call.1.doc = did → ∀ document, m.registry.lookup did = some document → G document call

section

variable {did : String} {P : AjnaDocument → Prop} {G : AjnaDocument → V2Call → Prop}

theorem holds_v2Step
    (hkeep : ∀ document call doc, P document → G document call →
      v2Transform host call.1 call.2 document = .ok doc → P doc)
    (h : m.Holds did P) (hG : m.OnDocument did G call) (hstep : m.v2Step host call = some m') :
    m'.Holds did P := by
  obtain ⟨document, hl, hP⟩ := h
  rcases lookup_v2Step hstep did with ⟨hsame, -⟩ | ⟨hdid, document', doc, hl', ht, hl''⟩
  · exact ⟨document, hsame.trans hl, hP⟩
  · obtain rfl : document' = document := some.inj (hl'.symm.trans hl)
    exact ⟨doc, hl'', hkeep document' call doc hP (hG hdid document' hl) ht⟩

/-- **An invariant of the document over all runs, with the exact condition.**  Calls
that meet `G` keep `P` and calls that do not break it; so the document has `P` in every
state of a run if and only if all its calls for the DID meet `G`. -/
theorem holds_iff_along
    (hkeep : ∀ document call doc, P document → G document call →
      v2Transform host call.1 call.2 document = .ok doc → P doc)
    (hbreak : ∀ document call, P document → ¬ G document call →
      ∃ doc, v2Transform host call.1 call.2 document = .ok doc ∧ ¬ P doc)
    {m : AjnaMethod} (h : m.Holds did P) (calls : List V2Call) :
    (∀ m', Run.Visits (v2Step host) m calls m' → m'.Holds did P) ↔
      Run.Along (v2Step host) (OnDocument did G) m calls := by
  refine Run.visits_iff_along (fun _ _ _ hP hG hstep => holds_v2Step hkeep hP hG hstep) ?_ h
  rintro m call ⟨document, hl, hP⟩ hG
  obtain ⟨hdid, document', hl', hG'⟩ : call.1.doc = did ∧ ∃ document',
      m.registry.lookup did = some document' ∧ ¬ G document' call := by
    unfold OnDocument at hG
    push Not at hG
    exact hG
  obtain rfl : document' = document := some.inj (hl'.symm.trans hl)
  obtain ⟨doc, ht, hnP⟩ := hbreak document' call hP hG'
  obtain ⟨m', hstep, hstored⟩ := v2Step_of_ok hdid hl ht
  refine ⟨m', hstep, ?_⟩
  rintro ⟨after, hafter, hPafter⟩
  obtain rfl : after = doc := some.inj (hafter.symm.trans hstored)
  exact hnP hPafter

end

/-- The engine allows the call on the stored document. -/
def Authorizes (m : AjnaMethod) (call : V2Call) : Prop :=
  m.Holds call.1.doc fun document =>
    (canApply call.2.authOrder call.1 document).isAllowed = true

/-! ## Where runs start -/

theorem lookup_createWith {did : String} (h : m.createWith did document = (m', .ok doc)) :
    doc = document ∧ m'.registry.lookup did = some document := by
  unfold createWith at h
  split at h
  · cases h
  · cases h
    exact ⟨rfl, Finmap.lookup_insert _⟩

theorem lookup_of_createsInto {did : String} (h : CreatesInto m did m') :
    ∃ document, m'.registry.lookup did = some document ∧ document.id = did ∧
      document.verificationMethods = ORSet.new ∧ (∀ q, document.purposeSet q = none) ∧
      document.isDeactivated = false := by
  obtain ⟨env, document, hc | ⟨controllers, policy, hc⟩⟩ := h
  iterate 2
    obtain ⟨-, hl⟩ := lookup_createWith hc
    exact ⟨_, hl, rfl, rfl, fun q => by cases q <;> rfl, rfl⟩

end AjnaMethod

/-- A change of the sample document, asked for by the DID itself. -/
noncomputable def Sample.change (delta : Delta) : V2Call :=
  ({ refRemove "op-1" [] with delta := delta }, env)

theorem Sample.change_doc (delta : Delta) : (change delta).1.doc = did := rfl

end Idiom.Ajna
