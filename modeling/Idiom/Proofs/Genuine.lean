import Idiom.Proofs.Changes

/-!
# A verified proof was verified, and came from whom it was asked

Requests, presentations and acks are matched by their thread; where they come from is not asked.

* `Genuine`, `RunGenuine` — what a verified record must go back to, one record for each role and
  thread, and records that have come to an end stay as they are.
* `Backed`, `Invariant` — what holds of the records all along such a run.
-/

namespace Idiom.Proofs

open ProofExchangeRepository List Finmap Run

/-- An agent that has no exchange yet. -/
def ProofExchangeRepository.new : ProofExchangeRepository := ⟨∅⟩

/-- The ids that are drawn are new ones. -/
structure Fresh (l : List Step) : Prop where
  records : (l.map fun a => a.calls.recordId).Nodup
  messages : (l.map fun a => a.calls.messageId).Nodup

def Step.OnConnectionOf (a : Step) (r : ProofExchangeRecord) : Prop :=
  ∀ c, r.connectionId = some c → a.connectionId = some c

section
variable (autoVerify : Bool)

/-! ## What the claim asks of a run -/

/-- The step of the run after which `P` held of the record at `id`, and before which it did not. -/
def SetBy (l : List Step) (id : String) (P : ProofExchangeRecord → Prop) (a : Step) : Prop :=
  ∃ l₁ l₂ s r r', l = l₁ ++ a :: l₂ ∧ exec (step autoVerify) .new l₁ = some s ∧
    s.records.lookup id = some r ∧ ¬ P r ∧
    (a.result autoVerify s).records.lookup id = some r' ∧ P r'

/-- It was marked verified when the verifier returned true on its presentation and request. -/
def Accepted (l : List Step) (r : ProofExchangeRecord) : Prop :=
  ∃ presentation request, r.presentationJson = some presentation ∧
    r.presentationRequestJson = some request ∧
    ∃ a, SetBy autoVerify l r.id (fun r => r.verified = some true) a ∧ a.verifies autoVerify r ∧
      a.calls.verifyPresentation presentation request = .ok true

/-- Its presentation came in on its connection. -/
def Arrived (l : List Step) (r : ProofExchangeRecord) : Prop :=
  ∃ presentation, r.presentationJson = some presentation ∧
    ∃ a, SetBy autoVerify l r.id (fun r => r.presentationJson = some presentation) a ∧
      a.presents r.threadId presentation ∧ a.OnConnectionOf r

/-- It was marked verified by an ack that came in on its connection. -/
def Acknowledged (l : List Step) (r : ProofExchangeRecord) : Prop :=
  ∃ a, SetBy autoVerify l r.id (fun r => r.verified = some true) a ∧ a.acknowledges r.threadId ∧
    a.OnConnectionOf r

/-- The records after the steps `l`. -/
structure Genuine (l : List Step) (s : ProofExchangeRepository) : Prop where
  verifier : ∀ id r, s.records.lookup id = some r → r.role = .verifier → r.verified = some true →
    Accepted autoVerify l r ∧ Arrived autoVerify l r
  prover : ∀ id r, s.records.lookup id = some r → r.role = .prover → r.verified = some true →
    Acknowledged autoVerify l r
  one : ∀ id id' r r', s.records.lookup id = some r → s.records.lookup id' = some r' →
    r'.role = r.role → r'.threadId = r.threadId → id' = id

/-- From `s` to `t` by the steps `l`, a record that is `Done` or `Abandoned` stays as it is, unless
it is deleted. -/
def Kept (l : List Step) (s t : ProofExchangeRepository) : Prop :=
  ∀ id r, s.records.lookup id = some r → r.state = .done ∨ r.state = .abandoned →
    t.records.lookup id = some r ∨ t.records.lookup id = none ∧ ∃ a ∈ l, a.input = .delete id

structure RunGenuine (l : List Step) : Prop where
  genuine : ∀ l₁ l₂ s, l = l₁ ++ l₂ → exec (step autoVerify) .new l₁ = some s →
    Genuine autoVerify l₁ s
  kept : ∀ l₁ l₂ l₃ s t, l = l₁ ++ l₂ ++ l₃ → exec (step autoVerify) .new l₁ = some s →
    exec (step autoVerify) s l₂ = some t → Kept l₂ s t

/-! ## The condition -/

/-- A presentation or an ack that is applied to a record comes on the connection of the record, and
a request is for a thread that no record of a prover has. -/
structure Addressed (s : ProofExchangeRepository) (a : Step) : Prop where
  presentation : ∀ r json, Applies a s r json → a.OnConnectionOf r
  ack : ∀ r, a.acknowledges r.threadId →
    s.findByRoleAndThreadId a.order .prover r.threadId = some r → r.state = .presentationSent →
    a.OnConnectionOf r
  request : ∀ threadId, a.requests threadId →
    s.findByRoleAndThreadId a.order .prover threadId = none

/-! ## The invariant -/

/-- What a record goes back to. -/
structure Backed (l : List Step) (r : ProofExchangeRecord) : Prop where
  unread : r.role = .verifier → r.state = .requestSent → r.presentationJson = none
  unverified : r.state.isTerminal = false → r.verified = none
  arrived : r.role = .verifier → r.state = .presentationReceived → Arrived autoVerify l r
  verifier : r.role = .verifier → r.verified = some true →
    Accepted autoVerify l r ∧ Arrived autoVerify l r
  prover : r.role = .prover → r.verified = some true → Acknowledged autoVerify l r

structure Invariant (l : List Step) (s : ProofExchangeRepository) : Prop where
  keyed : s.Keyed
  drawn : ∀ id r, s.records.lookup id = some r → ∃ a ∈ l, a.calls.recordId = id
  threads : ∀ id r, s.records.lookup id = some r → r.role = .verifier →
    ∃ a ∈ l, a.calls.messageId = r.threadId
  backed : ∀ id r, s.records.lookup id = some r → Backed autoVerify l r
  one : ∀ id id' r r', s.records.lookup id = some r → s.records.lookup id' = some r' →
    r'.role = r.role → r'.threadId = r.threadId → id' = id

end

variable {autoVerify : Bool} {l : List Step} {a : Step} {s t : ProofExchangeRepository}
  {r r' : ProofExchangeRecord} {id : String}

/-! ## One record, one step -/

theorem SetBy.snoc {P : ProofExchangeRecord → Prop} {b : Step}
    (h : SetBy autoVerify l id P b) : SetBy autoVerify (l ++ [a]) id P b := by
  obtain ⟨l₁, l₂, s, r, r', rfl, hs, hr, hP, hr', hP'⟩ := h
  exact ⟨l₁, l₂ ++ [a], s, r, r', by simp, hs, hr, hP, hr', hP'⟩

theorem Arrived.snoc (h : Arrived autoVerify l r) : Arrived autoVerify (l ++ [a]) r := by
  obtain ⟨presentation, hpresentation, b, hset, hpresents⟩ := h
  exact ⟨presentation, hpresentation, b, hset.snoc, hpresents⟩

theorem Backed.snoc (h : Backed autoVerify l r) : Backed autoVerify (l ++ [a]) r where
  unread := h.unread
  unverified := h.unverified
  arrived hrole hstate := (h.arrived hrole hstate).snoc
  verifier hrole hverified := by
    obtain ⟨⟨presentation, request, hpresentation, hrequest, b, hset, hasked, hanswer⟩, harrived⟩ :=
      h.verifier hrole hverified
    exact ⟨⟨presentation, request, hpresentation, hrequest, b, hset.snoc, hasked, hanswer⟩,
      harrived.snoc⟩
  prover hrole hverified := by
    obtain ⟨b, hset, hacks⟩ := h.prover hrole hverified
    exact ⟨b, hset.snoc, hacks⟩

theorem Arrived.of_same (h : Arrived autoVerify l r) (hsame : SameExchange r r')
    (hpresentation : r'.presentationJson = r.presentationJson) : Arrived autoVerify l r' := by
  obtain ⟨presentation, hjson, b, hset, hpresents, hconnection⟩ := h
  refine ⟨presentation, hpresentation.trans hjson, b, ?_, ?_, ?_⟩
  · rw [hsame.id]
    exact hset
  · rw [hsame.threadId]
    exact hpresents
  · intro c hc
    exact hconnection c (hsame.connectionId.symm.trans hc)

theorem Opened.backed (h : Opened a r) : Backed autoVerify l r where
  unread _ _ := h.presentation
  unverified _ := h.verified
  arrived hrole hstate := by
    rcases h.start with ⟨-, hopen, -⟩ | ⟨-, hopen, -⟩
    · cases hopen.symm.trans hstate
    · cases hopen.symm.trans hstate
  verifier _ hverified := by cases h.verified.symm.trans hverified
  prover _ hverified := by cases h.verified.symm.trans hverified

section
variable (hl : exec (step autoVerify) .new l = some s)
  (hr : s.records.lookup r.id = some r)
  (hr' : (a.result autoVerify s).records.lookup r.id = some r')
include hl hr hr'

theorem setBy_last {P : ProofExchangeRecord → Prop} (hP : ¬ P r) (hP' : P r') :
    SetBy autoVerify (l ++ [a]) r.id P a :=
  ⟨l, [], s, r, r', rfl, hl, hr, hP, hr', hP'⟩

theorem Transition.backed (h : Transition autoVerify a s r r') (hbacked : Backed autoVerify l r)
    (haddressed : Addressed s a) : Backed autoVerify (l ++ [a]) r' := by
  have hnone := hbacked.unverified h.not_terminal
  have hsame := h.same
  have harrives : ∀ json, Applies a s r json → r'.presentationJson = some json →
      Arrived autoVerify (l ++ [a]) r' := by
    intro json happlies hjson
    refine ⟨json, hjson, a, ?_, ?_, ?_⟩
    · rw [hsame.id]
      refine setBy_last hl hr hr' (fun hsome => ?_) hjson
      cases (hbacked.unread happlies.role happlies.state).symm.trans hsome
    · rw [hsame.threadId]
      exact happlies.presents
    · intro c hc
      exact haddressed.presentation r json happlies c (hsame.connectionId.symm.trans hc)
  have hset : r'.verified = some true →
      SetBy autoVerify (l ++ [a]) r.id (fun r => r.verified = some true) a := by
    refine setBy_last hl hr hr' (P := fun r => r.verified = some true) fun hsome => ?_
    cases hnone.symm.trans hsome
  have hverdict : ∀ r₀ verified, Verdict autoVerify a r₀ verified → SameExchange r r₀ →
      r' = settled a.calls.now verified r₀ → r'.verified = some true →
      Accepted autoVerify (l ++ [a]) r' := by
    intro r₀ verified hverdict hsame₀ hr₀ hverified
    obtain ⟨presentation, request, hpresentation, hrequest, hanswer⟩ := hverdict.answer
    have hset' := hset hverified
    rw [← hsame.id] at hset'
    subst hr₀
    cases hverified
    exact ⟨presentation, request, hpresentation, hrequest, a, hset', hverdict.asked, hanswer⟩
  cases h with
  | presented json happlies =>
    exact
      { unread := fun _ hstate => nomatch hstate
        unverified := fun _ => hnone
        arrived := fun _ _ => harrives json happlies rfl
        verifier := fun _ hverified => by cases hnone.symm.trans hverified
        prover := fun _ hverified => by cases hnone.symm.trans hverified }
  | checked json verified happlies hchecked =>
    exact
      { unread := fun _ hstate => nomatch hstate
        unverified := fun hstate => nomatch hstate
        arrived := fun _ hstate => nomatch hstate
        verifier := fun _ hverified =>
          ⟨hverdict _ verified hchecked ⟨rfl, rfl, rfl, rfl, rfl⟩ rfl hverified,
            harrives json happlies rfl⟩
        prover := fun hrole _ => nomatch happlies.role.symm.trans hrole }
  | verified verified hchecked =>
    exact
      { unread := fun _ hstate => nomatch hstate
        unverified := fun hstate => nomatch hstate
        arrived := fun _ hstate => nomatch hstate
        verifier := fun hrole hverified =>
          ⟨hverdict r verified hchecked ⟨rfl, rfl, rfl, rfl, rfl⟩ rfl hverified,
            (hbacked.arrived hrole hchecked.state).snoc.of_same hsame rfl⟩
        prover := fun hrole _ => nomatch hchecked.role.symm.trans hrole }
  | accepted json hprover hstate =>
    exact
      { unread := fun hrole _ => nomatch hprover.symm.trans hrole
        unverified := fun _ => hnone
        arrived := fun hrole _ => nomatch hprover.symm.trans hrole
        verifier := fun hrole _ => nomatch hprover.symm.trans hrole
        prover := fun _ hverified => by cases hnone.symm.trans hverified }
  | acknowledged hacks hfound hprover hstate =>
    exact
      { unread := fun hrole _ => nomatch hprover.symm.trans hrole
        unverified := fun hstate => nomatch hstate
        arrived := fun hrole _ => nomatch hprover.symm.trans hrole
        verifier := fun hrole _ => nomatch hprover.symm.trans hrole
        prover := fun _ _ => ⟨a, hset rfl, hacks, haddressed.ack r hacks hfound hstate⟩ }
  | rejected hprover hstate =>
    exact
      { unread := fun hrole _ => nomatch hprover.symm.trans hrole
        unverified := fun hstate => nomatch hstate
        arrived := fun hrole _ => nomatch hprover.symm.trans hrole
        verifier := fun hrole _ => nomatch hprover.symm.trans hrole
        prover := fun _ hverified => nomatch hverified }
  | abandoned reason hopen =>
    exact
      { unread := fun _ hstate => nomatch hstate
        unverified := fun hstate => nomatch hstate
        arrived := fun _ hstate => nomatch hstate
        verifier := fun _ hverified => by cases hnone.symm.trans hverified
        prover := fun _ hverified => by cases hnone.symm.trans hverified }

end

/-! ## All the records, one step -/

theorem origin (hkeyed : s.Keyed) (hr' : (a.result autoVerify s).records.lookup id = some r') :
    (∃ r, s.records.lookup id = some r ∧ SameExchange r r' ∧
      (r = r' ∨ Transition autoVerify a s r r')) ∨
      s.records.lookup id = none ∧ r'.id = id ∧ Opened a r' := by
  have hrecord := (@step_change s autoVerify a hkeyed).record id
  rw [hr'] at hrecord
  generalize hfound : s.records.lookup id = found at hrecord
  cases hrecord with
  | kept => exact .inl ⟨r', rfl, ⟨rfl, rfl, rfl, rfl, rfl⟩, .inl rfl⟩
  | opened _ hid hopened => exact .inr ⟨rfl, hid, hopened⟩
  | rewritten r _ hid htransition => exact .inl ⟨r, rfl, htransition.same, .inr htransition⟩

theorem Opened.alone (h : Opened a r') (hinv : Invariant autoVerify l s)
    (haddressed : Addressed s a) (hmessage : ∀ b ∈ l, b.calls.messageId ≠ a.calls.messageId)
    (hr : s.records.lookup id = some r) (hrole : r.role = r'.role) : r.threadId ≠ r'.threadId := by
  intro hthread
  rcases h.start with ⟨hverifier, -, hdrawn⟩ | ⟨hprover, -, hrequests⟩
  · obtain ⟨b, hb, hmessage'⟩ := hinv.threads id r hr (hrole.trans hverifier)
    exact hmessage b hb (hmessage'.trans (hthread.trans hdrawn))
  · exact findByRoleAndThreadId_eq_none.1
      (haddressed.request _ hrequests) id r hr (hrole.trans hprover) hthread

theorem Invariant.step (hinv : Invariant autoVerify l s)
    (hl : exec (step autoVerify) .new l = some s) (haddressed : Addressed s a)
    (hmessage : ∀ b ∈ l, b.calls.messageId ≠ a.calls.messageId) :
    Invariant autoVerify (l ++ [a]) (a.result autoVerify s) where
  keyed := (step_change hinv.keyed).keyed hinv.keyed
  drawn id r' hr' := by
    rcases origin hinv.keyed hr' with ⟨r, hr, -⟩ | ⟨-, rfl, hopened⟩
    · obtain ⟨b, hb, hid⟩ := hinv.drawn id r hr
      exact ⟨b, mem_append_left _ hb, hid⟩
    · exact ⟨a, by simp, hopened.id.symm⟩
  threads id r' hr' hrole := by
    rcases origin hinv.keyed hr' with ⟨r, hr, hsame, -⟩ | ⟨-, -, hopened⟩
    · obtain ⟨b, hb, hid⟩ := hinv.threads id r hr (hsame.role.symm.trans hrole)
      exact ⟨b, mem_append_left _ hb, hid.trans hsame.threadId.symm⟩
    · rcases hopened.start with ⟨-, -, hthread⟩ | ⟨hprover, -⟩
      · exact ⟨a, by simp, hthread.symm⟩
      · cases hprover.symm.trans hrole
  backed id r' hr' := by
    rcases origin hinv.keyed hr' with ⟨r, hr, hsame, rfl | htransition⟩ | ⟨-, -, hopened⟩
    · exact (hinv.backed id r hr).snoc
    · obtain rfl : r.id = id := hinv.keyed id r hr
      exact htransition.backed hl hr hr' (hinv.backed r.id r hr) haddressed
    · exact hopened.backed
  one id id' r r' hr hr' hrole hthread := by
    rcases origin hinv.keyed hr with ⟨r₀, hr₀, hsame, -⟩ | ⟨-, rfl, hopened⟩
    · rcases origin hinv.keyed hr' with ⟨r₀', hr₀', hsame', -⟩ | ⟨-, rfl, hopened'⟩
      · exact hinv.one id id' r₀ r₀' hr₀ hr₀' (hsame'.role.symm.trans (hrole.trans hsame.role))
          (hsame'.threadId.symm.trans (hthread.trans hsame.threadId))
      · exact absurd (hsame.threadId.symm.trans hthread.symm)
          (hopened'.alone hinv haddressed hmessage hr₀ (hsame.role.symm.trans hrole.symm))
    · rcases origin hinv.keyed hr' with ⟨r₀', hr₀', hsame', -⟩ | ⟨-, rfl, hopened'⟩
      · exact absurd (hsame'.threadId.symm.trans hthread)
          (hopened.alone hinv haddressed hmessage hr₀' (hsame'.role.symm.trans hrole))
      · exact hopened'.id.trans hopened.id.symm

/-! ## Runs -/

theorem Invariant.start : Invariant autoVerify [] .new := by
  have hempty : ∀ id (r : ProofExchangeRecord), new.records.lookup id ≠ some r := by
    intro id r hr
    cases (lookup_empty id).symm.trans hr
  exact
    { keyed := FMap.keyed_empty _
      drawn := fun id r hr => absurd hr (hempty id r)
      threads := fun id r hr => absurd hr (hempty id r)
      backed := fun id r hr => absurd hr (hempty id r)
      one := fun id _ r _ hr => absurd hr (hempty id r) }

theorem ne_of_nodup_snoc {f : Step → String} (h : ((l ++ [a]).map f).Nodup) :
    ∀ b ∈ l, f b ≠ f a := by
  rw [map_append, nodup_append] at h
  intro b hb
  exact h.2.2 (f b) (mem_map_of_mem hb) (f a) (by simp)

theorem exec_invariant (hfresh : Fresh l) (haddressed : Along (step autoVerify) Addressed .new l)
    (hl : exec (step autoVerify) .new l = some s) : Invariant autoVerify l s := by
  refine exec_history_along (G := Addressed)
    (P := fun l s => (l.map fun a => a.calls.messageId).Nodup → Invariant autoVerify l s)
    (fun _ => .start) (fun l a s t hl hinv haddressed hstep hnodup => ?_) haddressed hl
    hfresh.messages
  obtain rfl : a.result autoVerify s = t := Option.some.inj hstep
  have hnodup' := hnodup
  rw [map_append, nodup_append] at hnodup'
  exact (hinv hnodup'.1).step hl haddressed (ne_of_nodup_snoc hnodup)

theorem Fresh.left {l₁ l₂ : List Step} (h : Fresh (l₁ ++ l₂)) : Fresh l₁ where
  records := by
    have hrecords := h.records
    rw [map_append, nodup_append] at hrecords
    exact hrecords.1
  messages := by
    have hmessages := h.messages
    rw [map_append, nodup_append] at hmessages
    exact hmessages.1

theorem kept_step (hkeyed : s.Keyed) (hdrawn : a.calls.recordId ≠ id)
    (hterminal : r.state.isTerminal = true) (h : s.records.lookup id = some r ∨
      s.records.lookup id = none ∧ ∃ b ∈ l, b.input = .delete id) :
    (a.result autoVerify s).records.lookup id = some r ∨
      (a.result autoVerify s).records.lookup id = none ∧ ∃ b ∈ l ++ [a], b.input = .delete id := by
  have hrecord := (@step_change s autoVerify a hkeyed).record id
  have hlater : (∃ b ∈ l, b.input = .delete id) → ∃ b ∈ l ++ [a], b.input = .delete id :=
    fun ⟨b, hb, hinput⟩ => ⟨b, mem_append_left _ hb, hinput⟩
  generalize hfound : s.records.lookup id = found at hrecord h
  generalize hfound' : (a.result autoVerify s).records.lookup id = found' at hrecord
  cases hrecord with
  | kept => exact h.imp_right fun hnone => ⟨hnone.1, hlater hnone.2⟩
  | opened r' hid hopened => exact absurd (hopened.id.symm.trans hid) hdrawn
  | rewritten r₀ r' hid htransition =>
    rcases h with hsome | ⟨hnone, -⟩
    · cases hsome
      cases htransition.not_terminal.symm.trans hterminal
    · cases hnone
  | deleted r₀ hinput => exact .inr ⟨rfl, a, by simp, hinput⟩

theorem exec_kept {l₁ l₂ : List Step} (hfresh : Fresh (l₁ ++ l₂))
    (hinv : Invariant autoVerify l₁ s) (h : exec (step autoVerify) s l₂ = some t) :
    Kept l₂ s t := by
  intro id r hr hstate
  have hterminal : r.state.isTerminal = true := by
    rcases hstate with hdone | habandoned
    · rw [hdone]
      rfl
    · rw [habandoned]
      rfl
  obtain ⟨b, hb, rfl⟩ := hinv.drawn id r hr
  have hdrawn : ∀ a ∈ l₂, a.calls.recordId ≠ b.calls.recordId := by
    have hrecords := hfresh.records
    rw [map_append, nodup_append] at hrecords
    intro a ha heq
    exact hrecords.2.2 _ (mem_map_of_mem hb) _ (mem_map_of_mem ha) heq.symm
  refine (exec_history_along (G := fun _ _ => True)
    (P := fun l s => (∀ a ∈ l, a.calls.recordId ≠ b.calls.recordId) → s.Keyed ∧
      (s.records.lookup b.calls.recordId = some r ∨
        s.records.lookup b.calls.recordId = none ∧ ∃ a ∈ l, a.input = .delete b.calls.recordId))
    (fun _ => ⟨hinv.keyed, .inl hr⟩) (fun l a s t _ ih _ hstep hdrawn => ?_)
    (along_of_forall fun _ _ => trivial) h hdrawn).2
  obtain rfl : a.result autoVerify s = t := Option.some.inj hstep
  obtain ⟨hkeyed, hkept⟩ := ih fun a ha => hdrawn a (mem_append_left _ ha)
  exact ⟨(step_change hkeyed).keyed hkeyed, kept_step hkeyed (hdrawn a (by simp)) hterminal hkept⟩

/-- **In a run in which what is applied to a record comes on its connection, and a request opens a
new thread**, a verified record was verified and came from whom it was asked. -/
theorem run_genuine (autoVerify : Bool) (l : List Step) (hfresh : Fresh l)
    (haddressed : Along (step autoVerify) Addressed .new l) : RunGenuine autoVerify l where
  genuine l₁ l₂ s hsplit hs := by
    subst hsplit
    have hinv := exec_invariant hfresh.left haddressed.left hs
    exact
      { verifier := fun id r hr hrole hverified => (hinv.backed id r hr).verifier hrole hverified
        prover := fun id r hr hrole hverified => (hinv.backed id r hr).prover hrole hverified
        one := hinv.one }
  kept l₁ l₂ l₃ s t hsplit hs ht := by
    subst hsplit
    exact exec_kept hfresh.left (exec_invariant hfresh.left.left haddressed.left.left hs) ht

/-! ## A presentation of someone else -/

namespace Sample

/-- Libraries that find nothing wrong, and the ids that are drawn. -/
def calls (recordId messageId : String) : Calls where
  parsePresentationRequest _ := .ok ()
  parsePresentation _ := .ok ()
  createPresentationRequest _ := .ok "request"
  verifyPresentation _ _ := .ok true
  createPresentation _ _ := .ok "presentation"
  recordId := recordId
  messageId := messageId
  now := 0

/-- A proof is asked for on one connection. -/
noncomputable def ask : Step :=
  ⟨calls "exchange-1" "thread-1", .some, .createRequest ⟨"id-check", "1.0", ∅, ∅⟩ (some "conn-1")⟩

noncomputable def present (connectionId : String) : Step :=
  ⟨calls "exchange-2" "thread-2", .some, .message
    { id := "message-1"
      threadId := "thread-1"
      body := .presentation (.ok "presentation")
      context := ⟨some connectionId, some "did:peer:prover", some "did:peer:verifier"⟩ }⟩

def asked : ProofExchangeRecord :=
  { ProofExchangeRecord.new "exchange-1" 0 .verifier .requestSent "thread-1" with
    presentationRequestJson := some "request"
    connectionId := some "conn-1" }

def afterAsk : ProofExchangeRepository := ⟨insert "exchange-1" asked ∅⟩

theorem ask_result : ask.result true .new = afterAsk := by
  show (create .new asked _).1 = _
  simp only [create, save]
  rfl

theorem findByRoleAndThreadId_asked (order : IterOrder String) :
    afterAsk.findByRoleAndThreadId order .verifier "thread-1" = some asked := by
  rw [findByRoleAndThreadId, afterAsk, FMap.values_singleton]
  rfl

def verified : ProofExchangeRecord := settled 0 true (presented 0 "presentation" asked)

theorem present_result (connectionId : String) :
    (present connectionId).result true afterAsk = ⟨insert "exchange-1" verified ∅⟩ := by
  have hprocess : processPresentation (calls "exchange-2" "thread-2") .some afterAsk
      ⟨"thread-1", "presentation"⟩ =
        (⟨insert "exchange-1" (presented 0 "presentation" asked) afterAsk.records⟩,
          .ok (presented 0 "presentation" asked)) := by
    rw [processPresentation, findByRoleAndThreadId_asked]
    exact edit_of_written _ (lookup_insert _) rfl rfl
  have hverify : verifyPresentation (calls "exchange-2" "thread-2")
      ⟨insert "exchange-1" (presented 0 "presentation" asked) afterAsk.records⟩
      "exchange-1" =
        (⟨insert "exchange-1" verified
          (insert "exchange-1" (presented 0 "presentation" asked) afterAsk.records)⟩,
          .ok true) := by
    rw [verifyPresentation]
    exact edit_of_written _ (lookup_insert _) rfl rfl
  show (handlePresentation (calls "exchange-2" "thread-2") .some true afterAsk _ _).1 = _
  simp only [handlePresentation, hprocess, if_true]
  have hid : (presented 0 "presentation" asked).id = "exchange-1" := rfl
  rw [hid, hverify]
  simp only [afterAsk, insert_insert]

theorem exec_present (connectionId : String) :
    exec (step true) .new [ask, present connectionId] = some ⟨insert "exchange-1" verified ∅⟩ := by
  refine exec_cons_eq_some.2 ⟨afterAsk, congrArg some ask_result, ?_⟩
  exact exec_cons_eq_some.2 ⟨_, congrArg some (present_result connectionId), rfl⟩

theorem fresh (connectionId : String) : Fresh [ask, present connectionId] where
  records := by
    show ["exchange-1", "exchange-2"].Nodup
    decide
  messages := by
    show ["thread-1", "thread-2"].Nodup
    decide

theorem addressed : Along (step true) Addressed .new [ask, present "conn-1"] := by
  have hask : Addressed .new ask := by
    refine ⟨fun r json h => ?_, fun r hacks => ?_, fun threadId hrequests => ?_⟩
    · obtain ⟨_, hinput, -⟩ | hinput := h.presents
      · cases hinput
      · cases hinput
    · obtain ⟨_, hinput, -⟩ | hinput := hacks
      · cases hinput
      · cases hinput
    · obtain ⟨_, _, hinput, -⟩ | ⟨_, _, hinput⟩ := hrequests
      · cases hinput
      · cases hinput
  have hpresent : Addressed afterAsk (present "conn-1") := by
    refine ⟨fun r json h => ?_, fun r hacks => ?_, fun threadId hrequests => ?_⟩
    · intro c hc
      have hkeyed : afterAsk.Keyed := FMap.Keyed.insert (FMap.keyed_empty _) asked
      have hlookup := (lookup_of_findByRoleAndThreadId hkeyed h.found).1
      rw [afterAsk, FMap.lookup_insert_ite] at hlookup
      split at hlookup
      · cases hlookup
        exact hc
      · cases (lookup_empty r.id).symm.trans hlookup
    · obtain ⟨_, hinput, -, hbody⟩ | hinput := hacks
      · cases hinput
        cases hbody
      · cases hinput
    · obtain ⟨_, _, hinput, -, hbody⟩ | ⟨_, _, hinput⟩ := hrequests
      · cases hinput
        cases hbody
      · cases hinput
  refine along_cons hask (congrArg some ask_result) ?_
  exact ⟨hpresent, fun _ _ => trivial⟩

end Sample

open Sample

/-- Who knows the thread answers the request on a connection of their own. -/
theorem run_genuine_fails : ¬ ∀ (autoVerify : Bool) (l : List Step), Fresh l →
    RunGenuine autoVerify l := by
  intro hall
  have hgenuine := (hall true _ (fresh "conn-2")).genuine _ [] _ (append_nil _).symm
    (exec_present "conn-2")
  obtain ⟨-, presentation, -, a, ⟨l₁, l₂, s, r, r', hsplit, -⟩, hpresents, hconnection⟩ :=
    hgenuine.verifier "exchange-1" verified (lookup_insert _) rfl rfl
  have hmem : a ∈ [ask, present "conn-2"] := by
    rw [hsplit]
    exact mem_append_right _ mem_cons_self
  have hconn := hconnection "conn-1" rfl
  simp only [mem_cons, not_mem_nil, or_false] at hmem
  rcases hmem with rfl | rfl
  · cases hconn
  · exact absurd hconn (by decide)

theorem run_genuine_present : Fresh [ask, present "conn-1"] ∧
    RunGenuine true [ask, present "conn-1"] :=
  ⟨fresh "conn-1", run_genuine true [ask, present "conn-1"] (fresh "conn-1") addressed⟩

end Idiom.Proofs
