import Idiom.Lib.Fallible
import Idiom.Lib.Run
import Idiom.Proofs.Service

/-!
# What one step does to the proof exchanges of an agent

* `Step`, `step` — the inbound messages and the operations of the service, one after another.
* `Step.presents`, `Step.acknowledges`, `Step.requests`, `Step.verifies` — what a step asks for.
-/

namespace Idiom.Proofs

open ProofExchangeRepository ProofExchangeRecord ProofExchangeState List

/-! ## Steps -/

inductive Input where
  | message (inbound : InboundMessage)
  | createRequest (proof : RequestedProof) (connectionId : Option String)
  | processRequest (requestMsg : RequestPresentationMessage) (threadId : String)
      (connectionId : Option String)
  | processPresentation (msg : PresentationMessage)
  | verifyPresentation (exchangeId : String)
  | acceptRequest (exchangeId : String) (selection : Selection)
  | processAck (ack : AckMessage)
  | abandonExchange (exchangeId reason : String)
  | delete (exchangeId : String)

/-- A step, with what the outside answers during it and the order of the hash map. -/
structure Step where
  calls : Calls
  order : IterOrder String
  input : Input

/-- The records after a step; `autoVerify` is how `PresentationHandler` was set up. -/
def Step.result (autoVerify : Bool) (s : ProofExchangeRepository) (a : Step) :
    ProofExchangeRepository :=
  match a.input with
  | .message inbound => (handle a.calls a.order autoVerify s inbound).1
  | .createRequest proof connectionId => (createRequest a.calls s proof connectionId).1
  | .processRequest requestMsg threadId connectionId =>
    (processRequest a.calls s requestMsg threadId connectionId).1
  | .processPresentation msg => (processPresentation a.calls a.order s msg).1
  | .verifyPresentation exchangeId => (verifyPresentation a.calls s exchangeId).1
  | .acceptRequest exchangeId selection => (acceptRequest a.calls s exchangeId selection).1
  | .processAck ack => (processAck a.calls a.order s ack).1
  | .abandonExchange exchangeId reason => (abandonExchange a.calls s exchangeId reason).1
  | .delete exchangeId => (s.delete exchangeId).1

def step (autoVerify : Bool) (s : ProofExchangeRepository) (a : Step) :
    Option ProofExchangeRepository :=
  some (a.result autoVerify s)

namespace Step

/-- The connection a step's message came on; what an application hands to the service came on
none. -/
def connectionId (a : Step) : Option String :=
  match a.input with
  | .message inbound => inbound.context.connectionId
  | _ => none

/-- A message of the thread came in. -/
def brings (a : Step) (threadId : String) (body : Body) : Prop :=
  ∃ inbound, a.input = .message inbound ∧ inbound.threadId = threadId ∧ inbound.body = body

def presents (a : Step) (threadId json : String) : Prop :=
  a.brings threadId (.presentation (.ok json)) ∨ a.input = .processPresentation ⟨threadId, json⟩

/-- An ack that says that all went well. -/
def acknowledges (a : Step) (threadId : String) : Prop :=
  a.brings threadId (.ack .ok) ∨ a.input = .processAck ⟨threadId, .ok⟩

def requests (a : Step) (threadId : String) : Prop :=
  (∃ json, a.brings threadId (.requestPresentation (.ok json))) ∨
    ∃ requestMsg connectionId, a.input = .processRequest requestMsg threadId connectionId

/-- The verifier is asked about a record, by the application or for a presentation that came in. -/
def verifies (autoVerify : Bool) (a : Step) (r : ProofExchangeRecord) : Prop :=
  a.input = .verifyPresentation r.id ∨
    autoVerify = true ∧ ∃ json, a.brings r.threadId (.presentation (.ok json))

end Step

open Step

/-! ## Inverting the operations -/

theorem guardState_eq_ok {record : ProofExchangeRecord} {expected : ProofExchangeState} {u : Unit} :
    guardState record expected = .ok u ↔ record.state = expected := guard_eq_ok

theorem guardRole_eq_ok {record : ProofExchangeRecord} {expected : ProofExchangeRole} {u : Unit} :
    guardRole record expected = .ok u ↔ record.role = expected := guard_eq_ok

theorem stored_eq_ok {field : Option String} {text value : String} :
    stored field text = .ok value ↔ field = some value := by
  cases field with
  | none | some v => simp [stored]

variable {s t : ProofExchangeRepository} {r r' : ProofExchangeRecord} {calls : Calls}
  {order : IterOrder String}

theorem edit_of_written {α : Type} {x : α} (what : String)
    {f : ProofExchangeRecord → Except ProofError (Option ProofExchangeRecord × α)}
    (hr : s.records.lookup r.id = some r) (hid : r'.id = r.id) (hok : f r = .ok (some r', x)) :
    s.edit (some r) what f = (⟨s.records.insert r.id r'⟩, .ok x) := by
  have hmem : r.id ∈ s.records := Finmap.lookup_isSome.1 (by rw [hr]; rfl)
  simp only [edit, hok, update, hid, if_pos hmem]

theorem edit_cases {α : Type} {found : Option ProofExchangeRecord} (what : String)
    {f : ProofExchangeRecord → Except ProofError (Option ProofExchangeRecord × α)}
    (hfound : ∀ r, found = some r → s.records.lookup r.id = some r)
    (hid : ∀ r r' x, f r = .ok (some r', x) → r'.id = r.id) :
    (∃ e, s.edit found what f = (s, .error e)) ∨
      (∃ r x, found = some r ∧ f r = .ok (none, x) ∧ s.edit found what f = (s, .ok x)) ∨
      ∃ r r' x, found = some r ∧ f r = .ok (some r', x) ∧
        s.edit found what f = (⟨s.records.insert r.id r'⟩, .ok x) := by
  cases found with
  | none => exact .inl ⟨.notFound what, rfl⟩
  | some r =>
    cases hok : f r with
    | error e => exact .inl ⟨e, by simp only [edit, hok]⟩
    | ok result =>
      obtain ⟨_ | r', x⟩ := result
      · exact .inr (.inl ⟨r, x, rfl, hok, by simp only [edit, hok]⟩)
      · exact .inr (.inr ⟨r, r', x, rfl, hok,
          edit_of_written what (hfound r rfl) (hid r r' x hok) hok⟩)

/-! ## Rewritten records -/

/-- The record of a presentation that came in. -/
def presented (now : ℕ) (json : String) (r : ProofExchangeRecord) : ProofExchangeRecord :=
  (r.setPresentation now json).updateState now .presentationReceived

/-- The record of a presentation that was verified. -/
def settled (now : ℕ) (verified : Bool) (r : ProofExchangeRecord) : ProofExchangeRecord :=
  (r.setVerified now verified).updateState now .done

structure Verdict (autoVerify : Bool) (a : Step) (r : ProofExchangeRecord) (verified : Bool) :
    Prop where
  asked : a.verifies autoVerify r
  role : r.role = .verifier
  state : r.state = .presentationReceived
  answer : ∃ presentation request, r.presentationJson = some presentation ∧
    r.presentationRequestJson = some request ∧
    a.calls.verifyPresentation presentation request = .ok verified

/-- A presentation comes in and is applied to a record. -/
structure Applies (a : Step) (s : ProofExchangeRepository) (r : ProofExchangeRecord)
    (json : String) : Prop where
  presents : a.presents r.threadId json
  found : s.findByRoleAndThreadId a.order .verifier r.threadId = some r
  role : r.role = .verifier
  state : r.state = .requestSent

/-- How a step rewrites a record. -/
inductive Transition (autoVerify : Bool) (a : Step) (s : ProofExchangeRepository)
    (r : ProofExchangeRecord) : ProofExchangeRecord → Prop where
  | presented (json : String) :
      Applies a s r json → Transition autoVerify a s r (presented a.calls.now json r)
  -- the handler may have a presentation verified as soon as it comes in
  | checked (json : String) (verified : Bool) :
      Applies a s r json → Verdict autoVerify a (Proofs.presented a.calls.now json r) verified →
      Transition autoVerify a s r
        (settled a.calls.now verified (Proofs.presented a.calls.now json r))
  | verified (verified : Bool) :
      Verdict autoVerify a r verified →
      Transition autoVerify a s r (settled a.calls.now verified r)
  | accepted (json : String) :
      r.role = .prover → r.state = .requestReceived →
      Transition autoVerify a s r
        ((r.setPresentation a.calls.now json).updateState a.calls.now .presentationSent)
  | acknowledged :
      a.acknowledges r.threadId →
      s.findByRoleAndThreadId a.order .prover r.threadId = some r →
      r.role = .prover → r.state = .presentationSent →
      Transition autoVerify a s r (settled a.calls.now true r)
  | rejected :
      r.role = .prover → r.state = .presentationSent →
      Transition autoVerify a s r
        ((r.setVerified a.calls.now false).setError a.calls.now
          "Verifier rejected the presentation")
  | abandoned (reason : String) :
      r.state.isTerminal = false → Transition autoVerify a s r (r.setError a.calls.now reason)

/-- What no operation changes. -/
structure SameExchange (r r' : ProofExchangeRecord) : Prop where
  id : r'.id = r.id
  threadId : r'.threadId = r.threadId
  connectionId : r'.connectionId = r.connectionId
  role : r'.role = r.role
  request : r'.presentationRequestJson = r.presentationRequestJson

section
variable {autoVerify : Bool} {a : Step}

theorem Transition.same (h : Transition autoVerify a s r r') : SameExchange r r' := by
  cases h <;> exact ⟨rfl, rfl, rfl, rfl, rfl⟩

/-- **Records are rewritten along the state table**, one step of it or two. -/
theorem Transition.moves (h : Transition autoVerify a s r r') :
    Relation.TransGen (fun state next => next ∈ validNextStates state) r.state r'.state := by
  cases h with
  | presented json happlies =>
    rw [happlies.state]
    exact .single mem_cons_self
  | checked json verified happlies hverdict =>
    rw [happlies.state]
    have hreceived : presentationReceived ∈ validNextStates .requestSent := mem_cons_self
    exact .tail (.single hreceived) mem_cons_self
  | verified verified hverdict =>
    rw [hverdict.state]
    exact .single mem_cons_self
  | accepted json _ hstate | acknowledged _ _ _ hstate =>
    rw [hstate]
    exact .single mem_cons_self
  | rejected _ hstate =>
    rw [hstate]
    exact .single (mem_cons_of_mem _ mem_cons_self)
  | abandoned reason hopen => exact .single (abandoned_mem_validNextStates hopen)

theorem Transition.not_terminal (h : Transition autoVerify a s r r') :
    r.state.isTerminal = false := by
  obtain ⟨next, hnext, -⟩ := Relation.TransGen.head'_iff.1 h.moves
  cases hstate : r.state <;> first | rfl | (rw [hstate] at hnext; cases hnext)

end

/-! ## Changes -/

/-- A new record. -/
structure Opened (a : Step) (r : ProofExchangeRecord) : Prop where
  id : r.id = a.calls.recordId
  presentation : r.presentationJson = none
  verified : r.verified = none
  start : r.role = .verifier ∧ r.state = .requestSent ∧ r.threadId = a.calls.messageId ∨
    r.role = .prover ∧ r.state = .requestReceived ∧ a.requests r.threadId

/-- How a step changes the records. -/
inductive Change (autoVerify : Bool) (a : Step) (s : ProofExchangeRepository) :
    ProofExchangeRepository → Prop where
  | none : Change autoVerify a s s
  | opened (r : ProofExchangeRecord) :
      Opened a r → r.id ∉ s.records → Change autoVerify a s ⟨s.records.insert r.id r⟩
  | rewritten (r r' : ProofExchangeRecord) :
      s.records.lookup r.id = some r → Transition autoVerify a s r r' →
      Change autoVerify a s ⟨s.records.insert r.id r'⟩
  | deleted (id : String) :
      a.input = .delete id → Change autoVerify a s ⟨s.records.erase id⟩

section
variable {autoVerify : Bool} {a : Step}

theorem create_change {α : Type} {x : α} (h : Opened a r) :
    Change autoVerify a s (s.create r x).1 := by
  by_cases hmem : r.id ∈ s.records
  · simp only [create, save, if_pos hmem]
    exact .none
  · simp only [create, save, if_neg hmem]
    exact .opened r h hmem

theorem edit_change {α : Type} {found : Option ProofExchangeRecord} {what : String}
    {f : ProofExchangeRecord → Except ProofError (Option ProofExchangeRecord × α)}
    (hfound : ∀ r, found = some r → s.records.lookup r.id = some r)
    (hf : ∀ r r' x, found = some r → f r = .ok (some r', x) → Transition autoVerify a s r r')
    (hid : ∀ r r' x, f r = .ok (some r', x) → r'.id = r.id) :
    Change autoVerify a s (s.edit found what f).1 := by
  rcases edit_cases what hfound hid with ⟨e, h⟩ | ⟨r, x, -, -, h⟩ | ⟨r, r', x, hr, hok, h⟩
  · rw [h]
    exact .none
  · rw [h]
    exact .none
  · rw [h]
    exact .rewritten r r' (hfound r hr) (hf r r' x hr hok)

theorem createRequest_change (proof : RequestedProof) (connectionId : Option String) :
    Change autoVerify a s (createRequest a.calls s proof connectionId).1 := by
  unfold createRequest
  split
  · exact .none
  · refine create_change ⟨?_, ?_, ?_, .inl ?_⟩
    all_goals simp [setPresentationRequest, new]

theorem processRequest_change {threadId : String} (requestMsg : RequestPresentationMessage)
    (connectionId : Option String) (hasks : a.requests threadId) :
    Change autoVerify a s (processRequest a.calls s requestMsg threadId connectionId).1 := by
  refine create_change ⟨?_, ?_, ?_, .inr ?_⟩
  iterate 3 simp [setPresentationRequest, new]
  · simpa [setPresentationRequest, new] using hasks

/-! ## The operations -/

variable {json : String}

theorem processPresentationRecord_eq_ok {r' : Option ProofExchangeRecord} {x : ProofExchangeRecord}
    (h : processPresentationRecord calls json r = .ok (r', x)) :
    r.state = .requestSent ∧ r' = some (presented calls.now json r) ∧
      x = presented calls.now json r := by
  simp only [processPresentationRecord, bind_eq_ok, guardState_eq_ok] at h
  obtain ⟨-, hstate, hr'⟩ := h
  cases hr'
  exact ⟨hstate, rfl, rfl⟩

theorem processPresentation_cases (hkeyed : s.Keyed) (msg : PresentationMessage) :
    (∃ e, processPresentation calls order s msg = (s, .error e)) ∨
      ∃ r, s.findByRoleAndThreadId order .verifier msg.threadId = some r ∧ r.state = .requestSent ∧
        processPresentation calls order s msg =
          (⟨s.records.insert r.id (presented calls.now msg.presentationJson r)⟩,
            .ok (presented calls.now msg.presentationJson r)) := by
  rcases @edit_cases s _ (s.findByRoleAndThreadId order .verifier msg.threadId)
      ("thread_id: " ++ msg.threadId ++ " (verifier)")
      (processPresentationRecord calls msg.presentationJson)
      (fun r hr => (lookup_of_findByRoleAndThreadId hkeyed hr).1)
      (fun r r' x h => by
        obtain ⟨-, hr', -⟩ := processPresentationRecord_eq_ok h
        cases hr'
        rfl) with
    ⟨e, h⟩ | ⟨r, x, -, hok, -⟩ | ⟨r, r', x, hr, hok, h⟩
  · exact .inl ⟨e, h⟩
  · obtain ⟨-, hr', -⟩ := processPresentationRecord_eq_ok hok
    cases hr'
  · obtain ⟨hstate, hr', rfl⟩ := processPresentationRecord_eq_ok hok
    cases hr'
    exact .inr ⟨r, hr, hstate, h⟩

theorem verifyPresentationRecord_eq_ok {r' : Option ProofExchangeRecord} {verified : Bool}
    (h : verifyPresentationRecord calls r = .ok (r', verified)) :
    r.role = .verifier ∧ r.state = .presentationReceived ∧
      (∃ presentation request, r.presentationJson = some presentation ∧
        r.presentationRequestJson = some request ∧
        calls.verifyPresentation presentation request = .ok verified) ∧
      r' = some (settled calls.now verified r) := by
  simp only [verifyPresentationRecord, bind_eq_ok, guardState_eq_ok, guardRole_eq_ok,
    stored_eq_ok] at h
  obtain ⟨-, hrole, -, hstate, request, hrequest, -, -, presentation, hpresentation, -, -, v,
    hanswer,
    hr'⟩ := h
  cases hr'
  exact ⟨hrole, hstate, ⟨presentation, request, hpresentation, hrequest, hanswer⟩, rfl⟩

theorem verifyPresentation_cases (hkeyed : s.Keyed) (exchangeId : String) :
    (∃ e, verifyPresentation calls s exchangeId = (s, .error e)) ∨
      ∃ r verified, s.findById exchangeId = some r ∧ r.role = .verifier ∧
        r.state = .presentationReceived ∧
        (∃ presentation request, r.presentationJson = some presentation ∧
          r.presentationRequestJson = some request ∧
          calls.verifyPresentation presentation request = .ok verified) ∧
        verifyPresentation calls s exchangeId =
          (⟨s.records.insert r.id (settled calls.now verified r)⟩, .ok verified) := by
  rcases @edit_cases s _ (s.findById exchangeId) exchangeId (verifyPresentationRecord calls)
      (fun r hr => lookup_of_findById hkeyed hr)
      (fun r r' x h => by
        obtain ⟨-, -, -, hr'⟩ := verifyPresentationRecord_eq_ok h
        cases hr'
        rfl) with
    ⟨e, h⟩ | ⟨r, x, -, hok, -⟩ | ⟨r, r', verified, hr, hok, h⟩
  · exact .inl ⟨e, h⟩
  · obtain ⟨-, -, -, hr'⟩ := verifyPresentationRecord_eq_ok hok
    cases hr'
  · obtain ⟨hrole, hstate, hanswer, hr'⟩ := verifyPresentationRecord_eq_ok hok
    cases hr'
    exact .inr ⟨r, verified, hr, hrole, hstate, hanswer, h⟩

theorem processPresentation_change (hkeyed : s.Keyed) {msg : PresentationMessage}
    (hpresents : a.presents msg.threadId msg.presentationJson) :
    Change autoVerify a s (processPresentation a.calls a.order s msg).1 := by
  rcases @processPresentation_cases s a.calls a.order hkeyed msg with ⟨e, h⟩ | ⟨r, hr, hstate, h⟩
  · rw [h]
    exact .none
  · obtain ⟨hlookup, hrole, hthread⟩ :=
      lookup_of_findByRoleAndThreadId hkeyed hr
    rw [h]
    rw [← hthread] at hr hpresents
    exact .rewritten r _ hlookup (.presented _ ⟨hpresents, hr, hrole, hstate⟩)

theorem verifyPresentation_change (hkeyed : s.Keyed) {exchangeId : String}
    (hasks : a.input = .verifyPresentation exchangeId) :
    Change autoVerify a s (verifyPresentation a.calls s exchangeId).1 := by
  rcases @verifyPresentation_cases s a.calls hkeyed exchangeId with
    ⟨e, h⟩ | ⟨r, verified, hr, hrole, hstate, hanswer, h⟩
  · rw [h]
    exact .none
  · obtain rfl : r.id = exchangeId := hkeyed exchangeId r hr
    rw [h]
    exact .rewritten r _ hr (.verified verified ⟨.inl hasks, hrole, hstate, hanswer⟩)

theorem acceptRequest_change (hkeyed : s.Keyed) (exchangeId : String) (selection : Selection) :
    Change autoVerify a s (acceptRequest a.calls s exchangeId selection).1 := by
  have hok : ∀ r r' x, acceptRequestRecord a.calls selection r = .ok (some r', x) →
      Transition autoVerify a s r r' := by
    intro r r' x h
    simp only [acceptRequestRecord, bind_eq_ok, guardState_eq_ok, guardRole_eq_ok] at h
    obtain ⟨-, hrole, -, hstate, _, -, _, -, json, -, hr'⟩ := h
    cases hr'
    exact .accepted json hrole hstate
  exact edit_change (fun r hr => lookup_of_findById hkeyed hr)
    (fun r r' x _ h => hok r r' x h) fun r r' x h => (hok r r' x h).same.id

theorem processAck_change (hkeyed : s.Keyed) {ack : AckMessage}
    (hacks : ack.status = .ok → a.acknowledges ack.threadId) :
    Change autoVerify a s (processAck a.calls a.order s ack).1 := by
  have hok : ∀ r r' x, processAckRecord a.calls ack.status r = .ok (some r', x) →
      r.state = .presentationSent ∧ (ack.status = .ok ∧ r' = settled a.calls.now true r ∨
        r' = (r.setVerified a.calls.now false).setError a.calls.now
          "Verifier rejected the presentation") := by
    intro r r' x h
    obtain ⟨_, hguard, hr'⟩ := bind_eq_ok.1 h
    have hstate := guardState_eq_ok.1 hguard
    cases hstatus : ack.status with
    | ok =>
      rw [hstatus] at hr'
      cases hr'
      exact ⟨hstate, .inl ⟨rfl, rfl⟩⟩
    | fail =>
      rw [hstatus] at hr'
      cases hr'
      exact ⟨hstate, .inr rfl⟩
    | pending =>
      rw [hstatus] at hr'
      cases hr'
  refine edit_change (fun r hr => (lookup_of_findByRoleAndThreadId hkeyed hr).1)
    (fun r r' x hr h => ?_) (fun r r' x h => ?_)
  · obtain ⟨-, hrole, hthread⟩ :=
      lookup_of_findByRoleAndThreadId hkeyed hr
    obtain ⟨hstate, ⟨hstatus, rfl⟩ | rfl⟩ := hok r r' x h
    · rw [← hthread] at hr hacks
      exact .acknowledged (hacks hstatus) hr hrole hstate
    · exact .rejected hrole hstate
  · obtain ⟨-, ⟨-, rfl⟩ | rfl⟩ := hok r r' x h
    · rfl
    · rfl

theorem abandonExchange_change (hkeyed : s.Keyed) (exchangeId reason : String) :
    Change autoVerify a s (abandonExchange a.calls s exchangeId reason).1 := by
  have hok : ∀ r r' x, abandonExchangeRecord a.calls reason r = .ok (some r', x) →
      Transition autoVerify a s r r' := by
    intro r r' x h
    unfold abandonExchangeRecord at h
    split at h
    · cases h
    · next hopen =>
      cases h
      exact .abandoned reason (Bool.eq_false_iff.2 hopen)
  exact edit_change (fun r hr => lookup_of_findById hkeyed hr)
    (fun r r' x _ h => hok r r' x h) fun r r' x h => (hok r r' x h).same.id

theorem delete_change {id : String} (hinput : a.input = .delete id) :
    Change autoVerify a s (s.delete id).1 := by
  unfold delete
  split
  · exact .deleted id hinput
  · exact .none

/-! ## The handlers -/

variable {inbound : InboundMessage}

theorem handlePresentation_change (hkeyed : s.Keyed) (hinput : a.input = .message inbound)
    (hbody : inbound.body = .presentation (.ok json)) :
    Change autoVerify a s
      (handlePresentation a.calls a.order autoVerify s inbound (.ok json)).1 := by
  have hbrings : a.brings inbound.threadId (.presentation (.ok json)) :=
    ⟨inbound, hinput, rfl, hbody⟩
  rcases @processPresentation_cases s a.calls a.order hkeyed ⟨inbound.threadId, json⟩ with
    ⟨e, h⟩ | ⟨r, hr, hstate, h⟩
  · simp only [handlePresentation, h]
    exact .none
  · obtain ⟨hlookup, hrole, hthread⟩ :=
      lookup_of_findByRoleAndThreadId hkeyed hr
    have hbrings' : a.brings r.threadId (.presentation (.ok json)) := by
      rw [hthread]
      exact hbrings
    rw [← hthread] at hr
    have happlies : Applies a s r json := ⟨.inl hbrings', hr, hrole, hstate⟩
    cases hauto : autoVerify with
    | false =>
      simp only [handlePresentation, h]
      exact .rewritten r _ hlookup (.presented json happlies)
    | true =>
      have hkeyed' : Keyed ⟨s.records.insert r.id (presented a.calls.now json r)⟩ :=
        FMap.Keyed.insert hkeyed (presented a.calls.now json r)
      rcases @verifyPresentation_cases _ a.calls hkeyed' (presented a.calls.now json r).id with
        ⟨e, h'⟩ | ⟨r', verified, hr', hrole', hstate', hanswer, h'⟩
      · simp only [handlePresentation, h, h']
        exact .rewritten r _ hlookup (.presented json happlies)
      · obtain rfl : presented a.calls.now json r = r' :=
          Option.some.inj ((Finmap.lookup_insert _).symm.trans hr')
        simp only [handlePresentation, h, h']
        have hverdict : Verdict true a (presented a.calls.now json r) verified :=
          ⟨.inr ⟨rfl, json, hbrings'⟩, hrole', hstate', hanswer⟩
        have htwice : ((s.records.insert r.id (presented a.calls.now json r)).insert
            (presented a.calls.now json r).id
            (settled a.calls.now verified (presented a.calls.now json r))) =
              s.records.insert r.id (settled a.calls.now verified (presented a.calls.now json r)) :=
          Finmap.insert_insert _
        rw [htwice]
        exact .rewritten r _ hlookup (.checked json verified happlies hverdict)

theorem handleAck_change (hkeyed : s.Keyed) {status : AckStatus}
    (hinput : a.input = .message inbound) (hbody : inbound.body = .ack status) :
    Change autoVerify a s (handleAck a.calls a.order s inbound status).1 := by
  have h := @processAck_change s autoVerify a hkeyed ⟨inbound.threadId, status⟩
    fun hstatus => .inl ⟨inbound, hinput, rfl, by rw [hbody, ← hstatus]⟩
  unfold handleAck
  split
  all_goals
    next heq =>
    rw [heq] at h
    exact h

theorem handleProblemReport_change (hkeyed : s.Keyed) (inbound : InboundMessage)
    (description : Option ProblemDescription) :
    Change autoVerify a s (handleProblemReport a.calls a.order s inbound description).1 := by
  unfold handleProblemReport
  split
  · exact .none
  · next description =>
    split
    · exact .none
    · next record _ =>
      have h := @abandonExchange_change s autoVerify a hkeyed record.id
        (description.code ++ ": " ++ description.en)
      split
      all_goals
        next heq =>
        rw [heq] at h
        exact h

theorem handleRequestPresentation_change (hinput : a.input = .message inbound)
    (hbody : inbound.body = .requestPresentation (.ok json)) :
    Change autoVerify a s (handleRequestPresentation a.calls s inbound (.ok json)).1 := by
  have h := @processRequest_change s autoVerify a inbound.threadId ⟨inbound.id, json⟩
    inbound.context.connectionId (.inl ⟨json, inbound, hinput, rfl, hbody⟩)
  simp only [handleRequestPresentation]
  split
  all_goals
    next heq =>
    rw [heq] at h
    exact h

theorem handle_change (hkeyed : s.Keyed) (hinput : a.input = .message inbound) :
    Change autoVerify a s (handle a.calls a.order autoVerify s inbound).1 := by
  cases hbody : inbound.body with
  | requestPresentation attachment =>
    simp only [handle, hbody]
    cases attachment with
    | error e => exact .none
    | ok json => exact handleRequestPresentation_change hinput hbody
  | presentation attachment =>
    simp only [handle, hbody]
    cases attachment with
    | error e => exact .none
    | ok json => exact handlePresentation_change hkeyed hinput hbody
  | ack status =>
    simp only [handle, hbody]
    exact handleAck_change hkeyed hinput hbody
  | problemReport description =>
    simp only [handle, hbody]
    exact handleProblemReport_change hkeyed inbound description

theorem step_change (hkeyed : s.Keyed) : Change autoVerify a s (a.result autoVerify s) := by
  cases hinput : a.input with
  | message inbound =>
    simp only [result, hinput]
    exact handle_change hkeyed hinput
  | createRequest proof connectionId =>
    simp only [result, hinput]
    exact createRequest_change proof connectionId
  | processRequest requestMsg threadId connectionId =>
    simp only [result, hinput]
    exact processRequest_change requestMsg connectionId (.inr ⟨requestMsg, connectionId, hinput⟩)
  | processPresentation msg =>
    simp only [result, hinput]
    exact processPresentation_change hkeyed (.inr hinput)
  | verifyPresentation exchangeId =>
    simp only [result, hinput]
    exact verifyPresentation_change hkeyed hinput
  | acceptRequest exchangeId selection =>
    simp only [result, hinput]
    exact acceptRequest_change hkeyed exchangeId selection
  | processAck ack =>
    simp only [result, hinput]
    exact processAck_change hkeyed fun hstatus => .inr (by rw [hinput, ← hstatus])
  | abandonExchange exchangeId reason =>
    simp only [result, hinput]
    exact abandonExchange_change hkeyed exchangeId reason
  | delete id =>
    simp only [result, hinput]
    exact delete_change hinput

/-! ## One record -/

/-- What one step does to the record at `id`. -/
inductive RecordChange (autoVerify : Bool) (a : Step) (s : ProofExchangeRepository) (id : String) :
    Option ProofExchangeRecord → Option ProofExchangeRecord → Prop where
  | kept (found : Option ProofExchangeRecord) : RecordChange autoVerify a s id found found
  | opened (r : ProofExchangeRecord) :
      r.id = id → Opened a r → RecordChange autoVerify a s id Option.none (some r)
  | rewritten (r r' : ProofExchangeRecord) :
      r.id = id → Transition autoVerify a s r r' → RecordChange autoVerify a s id (some r) (some r')
  | deleted (r : ProofExchangeRecord) :
      a.input = .delete id → RecordChange autoVerify a s id (some r) Option.none

theorem Change.record (h : Change autoVerify a s t) (id : String) :
    RecordChange autoVerify a s id (s.records.lookup id) (t.records.lookup id) := by
  cases h with
  | none => exact .kept _
  | opened r hr hmem =>
    rw [FMap.lookup_insert_ite]
    split
    · next heq =>
      have hnone : s.records.lookup id = Option.none := by
        rw [heq]
        exact Finmap.lookup_eq_none.2 hmem
      rw [hnone]
      exact .opened r heq.symm hr
    · exact .kept _
  | rewritten r r' hr htransition =>
    rw [FMap.lookup_insert_ite]
    split
    · next heq =>
      rw [heq, hr]
      exact .rewritten r r' rfl htransition
    · exact .kept _
  | deleted id' hinput =>
    rw [FMap.lookup_erase_ite]
    split
    · next heq =>
      rw [← heq] at hinput
      cases s.records.lookup id with
      | none => exact .kept _
      | some r => exact .deleted r hinput
    · exact .kept _

theorem Change.keyed (h : Change autoVerify a s t) (hkeyed : s.Keyed) : t.Keyed := by
  intro id r hr
  have hrecord := h.record id
  rw [hr] at hrecord
  generalize hfound : s.records.lookup id = found at hrecord
  cases hrecord with
  | kept => exact hkeyed id r hfound
  | opened _ hid _ => exact hid
  | rewritten r₀ _ hid htransition => exact htransition.same.id.trans hid

end

end Idiom.Proofs
