import Idiom.Lib.Run
import Idiom.Signing.Continues

/-!
# What a completed session says of its signers

Nodes exchange the messages of the protocol over a network that loses, repeats and reorders them.
When the coordinator completes a session because of an acknowledgement, the signer that sent it
should have the combined signature. A signer that handles `combine` puts the signature into a
clone of its session, and drops the clone.

* `Net`, `netStep` — the nodes and what they sent, with two histories: the partial signatures
  that reached each session in `Signing`, and the acknowledgements that completed a session.
-/

namespace Idiom.Signing

open Run Function Option List Prog

variable {encoding : Encoding}

/-! ## The network -/

/-- A message on its way between two nodes, which are named by their DIDs. -/
structure Envelope where
  sender : String
  recipient : String
  message : SigningMessage
  threadId : String
  connectionId : Option String

/-- The transport authenticates the sender. -/
def Envelope.inbound (e : Envelope) : InboundMessage :=
  ⟨e.message, e.threadId, some e.sender, true, e.connectionId⟩

/-- An acknowledgement of `signer` that completed a session of `coordinator`. -/
structure Completion where
  coordinator : String
  sessionId : String
  signer : String
  deriving DecidableEq

structure Net where
  nodes : String → Coordinator
  /-- All that was ever sent; a message of it may arrive any number of times, or never. -/
  sent : List Envelope
  /-- History: the partial signatures of a node's session, with the last one that reached it in
  `Signing`. -/
  signed : String → String → List String
  /-- History: the sessions that an acknowledgement completed and that were not made anew. -/
  completed : List Completion

open Signing.Net

def Net.start : Net := ⟨fun _ => .start, [], fun _ _ => [], []⟩

/-- What an application sends of its own accord: acknowledgements and combined signatures come from
the handlers. -/
def SigningMessage.fromApplication : SigningMessage → Bool
  | .ack _ => false
  | .combine _ => false
  | _ => true

/-- The response of a handler. -/
def responses : Except SigningProtocolError (Option OutboundMessage) → List Envelope
  | .ok (some out) => [⟨out.sender, out.recipient, out.message, out.threadId, out.connectionId⟩]
  | _ => []

/-- A partial signature that reaches a session in `Signing`, with those that the session has. -/
def signedAfter (message : SigningMessage) (before : Coordinator)
    (signed : String → List String) : String → List String :=
  match message with
  | .partialSignature body =>
    match before.storage body.sessionId with
    | some s =>
      match s.state, s.withSignature body.signerDid body.signature with
      | .signing, .ok t => update signed body.sessionId t.signatures
      | _, _ => signed
    | none => signed
  | _ => signed

def Coordinator.inState (c : Coordinator) (id : String) (state : SigningSessionState) : Prop :=
  ∃ s ∈ c.storage id, s.state = state

instance (c : Coordinator) (id : String) (state : SigningSessionState) :
    Decidable (c.inState id state) :=
  inferInstanceAs (Decidable (∃ s ∈ c.storage id, s.state = state))

/-- The completions, after a node handled a message. -/
def completedAfter (e : Envelope) (before after : Coordinator) (completed : List Completion) :
    List Completion :=
  match e.message with
  | .ack body =>
    if before.inState body.sessionId .distributing ∧ after.inState body.sessionId .completed then
      ⟨e.recipient, body.sessionId, e.sender⟩ :: completed
    else completed
  | _ =>
    if e.message.makesSession then
      completed.filter fun z =>
        !decide (z.coordinator = e.recipient ∧ e.message.sessionId = some z.sessionId)
    else completed

/-- A node has handled a message. -/
def Net.handled (x : Net) (e : Envelope)
    (r : Except SigningProtocolError (Option OutboundMessage)) (c : Coordinator) : Net where
  nodes := update x.nodes e.recipient c
  sent := x.sent ++ responses r
  signed := update x.signed e.recipient
    (signedAfter e.message (x.nodes e.recipient) (x.signed e.recipient))
  completed := completedAfter e (x.nodes e.recipient) c x.completed

inductive NetStep where
  | send (e : Envelope)
  /-- The `n`th message arrives. -/
  | deliver (n : ℕ) (inputs : List Bool)

def netStep (encoding : Encoding) (x : Net) : NetStep → Option Net
  | .send e => if e.message.fromApplication then some { x with sent := x.sent ++ [e] } else none
  | .deliver n inputs =>
    match x.sent[n]? with
    | none => none
    | some e =>
      match (handle encoding e.recipient e.inbound).run inputs (x.nodes e.recipient) with
      | none => none
      | some (r, c, _) => some (x.handled e r c)

/-! ## The property -/

/-- **Completion means the signer has the result**: a session that an acknowledgement completed has
a combined signature, and the signer's own session has the same one. -/
def CompletionKnown (x : Net) : Prop :=
  ∀ z ∈ x.completed, ∃ s s', (x.nodes z.coordinator).storage z.sessionId = some s ∧
    (x.nodes z.signer).storage z.sessionId = some s' ∧ s.state = .completed ∧
    s.combinedSignature.isSome = true ∧ s'.combinedSignature = s.combinedSignature

def SigningMessage.acknowledges : SigningMessage → Option String
  | .ack body => some body.sessionId
  | _ => none

/-- States of a session that has gone all the way from `Signing`. -/
def SigningSessionState.distributed : SigningSessionState → Bool
  | .distributing => true
  | .completed => true
  | _ => false

/-- An acknowledgement that reaches a session in `Distributing` is of a signer whose own session
has left `Signing` with the same partial signatures; and no signer makes its session anew after its
acknowledgement completed the coordinator's. -/
def AcksInformed (x : Net) : NetStep → Prop
  | .send _ => True
  | .deliver n _ => ∀ e ∈ x.sent[n]?,
      (∀ id ∈ e.message.acknowledges, (x.nodes e.recipient).inState id .distributing →
        (∃ s ∈ (x.nodes e.sender).storage id, s.state.distributed = true) ∧
          x.signed e.sender id = x.signed e.recipient id) ∧
      (e.message.makesSession = true → ∀ z ∈ x.completed,
        ¬ (z.signer = e.recipient ∧ e.message.sessionId = some z.sessionId))

instance (x : Net) (a : NetStep) : Decidable (AcksInformed x a) :=
  match a with
  | .send _ => isTrue trivial
  | .deliver n _ => inferInstanceAs (Decidable (∀ e ∈ x.sent[n]?, _ ∧ _))

/-! ## What a handler does to a combined session -/

/-- Edits of a script other than creations keep a combined signature, once signing is over. -/
structure Kept (s t : SigningSession) : Prop where
  combined : t.combinedSignature = s.combinedSignature
  after : t.state.afterSigning = true
  completed : s.state = .completed → t.state = .completed

section

variable {ourDid : String} {P : Bool → Prop} {c c' : Coordinator} {inbound : InboundMessage}
  {id : String}

theorem canTransitionTo_of_afterSigning {a : SigningSessionState} (ha : a.afterSigning = true) :
    a.canTransitionTo .combining = false := by
  cases a <;> first | rfl | cases ha

theorem afterSigning_of_distributed {a : SigningSessionState} (ha : a.distributed = true) :
    a.afterSigning = true := by
  cases a <;> first | rfl | cases ha

theorem Kept.apply {edit : SessionEdit} {s t u : SigningSession} (h : Kept s t)
    (hedit : ∀ new, edit ≠ .create new) (hcombine : edit ≠ .combine)
    (hu : edit.apply encoding ourDid (some t) = some u) : Kept s u := by
  cases edit with
  | create new => exact absurd rfl (hedit new)
  | consent signerDid keyBinding | sign signerDid signature =>
    obtain ⟨participants, _, rfl⟩ := map_participants_eq_ok (eq_ok_of_toOption hu)
    exact ⟨h.combined, h.after, h.completed⟩
  | move state =>
    obtain ⟨hcan, rfl⟩ := withState_eq_ok (eq_ok_of_toOption hu)
    refine ⟨h.combined, afterSigning_of_reflTransGen (.single hcan) h.after, fun hs => ?_⟩
    rw [SigningSessionState.canTransitionTo_of_isTerminal (by rw [h.completed hs]; rfl)] at hcan
    cases hcan
  | combine => exact absurd rfl hcombine

theorem Kept.edits {edits : List SessionEdit} {s t : SigningSession} {y : Option SigningSession}
    (h : Kept s t) (hedits : Edits encoding ourDid (some t) edits y)
    (hcreate : ∀ edit ∈ edits, ∀ new, edit ≠ .create new)
      (hcombine : ∀ edit ∈ edits, edit ≠ .combine) :
    ∃ u, y = some u ∧ Kept s u := by
  refine hedits.invariant (Q := fun x => ∃ u, x = some u ∧ Kept s u) ⟨t, rfl, h⟩
    fun edit hmem x u hx hu => ?_
  obtain ⟨t', rfl, ht'⟩ := hx
  exact ⟨u, rfl, ht'.apply (hcreate edit hmem) (hcombine edit hmem) hu⟩

theorem script_no_combine {s : SigningSession} {edits : List SessionEdit}
    {y : Option SigningSession} (hscript : Script encoding ourDid inbound (some s) edits)
    (hedits : Edits encoding ourDid (some s) edits y) (hafter : s.state.afterSigning = true)
    (hmakes : inbound.message.makesSession = false) : ∀ edit ∈ edits, edit ≠ .combine := by
  unfold Script at hscript
  split at hscript
  · next hbody => rw [hbody] at hmakes; cases hmakes
  · next hbody => rw [hbody] at hmakes; cases hmakes
  · intro edit hmem
    have hmem' := hscript.1.subset hmem
    simp only [mem_cons, not_mem_nil, or_false] at hmem'
    rcases hmem' with rfl | rfl | rfl <;> simp
  · next body hbody =>
    -- the transition to `Combining` that comes first is not possible any more
    cases hedits with
    | nil => simp
    | @cons _ _ t edit rest happly hrest =>
      obtain ⟨rfl, hscripted⟩ := cons_prefix_cons.1 hscript.1
      obtain ⟨participants, _, rfl⟩ := map_participants_eq_ok (eq_ok_of_toOption happly)
      cases hrest with
      | nil => simp
      | @cons _ _ u edit rest happly hrest =>
        obtain ⟨rfl, _⟩ := cons_prefix_cons.1 hscripted
        obtain ⟨hcan, _⟩ := withState_eq_ok (eq_ok_of_toOption happly)
        rw [canTransitionTo_of_afterSigning hafter] at hcan
        cases hcan
  · intro edit hmem
    have hmem' := hscript.1.subset hmem
    simp only [mem_cons, not_mem_nil, or_false] at hmem'
    simp [hmem']
  iterate 2
    intro edit hmem
    have hmem' := hscript.subset hmem
    simp only [mem_cons, not_mem_nil, or_false] at hmem'
    simp [hmem']
  · subst hscript
    simp

/-- **A session that was combined keeps its signature**, unless it is made anew. -/
theorem kept_of_handled {s : SigningSession} (h : Handled encoding ourDid inbound c c')
    (hs : c.storage id = some s) (hafter : s.state.afterSigning = true)
    (hmakes : inbound.message.sessionId = some id → inbound.message.makesSession = false) :
    ∃ t, c'.storage id = some t ∧ Kept s t := by
  rcases h with rfl | ⟨id', sender, hid, _, _, edits, hscript, hdoes⟩
  · exact ⟨s, hs, rfl, hafter, fun h => h⟩
  by_cases heq : id = id'
  · subst heq
    have hedits := hdoes.edits
    rw [hs] at hscript hedits
    have hstart : Kept s s := ⟨rfl, hafter, fun h => h⟩
    exact hstart.edits hedits (script_no_create hscript (hmakes hid))
      (script_no_combine hscript hedits hafter (hmakes hid))
  · exact ⟨s, (hdoes.others id heq).trans hs, rfl, hafter, fun h => h⟩

/-! ## How a session comes to be combined -/

variable {s t : SigningSession} {edits : List SessionEdit}

theorem not_distributed_of_edits {x y : Option SigningSession}
    (hedits : Edits encoding ourDid x edits y) (hx : ∀ s ∈ x, s.state.distributed = false)
    (hmoves : ∀ state, .move state ∈ edits → state.distributed = false) :
    ∀ t ∈ y, t.state.distributed = false := by
  refine hedits.invariant (Q := fun x => ∀ s ∈ x, s.state.distributed = false) hx
    fun edit hmem x t hx ht u hu => ?_
  cases hu
  cases x with
  | none =>
    cases edit with
    | create new => cases ht; rfl
    | _ => cases ht
  | some s =>
    cases edit with
    | create new => cases ht; rfl
    | consent signerDid keyBinding | sign signerDid signature =>
      obtain ⟨_, _, rfl⟩ := map_participants_eq_ok (eq_ok_of_toOption ht)
      exact hx s rfl
    | move state =>
      obtain ⟨_, rfl⟩ := withState_eq_ok (eq_ok_of_toOption ht)
      exact hmoves state hmem
    | combine =>
      rw [withCombined_eq_ok (eq_ok_of_toOption ht)]
      exact hx s rfl

/-- Only a partial signature, or the acknowledgement of a session in `Distributing`, leads to
`Distributing` or `Completed`. -/
theorem moves_of_script {before : Option SigningSession}
    (hscript : Script encoding ourDid inbound before edits)
    (hother : ∀ body, inbound.message ≠ .partialSignature body)
    (hbefore : ∀ s ∈ before, s.state.distributed = false) :
    ∀ state, .move state ∈ edits → state.distributed = false := by
  intro state hmem
  unfold Script at hscript
  split at hscript
  · have hmem' := hscript.subset hmem
    simp at hmem'
  · have hmem' := hscript.subset hmem
    simp only [mem_cons, reduceCtorEq, SessionEdit.move.injEq, not_mem_nil, or_false,
      false_or] at hmem'
    rw [hmem']
    rfl
  · have hmem' := hscript.1.subset hmem
    simp only [mem_cons, reduceCtorEq, SessionEdit.move.injEq, not_mem_nil, or_false,
      false_or] at hmem'
    rcases hmem' with rfl | rfl <;> rfl
  · next body hbody => exact absurd hbody (hother body)
  · obtain ⟨s, rfl, hstate⟩ := hscript.2 (ne_nil_of_mem hmem)
    have hnot := hbefore s rfl
    rw [hstate] at hnot
    cases hnot
  · have hmem' := hscript.subset hmem
    simp only [mem_cons, SessionEdit.move.injEq, not_mem_nil, or_false] at hmem'
    rw [hmem']
    rfl
  · have hmem' := hscript.subset hmem
    simp only [mem_cons, SessionEdit.move.injEq, not_mem_nil, or_false] at hmem'
    rw [hmem']
    rfl
  · subst hscript
    cases hmem

theorem not_distributed_of_made {x y : Option SigningSession}
    (hscript : Script encoding ourDid inbound x edits)
    (hmakes : inbound.message.makesSession = true) (hedits : Edits encoding ourDid x edits y) :
    edits = [] ∨ ∀ t ∈ y, t.state.distributed = false := by
  have hsteps : ∃ new, edits <+: [.create new, .move .requested] := by
    unfold Script at hscript
    split at hscript
    · exact ⟨_, hscript.trans ⟨[.move .requested], rfl⟩⟩
    · exact ⟨_, hscript⟩
    all_goals
      next hbody =>
        first
        | rw [hbody] at hmakes
          cases hmakes
        | unfold SigningMessage.makesSession at hmakes
          split at hmakes <;> simp_all
  obtain ⟨new, hsteps⟩ := hsteps
  cases hedits with
  | nil => exact .inl rfl
  | @cons _ _ u edit rest happly hrest =>
    obtain ⟨rfl, hrest'⟩ := cons_prefix_cons.1 hsteps
    obtain rfl : new.session ourDid = u := by cases x <;> exact some.inj happly
    refine .inr (not_distributed_of_edits hrest (fun s hs => by cases hs; rfl) fun state hmem => ?_)
    cases mem_singleton.1 (hrest'.subset hmem)
    rfl

/-- A partial signature that leads a session to `Distributing` goes through all its edits. -/
theorem combined_of_edits {signerDid signature : String}
    (hsteps : edits <+: [.sign signerDid signature, .move .combining, .combine,
      .move .distributing])
    (hedits : Edits encoding ourDid (some s) edits (some t)) (hs : s.state.distributed = false)
    (ht : t.state.distributed = true) :
    s.state = .signing ∧ ∃ u, s.withSignature signerDid signature = .ok u ∧
      t.combinedSignature = some (encoding.encodeArray u.signatures) := by
  cases hedits with
  | nil =>
    rw [hs] at ht
    cases ht
  | @cons _ _ u edit rest happly hrest =>
    obtain ⟨rfl, hsteps₁⟩ := cons_prefix_cons.1 hsteps
    have hsign := eq_ok_of_toOption happly
    have hstate : u.state = s.state := by
      obtain ⟨participants, _, rfl⟩ := map_participants_eq_ok hsign
      rfl
    cases hrest with
    | nil =>
      rw [hstate, hs] at ht
      cases ht
    | @cons _ _ v edit rest happly₁ hrest₁ =>
      obtain ⟨rfl, hsteps₂⟩ := cons_prefix_cons.1 hsteps₁
      obtain ⟨hcan, rfl⟩ := withState_eq_ok (eq_ok_of_toOption happly₁)
      have hsigning : s.state = .signing := by
        rw [hstate] at hcan
        cases hs' : s.state <;> rw [hs'] at hcan <;> first | rfl | cases hcan
      cases hrest₁ with
      | nil => cases ht
      | @cons _ _ w edit rest happly₂ hrest₂ =>
        obtain ⟨rfl, hsteps₃⟩ := cons_prefix_cons.1 hsteps₂
        have hcombined := withCombined_eq_ok (eq_ok_of_toOption happly₂)
        cases hrest₂ with
        | nil =>
          rw [hcombined] at ht
          cases ht
        | @cons _ _ x edit rest happly₃ hrest₃ =>
          obtain ⟨rfl, hsteps₄⟩ := cons_prefix_cons.1 hsteps₃
          obtain rfl := prefix_nil.1 hsteps₄
          obtain ⟨_, rfl⟩ := withState_eq_ok (eq_ok_of_toOption happly₃)
          cases hrest₃
          refine ⟨hsigning, u, hsign, ?_⟩
          show w.combinedSignature = _
          rw [hcombined]
          rfl

/-- **How a session comes to be combined**: it was, and has the same signature; or it was in
`Signing`, and the message is the partial signature that completes it. -/
theorem combined_of_handled (h : Handled encoding ourDid inbound c c')
    (ht : c'.storage id = some t) (hdist : t.state.distributed = true) :
    (∃ s, c.storage id = some s ∧ s.state.distributed = true ∧
      t.combinedSignature = s.combinedSignature) ∨
    ∃ body s u, inbound.message = .partialSignature body ∧ body.sessionId = id ∧
      c.storage id = some s ∧ s.state = .signing ∧
      s.withSignature body.signerDid body.signature = .ok u ∧
      t.combinedSignature = some (encoding.encodeArray u.signatures) := by
  by_cases hbefore : ∀ s ∈ c.storage id, s.state.distributed = false
  · right
    rcases h with rfl | ⟨id', sender, hid, _, _, edits, hscript, hdoes⟩
    · rw [hbefore t ht] at hdist
      cases hdist
    by_cases heq : id = id'
    · subst heq
      have hedits := hdoes.edits
      rw [ht] at hedits
      by_cases hother : ∃ body, inbound.message = .partialSignature body
      · obtain ⟨body, hbody⟩ := hother
        simp only [Script, hbody] at hscript
        obtain ⟨hsteps, hcheck, _⟩ := hscript
        have hne : edits ≠ [] := by
          rintro rfl
          generalize c.storage id = before at hbefore hedits
          cases hedits
          rw [hbefore t rfl] at hdist
          cases hdist
        obtain ⟨_, s, hs, _⟩ := hcheck hne
        rw [hs] at hedits
        obtain ⟨hsigning, u, hu, hcombined⟩ :=
          combined_of_edits hsteps hedits (hbefore s hs) hdist
        rw [hbody] at hid
        exact ⟨body, s, u, hbody, some.inj hid, hs, hsigning, hu, hcombined⟩
      · have hnot := not_distributed_of_edits hedits hbefore
          (moves_of_script hscript (fun body hbody => hother ⟨body, hbody⟩) hbefore) t rfl
        rw [hnot] at hdist
        cases hdist
    · rw [hbefore t ((hdoes.others id heq).symm.trans ht)] at hdist
      cases hdist
  · left
    push Not at hbefore
    obtain ⟨s, hs, hsdist⟩ := hbefore
    have hsdist : s.state.distributed = true := by simpa using hsdist
    refine ⟨s, hs, hsdist, ?_⟩
    by_cases hmakes : inbound.message.sessionId = some id → inbound.message.makesSession = false
    · obtain ⟨t', ht', hkept⟩ := kept_of_handled h hs (afterSigning_of_distributed hsdist) hmakes
      cases ht.symm.trans ht'
      exact hkept.combined
    · rw [Classical.not_imp, Bool.not_eq_false] at hmakes
      rcases h with rfl | ⟨id', sender, hid, _, _, edits, hscript, hdoes⟩
      · cases hs.symm.trans ht
        rfl
      obtain rfl : id = id' := some.inj (hmakes.1.symm.trans hid)
      have hedits := hdoes.edits
      rcases not_distributed_of_made hscript hmakes.2 hedits with rfl | hnot
      · rw [hs, ht] at hedits
        cases hedits
        rfl
      · rw [hnot t ht] at hdist
        cases hdist

end

/-! ## Every run -/

/-- What the history variables say of the nodes. -/
structure NetInv (encoding : Encoding) (x : Net) : Prop where
  ok : ∀ node, (x.nodes node).Ok
  signed : ∀ node id s, (x.nodes node).storage id = some s → s.state.distributed = true →
    s.combinedSignature = some (encoding.encodeArray (x.signed node id))
  completed : ∀ z ∈ x.completed, ∃ s s', (x.nodes z.coordinator).storage z.sessionId = some s ∧
    (x.nodes z.signer).storage z.sessionId = some s' ∧ s.state = .completed ∧
    s'.state.afterSigning = true ∧ s.combinedSignature.isSome = true ∧
    s'.combinedSignature = s.combinedSignature

theorem netInv_start : NetInv encoding .start where
  ok _ := ok_start
  signed _ _ _ h := by cases h
  completed _ h := by cases h

theorem NetInv.known {x : Net} (h : NetInv encoding x) : CompletionKnown x := by
  intro z hz
  obtain ⟨s, s', hs, hs', hstate, _, hsome, hsame⟩ := h.completed z hz
  exact ⟨s, s', hs, hs', hstate, hsome, hsame⟩

theorem signedAfter_eq {message : SigningMessage} {before : Coordinator}
    {signed : String → List String} {id : String} {s : SigningSession}
    (hs : before.storage id = some s) (hstate : s.state ≠ .signing) :
    signedAfter message before signed id = signed id := by
  cases message with
  | partialSignature body =>
    cases hs' : before.storage body.sessionId with
    | none => simp only [signedAfter, hs']
    | some s' =>
      cases hsign : s'.withSignature body.signerDid body.signature with
      | error e => cases hstate' : s'.state <;> simp only [signedAfter, hs', hstate', hsign]
      | ok t =>
        cases hstate' : s'.state with
        | signing =>
          simp only [signedAfter, hs', hstate', hsign]
          refine update_of_ne ?_ _ _
          rintro rfl
          obtain rfl : s' = s := some.inj (hs'.symm.trans hs)
          exact hstate hstate'
        | _ => simp only [signedAfter, hs', hstate', hsign]
  | _ => rfl

theorem mem_completedAfter {e : Envelope} {before after : Coordinator}
    {completed : List Completion} {z : Completion}
    (h : z ∈ completedAfter e before after completed) :
    (z ∈ completed ∧ (z.coordinator = e.recipient → e.message.sessionId = some z.sessionId →
        e.message.makesSession = false)) ∨
      (z.coordinator = e.recipient ∧ z.signer = e.sender ∧
        e.message.acknowledges = some z.sessionId ∧ before.inState z.sessionId .distributing ∧
        after.inState z.sessionId .completed) := by
  unfold completedAfter at h
  split at h
  · next body hbody =>
    have hmakes : e.message.makesSession = false := by rw [hbody]; rfl
    split at h
    · next hstates =>
      rcases mem_cons.1 h with rfl | h
      · exact .inr ⟨rfl, rfl, by rw [hbody]; rfl, hstates.1, hstates.2⟩
      · exact .inl ⟨h, fun _ _ => hmakes⟩
    · exact .inl ⟨h, fun _ _ => hmakes⟩
  · split at h
    · obtain ⟨hz, hother⟩ := mem_filter.1 h
      refine .inl ⟨hz, fun hcoordinator hid => ?_⟩
      simp [hcoordinator, hid] at hother
    · next hmakes => exact .inl ⟨h, fun _ _ => by simpa using hmakes⟩

section

variable {x : Net} {e : Envelope} {r : Except SigningProtocolError (Option OutboundMessage)}
  {c : Coordinator} {P : Bool → Prop}

theorem NetInv.kept (h : NetInv encoding x)
    (hends : (handle encoding e.recipient e.inbound).Ends P (x.nodes e.recipient) r c)
    {node id : String} {s : SigningSession} (hs : (x.nodes node).storage id = some s)
    (hafter : s.state.afterSigning = true)
    (hmakes : node = e.recipient → e.message.sessionId = some id → e.message.makesSession = false) :
    ∃ t, ((x.handled e r c).nodes node).storage id = some t ∧ Kept s t := by
  by_cases hnode : node = e.recipient
  · subst hnode
    simp only [handled, update_self]
    exact kept_of_handled (handled_handle (h.ok e.recipient) hends) hs hafter (hmakes rfl)
  · simp only [handled, update_of_ne hnode]
    exact ⟨s, hs, rfl, hafter, fun h => h⟩

/-- **The partial signatures** that reached a session are those of its combined signature. -/
theorem NetInv.signed_deliver (h : NetInv encoding x)
    (hends : (handle encoding e.recipient e.inbound).Ends P (x.nodes e.recipient) r c)
    {node id : String} {t : SigningSession}
    (ht : ((x.handled e r c).nodes node).storage id = some t) (hdist : t.state.distributed = true) :
    t.combinedSignature = some (encoding.encodeArray ((x.handled e r c).signed node id)) := by
  by_cases hnode : node = e.recipient
  · subst hnode
    simp only [handled, update_self] at ht ⊢
    rcases combined_of_handled (handled_handle (h.ok e.recipient) hends) ht hdist with
      ⟨s, hs, hsdist, hsame⟩ | ⟨body, s, u, hbody, rfl, hs, hstate, hu, hcombined⟩
    · rw [hsame, h.signed _ _ s hs hsdist, signedAfter_eq hs]
      rintro hsigning
      rw [hsigning] at hsdist
      cases hsdist
    · change e.message = _ at hbody
      rw [hcombined]
      simp only [signedAfter, hbody, hs, hstate, hu, update_self]
  · simp only [handled, update_of_ne hnode] at ht ⊢
    exact h.signed node id t ht hdist

theorem NetInv.deliver (h : NetInv encoding x)
    (hends : (handle encoding e.recipient e.inbound).Ends P (x.nodes e.recipient) r c)
    (hacks : ∀ id ∈ e.message.acknowledges, (x.nodes e.recipient).inState id .distributing →
      (∃ s ∈ (x.nodes e.sender).storage id, s.state.distributed = true) ∧
        x.signed e.sender id = x.signed e.recipient id)
    (hmakes : e.message.makesSession = true → ∀ z ∈ x.completed,
      ¬ (z.signer = e.recipient ∧ e.message.sessionId = some z.sessionId)) :
    NetInv encoding (x.handled e r c) := by
  refine ⟨fun node => ?_, fun node id t => h.signed_deliver hends, fun z hz => ?_⟩
  · by_cases hnode : node = e.recipient
    · subst hnode
      simp only [handled, update_self]
      exact (handled_handle (h.ok _) hends).ok (h.ok _)
    · simp only [handled, update_of_ne hnode]
      exact h.ok node
  rcases mem_completedAfter hz with ⟨hz, hcoordinator⟩ | ⟨hcoordinator, hsigner, hack, hdist,
    hcompleted⟩
  · obtain ⟨s, s', hs, hs', hstate, hafter, hsome, hsame⟩ := h.completed z hz
    have hsigner : z.signer = e.recipient → e.message.sessionId = some z.sessionId →
        e.message.makesSession = false := by
      intro hz' hid
      by_contra hmade
      exact hmakes (by simpa using hmade) z hz ⟨hz', hid⟩
    obtain ⟨t, ht, hkept⟩ := h.kept hends hs (by rw [hstate]; rfl) hcoordinator
    obtain ⟨t', ht', hkept'⟩ := h.kept hends hs' hafter hsigner
    exact ⟨t, t', ht, ht', hkept.completed hstate, hkept'.after,
      by rw [hkept.combined]; exact hsome,
      hkept'.combined.trans (hsame.trans hkept.combined.symm)⟩
  · -- both sessions were combined from the same partial signatures
    have hnot : e.message.makesSession = false := by
      cases hm : e.message <;> rw [hm] at hack <;> first | rfl | cases hack
    obtain ⟨⟨s', hs', hsdist⟩, hsigned⟩ := hacks z.sessionId hack hdist
    obtain ⟨s, hs, hstate⟩ := hdist
    have hcombined := h.signed _ _ s hs (by rw [hstate]; rfl)
    have hcombined' := h.signed _ _ s' hs' hsdist
    obtain ⟨t, ht, hkept⟩ := h.kept hends hs (by rw [hstate]; rfl) fun _ _ => hnot
    obtain ⟨t', ht', hkept'⟩ := h.kept hends hs' (afterSigning_of_distributed hsdist) fun _ _ =>
      hnot
    rw [hcoordinator, hsigner]
    obtain ⟨t₁, ht₁, hdone⟩ := hcompleted
    obtain rfl : t₁ = t := by
      simp only [handled, update_self] at ht
      exact some.inj (ht₁.symm.trans ht)
    refine ⟨t₁, t', ht, ht', hdone, hkept'.after, by rw [hkept.combined, hcombined]; rfl, ?_⟩
    rw [hkept'.combined, hkept.combined, hcombined, hcombined', hsigned]

end

theorem NetInv.step {x y : Net} {a : NetStep} (h : NetInv encoding x) (hG : AcksInformed x a)
    (hstep : netStep encoding x a = some y) : NetInv encoding y := by
  cases a with
  | send e =>
    simp only [netStep] at hstep
    split at hstep
    · cases hstep
      exact ⟨h.ok, h.signed, h.completed⟩
    · cases hstep
  | deliver n inputs =>
    simp only [netStep] at hstep
    split at hstep
    · cases hstep
    next e he =>
    split at hstep
    · cases hstep
    next r c rest hrun =>
    cases hstep
    obtain ⟨hacks, hmakes⟩ := hG e he
    exact h.deliver (P := fun _ => True) ⟨inputs, rest, fun _ _ => trivial, hrun⟩ hacks hmakes

/-- **Completion means the signer has the result**, where acknowledgements are informed. -/
theorem completionKnown_of_acksInformed (encoding : Encoding) (l : List NetStep) (x : Net)
    (h : exec (netStep encoding) .start l = some x)
    (hG : Along (netStep encoding) AcksInformed .start l) : CompletionKnown x :=
  (exec_invariant_along (fun _ _ _ hx hG hstep => hx.step hG hstep) netInv_start hG h).known

namespace Sample

def envelope (sender recipient : String) (message : SigningMessage) : NetStep :=
  .send ⟨sender, recipient, message, "t", none⟩

def arrives (n : ℕ) : NetStep := .deliver n (replicate 30 true)

/-- `A` signs at the coordinator `C` and at itself, gets the combined signature of `C` and
acknowledges it. -/
def informedRun : List NetStep :=
  [envelope "P" "C" (.requestSigning request), envelope "P" "A" (.requestSigning request),
    envelope "A" "C" (.consent (consent "A")), envelope "A" "A" (.consent (consent "A")),
    envelope "A" "C" (.partialSignature (signature "A" 1)),
    envelope "A" "A" (.partialSignature (signature "A" 1))] ++
  [arrives 0, arrives 1, arrives 2, arrives 3, arrives 4, arrives 5, arrives 6, arrives 8]

/-- `B` signs at the coordinator `C`, gets the combined signature and acknowledges it. -/
def ackRun : List NetStep :=
  [envelope "P" "C" (.requestSigning request), envelope "P" "B" (.requestSigning request),
    envelope "B" "C" (.consent (consent "B")),
    envelope "B" "C" (.partialSignature (signature "B" 2))] ++
  [arrives 0, arrives 1, arrives 2, arrives 3, arrives 4, arrives 5]

end Sample

open Sample in
/-- A signer that combined the signature itself, and is served with it. -/
theorem completionKnown_of_acksInformed_informedRun :
    ∃ x, exec (netStep base64) .start informedRun = some x ∧
      x.completed = [⟨"C", "s", "A"⟩] ∧ CompletionKnown x := by
  have hcompleted : ((exec (netStep base64) .start informedRun).any fun x =>
      decide (x.completed = [⟨"C", "s", "A"⟩])) = true := by decide +kernel
  obtain ⟨x, hexec, hcompleted⟩ := (any_eq_true _ _).1 hcompleted
  exact ⟨x, hexec, of_decide_eq_true hcompleted,
    completionKnown_of_acksInformed base64 informedRun x hexec (by decide +kernel)⟩

open Sample in
/-- The signer handled the combined signature and did not keep it. -/
theorem completionKnown_fails_ackRun :
    ∃ x, exec (netStep base64) .start ackRun = some x ∧ ¬ CompletionKnown x := by
  have hcompleted : ((exec (netStep base64) .start ackRun).any fun x =>
      decide (x.completed = [⟨"C", "s", "B"⟩]) && ((x.nodes "B").storage "s").all fun s =>
        s.combinedSignature.isNone) = true := by decide +kernel
  obtain ⟨x, hexec, hcompleted⟩ := (any_eq_true _ _).1 hcompleted
  rw [Bool.and_eq_true, decide_eq_true_eq] at hcompleted
  obtain ⟨hcompleted, hnone⟩ := hcompleted
  refine ⟨x, hexec, fun h => ?_⟩
  obtain ⟨s, s', _, hs', _, hsome, hsame⟩ := h ⟨"C", "s", "B"⟩ (by rw [hcompleted]; simp)
  rw [hs', all_some] at hnone
  rw [← hsame] at hsome
  simp_all

end Idiom.Signing
