import Idiom.Signing.Handler

/-!
# What a handler does to its session

Handled one at a time, messages find the cache and the storage alike. A handler changes the
session it names only, by a few edits in a fixed order; it may stop after any of them.
-/

namespace Idiom.Signing

open Function SigningSession List Prog.Ends Prog

variable {encoding : Encoding} {ourDid : String}

/-! ## Edits -/

/-- A write to a session. -/
inductive SessionEdit where
  | create (new : NewSession)
  | consent (signerDid : String) (keyBinding : KeyBinding)
  | sign (signerDid signature : String)
  | move (state : SigningSessionState)
  | combine

/-- The session after an edit, if the edit goes through. -/
def SessionEdit.apply (encoding : Encoding) (ourDid : String) :
    SessionEdit → Option SigningSession → Option SigningSession
  | .create new, _ => some (new.session ourDid)
  | .consent signerDid keyBinding, some s => (s.withConsent signerDid keyBinding).toOption
  | .sign signerDid signature, some s => (s.withSignature signerDid signature).toOption
  | .move state, some s => (s.withState state).toOption
  | .combine, some s => (s.withCombined encoding).toOption
  | _, none => none

/-- The edits lead from the first session to the second. -/
inductive Edits (encoding : Encoding) (ourDid : String) :
    Option SigningSession → List SessionEdit → Option SigningSession → Prop where
  | nil (s : Option SigningSession) : Edits encoding ourDid s [] s
  | cons {s t : Option SigningSession} {u : SigningSession} {edit : SessionEdit}
      {l : List SessionEdit} (h : edit.apply encoding ourDid s = some u)
      (hl : Edits encoding ourDid (some u) l t) : Edits encoding ourDid s (edit :: l) t

variable {s : Option SigningSession} {l : List SessionEdit}

theorem Edits.append {t u : Option SigningSession} {l' : List SessionEdit}
    (h : Edits encoding ourDid s l t) (h' : Edits encoding ourDid t l' u) :
    Edits encoding ourDid s (l ++ l') u := by
  induction h with
  | nil => exact h'
  | cons hedit _ ih => exact .cons hedit (ih h')

variable {edit : SessionEdit}

theorem Edits.one {t : SigningSession} (h : edit.apply encoding ourDid s = some t) :
    Edits encoding ourDid s [edit] (some t) :=
  .cons h (.nil _)

variable {t : Option SigningSession}

theorem Edits.apply_eq (h : Edits encoding ourDid s [edit] t) :
    edit.apply encoding ourDid s = t := by
  cases h with
  | cons hedit hl => cases hl; exact hedit

theorem Edits.invariant {Q : Option SigningSession → Prop} (h : Edits encoding ourDid s l t)
    (hs : Q s) (hstep : ∀ edit ∈ l, ∀ s t, Q s → edit.apply encoding ourDid s = some t → Q (some t))
    :
    Q t := by
  induction h with
  | nil => exact hs
  | cons hedit _ ih =>
    exact ih (hstep _ (by simp) _ _ hs hedit) fun edit hmem => hstep edit (by simp [hmem])

/-! ## Calls of the coordinator -/

/-- The cache has what the storage has, and sessions stand under their ids. -/
structure Coordinator.Ok (c : Coordinator) : Prop where
  mirror : c.sessions = c.storage
  keyed : ∀ id session, c.storage id = some session → session.sessionId = id

theorem ok_start : Coordinator.start.Ok :=
  ⟨rfl, fun id session h => by cases h⟩

/-- The edits were made to the session, and nothing else was done. -/
structure Does (encoding : Encoding) (ourDid : String) (id : String) (c : Coordinator)
    (l : List SessionEdit) (c' : Coordinator) : Prop where
  ok : c'.Ok
  edits : Edits encoding ourDid (c.storage id) l (c'.storage id)
  others : ∀ id', id' ≠ id → c'.storage id' = c.storage id'

variable {id : String}

theorem Does.refl {c : Coordinator} (hc : c.Ok) :
    Does encoding ourDid id c [] c := ⟨hc, .nil _, fun _ _ => rfl⟩

theorem Does.trans {c c' c'' : Coordinator} {l' : List SessionEdit}
    (h : Does encoding ourDid id c l c') (h' : Does encoding ourDid id c' l' c'') :
    Does encoding ourDid id c (l ++ l') c'' :=
  ⟨h'.ok, h.edits.append h'.edits, fun id' hid => (h'.others id' hid).trans (h.others id' hid)⟩

section

variable {P : Bool → Prop} {c c' : Coordinator} {id : String}

variable {call : CoordinatorCall}

theorem outcome_getSession {r : Except SigningProtocolError (Option SigningSession)} (hc : c.Ok)
    (h : (getSession call id).Ends P c r c') :
    Outcome c (fun found c' => found = c.storage id ∧ c' = c) r c' := by
  rcases ends_bind.1 h with ⟨e, h, _⟩ | ⟨cached, u, hcached, h₁⟩
  · cases (of_get h).1
  obtain ⟨hcached, rfl⟩ := of_get hcached
  cases hcached
  rw [hc.mirror] at h₁
  cases hstored : u.storage id with
  | some session =>
    rw [hstored] at h₁
    obtain ⟨hr, rfl⟩ := ends_done.1 h₁
    exact .inl ⟨_, hr, rfl, rfl⟩
  | none =>
    -- the cache has nothing because the storage has nothing
    rw [hstored] at h₁
    rcases ends_bind.1 h₁ with ⟨e, h, hr⟩ | ⟨found, v, hfound, h₂⟩
    · obtain ⟨ok, _, h⟩ := ends_access.1 h
      refine .inr ⟨⟨e, hr⟩, ?_⟩
      split at h
      · exact (ends_done.1 h).2
      · exact (ends_fail.1 h).2
    obtain ⟨ok, _, hfound⟩ := ends_access.1 hfound
    split at hfound
    · obtain ⟨hfound, rfl⟩ := ends_done.1 hfound
      rw [hstored] at hfound
      cases hfound
      obtain ⟨hr, rfl⟩ := ends_done.1 h₂
      exact .inl ⟨_, hr, rfl, rfl⟩
    · cases (ends_fail.1 hfound).1

theorem outcome_requireSession {r : Except SigningProtocolError SigningSession} (hc : c.Ok)
    (h : (requireSession call id).Ends P c r c') :
    Outcome c (fun session c' => c.storage id = some session ∧ c' = c) r c' := by
  rcases h.bind_outcome fun _ _ => outcome_getSession hc with h | ⟨found, u, ⟨rfl, rfl⟩, h₁⟩
  · exact .inr h
  cases hstored : u.storage id with
  | some session =>
    rw [hstored] at h₁
    obtain ⟨hr, rfl⟩ := ends_done.1 h₁
    exact .inl ⟨session, hr, rfl, rfl⟩
  | none =>
    rw [hstored] at h₁
    obtain ⟨hr, rfl⟩ := ends_fail.1 h₁
    exact .inr ⟨⟨_, hr⟩, rfl⟩

variable {r : Except SigningProtocolError Unit}

theorem ends_saveSession {session : SigningSession} (h : (saveSession call session).Ends P c r c') :
    (r = .ok () ∧ c' = c.storeSession session) ∨ ((∃ e, r = .error e) ∧ c' = c) := by
  obtain ⟨updated, _, h₁⟩ := ends_access.1 h
  cases updated with
  | true => exact .inl (ends_done.1 h₁)
  | false =>
    obtain ⟨saved, _, h₂⟩ := ends_access.1 h₁
    cases saved with
    | true => exact .inl (ends_done.1 h₂)
    | false =>
      obtain ⟨hr, hc⟩ := ends_fail.1 h₂
      exact .inr ⟨⟨_, hr⟩, hc⟩

theorem outcome_putSession {session : SigningSession} (hc : c.Ok) (hid : session.sessionId = id)
    (h : (putSession call id session).Ends P c r c') :
    Outcome c (fun _ c' => c'.Ok ∧ c'.storage = update c.storage id (some session)) r c' := by
  rcases ends_bind.1 h with ⟨e, h, hr⟩ | ⟨_, u, hsave, h₁⟩
  · rcases ends_saveSession h with ⟨h, _⟩ | ⟨_, rfl⟩
    · cases h
    · exact .inr ⟨⟨e, hr⟩, rfl⟩
  rcases ends_saveSession hsave with ⟨_, rfl⟩ | ⟨⟨_, h⟩, _⟩
  · obtain ⟨hr, rfl⟩ := of_modify h₁
    subst hid
    refine .inl ⟨_, hr, ⟨?_, fun id' session' h' => ?_⟩, rfl⟩
    · show update c.sessions _ _ = update c.storage _ _
      rw [hc.mirror]
    · change update c.storage _ _ id' = _ at h'
      by_cases heq : id' = session.sessionId
      · subst heq
        rw [update_self] at h'
        cases h'
        rfl
      · rw [update_of_ne heq] at h'
        exact hc.keyed id' session' h'
  · cases h

variable (encoding ourDid) in
theorem outcome_editSession (edit : SessionEdit)
    {f : SigningSession → Except SigningProtocolError SigningSession}
    {r : Except SigningProtocolError (SigningSession × SigningSession)} (hc : c.Ok)
    (hid : ∀ s t, f s = .ok t → t.sessionId = s.sessionId)
    (hedit : ∀ s t, f s = .ok t → edit.apply encoding ourDid (some s) = some t)
    (h : (editSession call id f).Ends P c r c') :
    Outcome c (fun p c' => c.storage id = some p.1 ∧ f p.1 = .ok p.2 ∧ c'.storage id = some p.2 ∧
      Does encoding ourDid id c [edit] c') r c' := by
  rcases h.bind_outcome fun _ _ => outcome_requireSession hc with h | ⟨s, u, ⟨hs, rfl⟩, h₁⟩
  · exact .inr h
  rcases h₁.bind_outcome fun _ _ => outcome_ofExcept with h | ⟨t, v, ⟨ht, rfl⟩, h₂⟩
  · exact .inr h
  have hname := (hid s t ht).trans (hc.keyed id s hs)
  rcases h₂.bind_outcome fun _ _ => outcome_putSession hc hname with
    h | ⟨_, w, ⟨hok, hstorage⟩, h₃⟩
  · exact .inr h
  obtain ⟨hr, rfl⟩ := ends_done.1 h₃
  refine .inl ⟨(s, t), hr, hs, ht, by rw [hstorage, update_self], hok, ?_,
    fun id' hid' => by rw [hstorage, update_of_ne hid']⟩
  rw [hs, hstorage, update_self]
  exact .one (hedit s t ht)

theorem ends_emit {event : SigningEvent} (h : (emit event).Ends P c r c') :
    r = .ok () ∧ c' = c := of_modify h

theorem ends_emitThresholdMet {required signedCount : UInt32}
    (h : (emitThresholdMet id required signedCount).Ends P c r c') : r = .ok () ∧ c' = c := by
  unfold emitThresholdMet at h
  split at h
  · exact ends_emit h
  · exact ends_done.1 h

theorem ends_emit_bind {α : Type} {event : SigningEvent} {f : Unit → Coord α}
    {r : Except SigningProtocolError α} (h : (emit event >>= f).Ends P c r c') :
    (f ()).Ends P c r c' := by
  rcases ends_bind.1 h with ⟨e, h, _⟩ | ⟨_, u, h, h₁⟩
  · cases (ends_emit h).1
  · obtain ⟨_, rfl⟩ := ends_emit h
    exact h₁

theorem ends_emitThresholdMet_bind {α : Type} {required signedCount : UInt32}
    {f : Unit → Coord α} {r : Except SigningProtocolError α}
    (h : (emitThresholdMet id required signedCount >>= f).Ends P c r c') :
    (f ()).Ends P c r c' := by
  rcases ends_bind.1 h with ⟨e, h, _⟩ | ⟨_, u, h, h₁⟩
  · cases (ends_emitThresholdMet h).1
  · obtain ⟨_, rfl⟩ := ends_emitThresholdMet h
    exact h₁

variable {t : SigningSession} {x : Except SigningProtocolError SigningSession}

theorem toOption_eq_some (h : x = .ok t) : x.toOption = some t := by
  rw [h]
  rfl

theorem eq_ok_of_toOption (h : x.toOption = some t) : x = .ok t := by
  cases x with
  | error e => cases h
  | ok s => cases h; rfl

variable {s : SigningSession}

theorem map_participants_eq_ok {x : Except SigningProtocolError (List SessionParticipant)}
    (h : x.map (fun participants => { s with participants := participants }) = .ok t) :
    ∃ participants, x = .ok participants ∧ t = { s with participants := participants } := by
  cases x with
  | error e => cases h
  | ok participants => cases h; exact ⟨participants, rfl, rfl⟩

theorem withState_eq_ok {state : SigningSessionState} (h : s.withState state = .ok t) :
    s.state.canTransitionTo state = true ∧ t = { s with state := state } := by
  unfold withState at h
  split at h
  · next hcan => cases h; exact ⟨hcan, rfl⟩
  · cases h

theorem withCombined_eq_ok (h : s.withCombined encoding = .ok t) :
    t = { s with combinedSignature := some (encoding.encodeArray s.signatures) } := by
  unfold withCombined at h
  split at h
  · cases h
  · cases h; rfl

theorem signedCount_withSignature {before after : List SessionParticipant}
    {p q : SessionParticipant} (hs : s.participants = before ++ p :: after) (hp : p.signed = false)
    (hq : q.signed = true) :
    ({ s with participants := before ++ q :: after } : SigningSession).signedCount =
      s.signedCount + 1 := by
  simp only [signedCount, hs, filter_append, filter_cons, hp, hq]
  simp
  omega

variable (encoding ourDid) in
theorem outcome_transitionState {state : SigningSessionState}
    {r : Except SigningProtocolError SigningSession} (hc : c.Ok)
    (h : (transitionState id state).Ends P c r c') :
    Outcome c (fun _ c' => Does encoding ourDid id c [.move state] c') r c' := by
  rcases h.bind_outcome fun _ _ => outcome_editSession encoding ourDid (.move state) hc
    (fun s t h => by rw [(withState_eq_ok h).2]) (fun s t h => toOption_eq_some h) with
    h | ⟨⟨s, t⟩, u, ⟨_, _, _, hdoes⟩, h₁⟩
  · exact .inr h
  dsimp only at h₁
  have h₂ := ends_emit_bind h₁
  obtain ⟨hr, rfl⟩ := ends_done.1 h₂
  exact .inl ⟨t, hr, hdoes⟩

variable (encoding ourDid) in
theorem outcome_acceptConsent {signerDid : String} {keyBinding : KeyBinding}
    {r : Except SigningProtocolError Bool} (hc : c.Ok)
    (h : (acceptConsent id signerDid keyBinding).Ends P c r c') :
    Outcome c (fun _ c' => Does encoding ourDid id c [.consent signerDid keyBinding] c') r c' := by
  rcases h.bind_outcome fun _ _ => outcome_editSession encoding ourDid
    (.consent signerDid keyBinding) hc
    (fun s t h => by obtain ⟨_, _, rfl⟩ := map_participants_eq_ok h; rfl)
    (fun s t h => toOption_eq_some h) with h | ⟨⟨s, t⟩, u, ⟨_, _, _, hdoes⟩, h₁⟩
  · exact .inr h
  dsimp only at h₁
  have h₂ := ends_emit_bind h₁
  obtain ⟨hr, rfl⟩ := ends_done.1 h₂
  exact .inl ⟨_, hr, hdoes⟩

variable (encoding ourDid) in
theorem outcome_acceptPartialSignature {signerDid signature : String}
    {r : Except SigningProtocolError Bool} (hc : c.Ok)
    (h : (acceptPartialSignature id signerDid signature).Ends P c r c') :
    Outcome c (fun reached c' => (∃ t, c'.storage id = some t ∧
        reached = decide (t.requiredSignatures ≤ UInt32.ofNat t.signedCount)) ∧
      Does encoding ourDid id c [.sign signerDid signature] c') r c' := by
  rcases h.bind_outcome fun _ _ => outcome_editSession encoding ourDid
    (.sign signerDid signature) hc
    (fun s t h => by obtain ⟨_, _, rfl⟩ := map_participants_eq_ok h; rfl)
    (fun s t h => toOption_eq_some h) with h | ⟨⟨s, t⟩, u, ⟨_, _, ht, hdoes⟩, h₁⟩
  · exact .inr h
  dsimp only at h₁
  have h₂ := ends_emitThresholdMet_bind (ends_emit_bind h₁)
  obtain ⟨hr, rfl⟩ := ends_done.1 h₂
  exact .inl ⟨_, hr, ⟨t, ht, rfl⟩, hdoes⟩

variable (ourDid) in
theorem outcome_combineSignatures {r : Except SigningProtocolError String} (hc : c.Ok)
    (h : (combineSignatures encoding id).Ends P c r c') :
    Outcome c (fun _ c' => Does encoding ourDid id c [.combine] c') r c' := by
  rcases h.bind_outcome fun _ _ => outcome_editSession encoding ourDid .combine hc
    (fun s t h => by rw [withCombined_eq_ok h]) (fun s t h => toOption_eq_some h) with
    h | ⟨⟨s, t⟩, u, ⟨_, _, _, hdoes⟩, h₁⟩
  · exact .inr h
  dsimp only at h₁
  have h₂ := ends_emit_bind h₁
  obtain ⟨hr, rfl⟩ := ends_done.1 h₂
  exact .inl ⟨_, hr, hdoes⟩

variable (encoding) in
theorem outcome_createSession {new : NewSession} {r : Except SigningProtocolError SigningSession}
    (hc : c.Ok) (h : (createSession ourDid new).Ends P c r c') :
    Outcome c (fun _ c' => Does encoding ourDid new.sessionId c [.create new] c') r c' := by
  rcases h.bind_outcome fun _ _ => outcome_putSession hc rfl with h | ⟨_, u, ⟨hok, hstorage⟩, h₁⟩
  · exact .inr h
  obtain ⟨hr, rfl⟩ := ends_done.1 h₁
  change c'.storage = update c.storage new.sessionId _ at hstorage
  refine .inl ⟨_, hr, hok, ?_, fun id' hid' => by rw [hstorage, update_of_ne hid']⟩
  rw [hstorage, update_self]
  exact .one rfl

end

/-! ## Handlers -/

/-- The edits that a message may make to its session, and the checks that come before them. -/
def Script (encoding : Encoding) (ourDid : String) (inbound : InboundMessage)
    (before : Option SigningSession) (l : List SessionEdit) : Prop :=
  match inbound.message with
  | .proposeSigning body => l <+: [.create (proposedSession inbound body)]
  | .requestSigning body =>
    l <+: [.create (requestedSession ourDid inbound body), .move .requested]
  | .consent body =>
    l <+: [.consent body.signerDid body.keyBinding, .move .consented, .move .signing] ∧
      (l ≠ [] → inbound.sender = some body.signerDid)
  | .partialSignature body =>
    l <+: [.sign body.signerDid body.signature, .move .combining, .combine, .move .distributing] ∧
      (l ≠ [] → inbound.sender = some body.signerDid ∧
        ∃ s, before = some s ∧ checkPartialSignature encoding s body = .ok ()) ∧
      (1 < l.length → ∀ t, (SessionEdit.sign body.signerDid body.signature).apply encoding ourDid
        before = some t → t.requiredSignatures ≤ UInt32.ofNat t.signedCount)
  | .ack _ => l <+: [.move .completed] ∧ (l ≠ [] → ∃ s, before = some s ∧ s.state = .distributing)
  | .decline _ _ => l <+: [.move .declined]
  | .problemReport _ _ => l <+: [.move .failed]
  | _ => l = []

/-- The handler makes edits of its script to the session. -/
def Follows (encoding : Encoding) (ourDid : String) (inbound : InboundMessage) (id : String)
    (c c' : Coordinator) : Prop :=
  ∃ l, Script encoding ourDid inbound (c.storage id) l ∧ Does encoding ourDid id c l c'

section

variable {P : Bool → Prop} {c c' : Coordinator}

theorem script_nil (inbound : InboundMessage) (before : Option SigningSession) :
    Script encoding ourDid inbound before [] := by
  unfold Script
  split <;> simp

variable {inbound : InboundMessage}

theorem follows_refl (hc : c.Ok) :
    Follows encoding ourDid inbound id c c := ⟨[], script_nil _ _, .refl hc⟩

variable {r : Except SigningProtocolError (Option SigningMessage)}

theorem follows_proposeSigning {body : ProposeSigning} (hc : c.Ok)
    (hm : inbound.message = .proposeSigning body)
    (h : (handleProposeSigning ourDid inbound body).Ends P c r c') :
    Follows encoding ourDid inbound body.sessionId c c' := by
  rcases h.bind_outcome fun _ _ => outcome_createSession encoding hc with
    ⟨_, rfl⟩ | ⟨_, u, hdoes, h₁⟩
  · exact follows_refl hc
  obtain ⟨_, rfl⟩ := ends_done.1 h₁
  refine ⟨_, ?_, hdoes⟩
  simp [Script, hm]

theorem follows_requestSigning {body : RequestSigning} (hc : c.Ok)
    (hm : inbound.message = .requestSigning body)
    (h : (handleRequestSigning ourDid inbound body).Ends P c r c') :
    Follows encoding ourDid inbound body.sessionId c c' := by
  rcases h.bind_outcome fun _ _ => outcome_createSession encoding hc with
    ⟨_, rfl⟩ | ⟨_, u, hdoes, h₁⟩
  · exact follows_refl hc
  rcases h₁.bind_outcome fun _ _ => outcome_transitionState encoding ourDid hdoes.ok with
    ⟨_, rfl⟩ | ⟨_, v, hdoes', h₂⟩
  · refine ⟨_, ?_, hdoes⟩
    simp only [Script, hm]
    exact ⟨[.move .requested], rfl⟩
  obtain ⟨_, rfl⟩ := ends_done.1 h₂
  refine ⟨_, ?_, hdoes.trans hdoes'⟩
  simp only [Script, hm]
  exact ⟨[], rfl⟩

theorem sender_of_requireClaimedSender {claimed sender : String}
    (h : requireClaimedSender inbound claimed = .ok sender) : inbound.sender = some claimed := by
  unfold requireClaimedSender at h
  split at h
  · cases h
  split at h
  · cases h
  · next sender' hsender =>
    split at h
    · next heq => rw [hsender, heq]
    · cases h

theorem does_transitions {first second : SigningSessionState} (hc : c.Ok)
    (h : (do let _ ← transitionState id first let _ ← transitionState id second return none :
      Coord (Option SigningMessage)).Ends P c r c')
    :
    ∃ l, l <+: [.move first, .move second] ∧ Does encoding ourDid id c l c' := by
  rcases h.bind_outcome fun _ _ => outcome_transitionState encoding ourDid hc with
    ⟨_, rfl⟩ | ⟨_, u, hdoes, h₁⟩
  · exact ⟨[], nil_prefix, .refl hc⟩
  rcases h₁.bind_outcome fun _ _ => outcome_transitionState encoding ourDid hdoes.ok with
    ⟨_, rfl⟩ | ⟨_, v, hdoes', h₂⟩
  · exact ⟨_, ⟨[.move second], rfl⟩, hdoes⟩
  obtain ⟨_, rfl⟩ := ends_done.1 h₂
  exact ⟨_, ⟨[], rfl⟩, hdoes.trans hdoes'⟩

theorem follows_consent {body : Consent} (hc : c.Ok) (hm : inbound.message = .consent body)
    (h : (handleConsent inbound body).Ends P c r c') :
    Follows encoding ourDid inbound body.sessionId c c' := by
  rcases h.bind_outcome fun _ _ => outcome_ofExcept with ⟨_, rfl⟩ | ⟨_, u, ⟨hclaim, rfl⟩, h₁⟩
  · exact follows_refl hc
  have hsender := sender_of_requireClaimedSender hclaim
  -- the checks change nothing
  split at h₁
  · obtain ⟨_, rfl⟩ := ends_fail.1 h₁
    exact follows_refl hc
  rcases h₁.bind_outcome fun _ _ => outcome_requireSession hc with
    ⟨_, rfl⟩ | ⟨s, v, ⟨_, rfl⟩, h₂⟩
  · exact follows_refl hc
  split at h₂
  · obtain ⟨_, rfl⟩ := ends_fail.1 h₂
    exact follows_refl hc
  rcases h₂.bind_outcome fun _ _ => outcome_acceptConsent encoding ourDid hc with
    ⟨_, rfl⟩ | ⟨all, w, hdoes, h₃⟩
  · exact follows_refl hc
  -- the consent, and then perhaps two transitions
  have hrest : ∃ l, l <+: [.move .consented, .move .signing] ∧
      Does encoding ourDid body.sessionId w l c' := by
    split at h₃
    · exact does_transitions hdoes.ok h₃
    · obtain ⟨_, rfl⟩ := ends_done.1 h₃
      exact ⟨[], nil_prefix, .refl hdoes.ok⟩
  obtain ⟨l, hl, hdoes'⟩ := hrest
  refine ⟨_, ?_, hdoes.trans hdoes'⟩
  simp only [Script, hm]
  exact ⟨(cons_prefix_cons.2 ⟨rfl, hl⟩), fun _ => hsender⟩

variable (ourDid) in
theorem does_finishSigning (hc : c.Ok) (h : (finishSigning encoding id).Ends P c r c') :
    ∃ l, l <+: [.move .combining, .combine, .move .distributing] ∧
      Does encoding ourDid id c l c' := by
  rcases h.bind_outcome fun _ _ => outcome_transitionState encoding ourDid hc with
    ⟨_, rfl⟩ | ⟨_, u, hdoes, h₁⟩
  · exact ⟨[], nil_prefix, .refl hc⟩
  rcases h₁.bind_outcome fun _ _ => outcome_combineSignatures ourDid hdoes.ok with
    ⟨_, rfl⟩ | ⟨_, v, hdoes₁, h₂⟩
  · exact ⟨_, ⟨[.combine, .move .distributing], rfl⟩, hdoes⟩
  rcases h₂.bind_outcome fun _ _ => outcome_requireSession hdoes₁.ok with
    ⟨_, rfl⟩ | ⟨_, w, ⟨_, rfl⟩, h₃⟩
  · exact ⟨_, ⟨[.move .distributing], rfl⟩, hdoes.trans hdoes₁⟩
  rcases h₃.bind_outcome fun _ _ => outcome_transitionState encoding ourDid hdoes₁.ok with
    ⟨_, rfl⟩ | ⟨_, x, hdoes₂, h₄⟩
  · exact ⟨_, ⟨[.move .distributing], rfl⟩, hdoes.trans hdoes₁⟩
  obtain ⟨_, rfl⟩ := ends_done.1 h₄
  exact ⟨_, ⟨[], rfl⟩, (hdoes.trans hdoes₁).trans hdoes₂⟩

theorem follows_partialSignature {body : PartialSignature} (hc : c.Ok)
    (hm : inbound.message = .partialSignature body)
    (h : (handlePartialSignature encoding inbound body).Ends P c r c') :
    Follows encoding ourDid inbound body.sessionId c c' := by
  rcases h.bind_outcome fun _ _ => outcome_ofExcept with ⟨_, rfl⟩ | ⟨_, u, ⟨hclaim, rfl⟩, h₁⟩
  · exact follows_refl hc
  have hsender := sender_of_requireClaimedSender hclaim
  rcases h₁.bind_outcome fun _ _ => outcome_requireSession hc with
    ⟨_, rfl⟩ | ⟨s, v, ⟨hs, rfl⟩, h₂⟩
  · exact follows_refl hc
  rcases h₂.bind_outcome fun _ _ => outcome_ofExcept with
    ⟨_, rfl⟩ | ⟨_, w, ⟨hcheck, rfl⟩, h₃⟩
  · exact follows_refl hc
  rcases h₃.bind_outcome fun _ _ => outcome_acceptPartialSignature encoding ourDid hc with
    ⟨_, rfl⟩ | ⟨reached, x, ⟨⟨t, ht, hreached⟩, hdoes⟩, h₄⟩
  · exact follows_refl hc
  split at h₄
  · next hthreshold =>
    -- the threshold is reached in the session that was just stored
    obtain ⟨l, hl, hdoes'⟩ := does_finishSigning ourDid hdoes.ok h₄
    refine ⟨_, ?_, hdoes.trans hdoes'⟩
    simp only [Script, hm]
    refine ⟨cons_prefix_cons.2 ⟨rfl, hl⟩, fun _ => ⟨hsender, s, hs, hcheck⟩, fun _ t' ht' => ?_⟩
    rw [hreached, decide_eq_true_eq] at hthreshold
    rw [hdoes.edits.apply_eq, ht] at ht'
    cases ht'
    exact hthreshold
  · obtain ⟨_, rfl⟩ := ends_done.1 h₄
    refine ⟨_, ?_, hdoes⟩
    simp only [Script, hm]
    exact ⟨⟨[.move .combining, .combine, .move .distributing], rfl⟩,
      fun _ => ⟨hsender, s, hs, hcheck⟩, fun h => absurd h (by simp)⟩

variable (encoding ourDid) in
theorem does_attempt {state : SigningSessionState} (hc : c.Ok)
    (h : (do let _ ← (transitionState id state).attempt return none :
      Coord (Option SigningMessage)).Ends P c r c')
    :
    ∃ l, l <+: [.move state] ∧ Does encoding ourDid id c l c' := by
  rcases ends_bind.1 h with ⟨e, h, _⟩ | ⟨_, u, hmove, h₁⟩
  · obtain ⟨_, h, _⟩ := ends_attempt.1 h
    cases h
  obtain ⟨_, rfl⟩ := ends_done.1 h₁
  obtain ⟨r', _, hmove⟩ := ends_attempt.1 hmove
  rcases outcome_transitionState encoding ourDid hc hmove with ⟨_, _, hdoes⟩ | ⟨_, rfl⟩
  · exact ⟨_, ⟨[], rfl⟩, hdoes⟩
  · exact ⟨[], nil_prefix, .refl hc⟩

theorem follows_ack {body : Ack} (hc : c.Ok) (hm : inbound.message = .ack body)
    (h : (handleAck body).Ends P c r c') : Follows encoding ourDid inbound body.sessionId c c' := by
  rcases h.bind_outcome fun _ _ => outcome_getSession hc with
    ⟨_, rfl⟩ | ⟨found, u, ⟨rfl, rfl⟩, h₁⟩
  · exact follows_refl hc
  split at h₁
  · obtain ⟨_, rfl⟩ := ends_done.1 h₁
    exact follows_refl hc
  · next session hfound =>
    split at h₁
    · next hstate =>
      obtain ⟨l, hl, hdoes⟩ := does_attempt encoding ourDid hc h₁
      refine ⟨l, ?_, hdoes⟩
      simp only [Script, hm]
      exact ⟨hl, fun _ => ⟨session, hfound, hstate⟩⟩
    · obtain ⟨_, rfl⟩ := ends_done.1 h₁
      exact follows_refl hc

/-- The handler makes edits to the session that the message names, of its authenticated sender;
or it does nothing. -/
def Handled (encoding : Encoding) (ourDid : String) (inbound : InboundMessage)
    (c c' : Coordinator) : Prop :=
  c' = c ∨ ∃ id sender, inbound.message.sessionId = some id ∧ inbound.authenticated = true ∧
    inbound.sender = some sender ∧ Follows encoding ourDid inbound id c c'

theorem follows_dispatch (hc : c.Ok) (h : (dispatch encoding ourDid inbound).Ends P c r c') :
    c' = c ∨ ∃ id, inbound.message.sessionId = some id ∧
      Follows encoding ourDid inbound id c c' := by
  cases hm : inbound.message with
  | proposeSigning body =>
    simp only [dispatch, hm] at h
    exact .inr ⟨_, rfl, follows_proposeSigning hc hm h⟩
  | requestSigning body =>
    simp only [dispatch, hm] at h
    exact .inr ⟨_, rfl, follows_requestSigning hc hm h⟩
  | consent body =>
    simp only [dispatch, hm] at h
    exact .inr ⟨_, rfl, follows_consent hc hm h⟩
  | partialSignature body =>
    simp only [dispatch, hm] at h
    exact .inr ⟨_, rfl, follows_partialSignature hc hm h⟩
  | combine body =>
    simp only [dispatch, hm] at h
    rcases h.bind_outcome fun _ _ => outcome_getSession hc with ⟨_, rfl⟩ | ⟨_, u, ⟨_, rfl⟩, h₁⟩
    · exact .inl rfl
    · exact .inl (ends_done.1 h₁).2
  | provideArtifacts sessionId =>
    simp only [dispatch, hm] at h
    exact .inl (ends_done.1 h).2
  | issueToken sessionId | invalid =>
    simp only [dispatch, hm] at h
    exact .inl (ends_fail.1 h).2
  | ack body =>
    simp only [dispatch, hm] at h
    exact .inr ⟨_, rfl, follows_ack hc hm h⟩
  | decline sessionId decliner | problemReport sessionId reporter =>
    simp only [dispatch, hm] at h
    obtain ⟨l, hl, hdoes⟩ := does_attempt encoding ourDid hc h
    refine .inr ⟨_, rfl, l, ?_, hdoes⟩
    simpa only [Script, hm] using hl

theorem handled_handle {r : Except SigningProtocolError (Option OutboundMessage)} (hc : c.Ok)
    (h : (handle encoding ourDid inbound).Ends P c r c') :
    Handled encoding ourDid inbound c c' := by
  unfold handle at h
  split at h
  · next sender hauth hsender =>
    have hdispatch : ∃ r', (dispatch encoding ourDid inbound).Ends P c r' c' := by
      rcases ends_bind.1 h with ⟨e, h, _⟩ | ⟨_, u, h, h₁⟩
      · exact ⟨_, h⟩
      · obtain ⟨_, rfl⟩ := ends_done.1 h₁
        exact ⟨_, h⟩
    obtain ⟨r', h'⟩ := hdispatch
    rcases follows_dispatch hc h' with rfl | ⟨id, hid, hfollows⟩
    · exact .inl rfl
    · exact .inr ⟨id, sender, hid, hauth, hsender, hfollows⟩
  · exact .inl (ends_fail.1 h).2

theorem Handled.ok (hc : c.Ok) (h : Handled encoding ourDid inbound c c') : c'.Ok := by
  rcases h with rfl | ⟨_, _, _, _, _, _, _, hdoes⟩
  · exact hc
  · exact hdoes.ok

end

/-! ## Runs -/

/-- A message that is handled, or a call of `transition_state` by the application; and what the
storage answers. -/
inductive SigningStep where
  | message (inbound : InboundMessage) (inputs : List Bool)
  | transition (sessionId : String) (newState : SigningSessionState) (inputs : List Bool)

/-- One at a time. -/
def signingStep (encoding : Encoding) (ourDid : String) (c : Coordinator) :
    SigningStep → Option Coordinator
  | .message inbound inputs =>
    ((handle encoding ourDid inbound).run inputs c).map fun (_, c', _) => c'
  | .transition sessionId newState inputs =>
    ((transitionState sessionId newState).run inputs c).map fun (_, c', _) => c'

variable {inputs : List Bool} {c c' : Coordinator}

theorem ends_of_run {α : Type} {p : Coord α}
    (h : (p.run inputs c).map (fun (_, c', _) => c') = some c') :
    ∃ r, p.Ends (fun _ => True) c r c' := by
  cases hrun : p.run inputs c with
  | none => rw [hrun] at h; cases h
  | some x =>
    obtain ⟨r, t, rest⟩ := x
    rw [hrun] at h
    cases h
    exact ⟨r, inputs, rest, fun _ _ => trivial, hrun⟩

theorem handled_of_step {inbound : InboundMessage} (hc : c.Ok)
    (h : signingStep encoding ourDid c (.message inbound inputs) = some c') :
    Handled encoding ourDid inbound c c' := by
  obtain ⟨r, h⟩ := ends_of_run h
  exact handled_handle hc h

theorem does_of_step {state : SigningSessionState} (hc : c.Ok)
    (h : signingStep encoding ourDid c (.transition id state inputs) = some c') :
    c' = c ∨ Does encoding ourDid id c [.move state] c' := by
  obtain ⟨r, h⟩ := ends_of_run h
  rcases outcome_transitionState encoding ourDid hc h with ⟨_, _, hdoes⟩ | ⟨_, rfl⟩
  · exact .inr hdoes
  · exact .inl rfl

theorem signingStep_ok {a : SigningStep} (hc : c.Ok) (h : signingStep encoding ourDid c a = some c')
    : c'.Ok := by
  cases a with
  | message inbound inputs => exact (handled_of_step hc h).ok hc
  | transition id state inputs =>
    rcases does_of_step hc h with rfl | hdoes
    · exact hc
    · exact hdoes.ok

/-! ## A sample session -/

namespace Sample

/-- What `base64` and `serde_json` do on the texts below. -/
def base64 : Encoding where
  decode text := if text = "QQ==" then some [65] else none
  encodeArray texts := if texts = ["QQ=="] then "WyJRUT09Il0=" else ""

def object : SignableObject := ⟨"o", "text/plain", none, ⟨"sha-256", "d"⟩, none⟩

/-- One of two signers is enough. -/
def request : RequestSigning where
  sessionId := "s"
  object := object
  suite := ⟨"ed25519"⟩
  constraints := none
  mode := ⟨"threshold"⟩
  threshold := some ⟨"n-of-m", 1, 2, ["A", "B"], "array"⟩

def consent (did : String) : Consent := ⟨"s", did, ⟨did, "assertionMethod"⟩, ⟨"ed25519"⟩⟩

def signature (did : String) (index : UInt32) : PartialSignature :=
  ⟨"s", did, index, "QQ==", ⟨"ed25519"⟩, "d"⟩

/-- A message from a DID, while the storage works. -/
def message (sender : String) (body : SigningMessage) : SigningStep :=
  .message ⟨body, "t", some sender, true, none⟩ (replicate 30 true)

end Sample

end Idiom.Signing
