import Idiom.Signing.Edits

/-!
# A session goes on

All edits but a creation leave what was agreed on as it was, keep consents and signatures, and
move the state along the state machine.
-/

namespace Idiom.Signing

open List SigningSessionState

variable {encoding : Encoding} {ourDid : String}

/-- A participant that has consented or signed stays so. -/
structure SessionParticipant.Continues (p q : SessionParticipant) : Prop where
  did : q.did = p.did
  connectionId : q.connectionId = p.connectionId
  consented : p.consented = true → q.consented = true
  signed : p.signed = true → q.signed = true ∧ q.signature = p.signature

open SessionParticipant

/-- The session went on: it was not made anew, and its states followed each other. -/
structure SigningSession.Continues (s t : SigningSession) : Prop where
  threadId : t.threadId = s.threadId
  object : t.object = s.object
  suite : t.suite = s.suite
  constraints : t.constraints = s.constraints
  mode : t.mode = s.mode
  threshold : t.threshold = s.threshold
  coordinatorDid : t.coordinatorDid = s.coordinatorDid
  participants : Forall₂ SessionParticipant.Continues s.participants t.participants
  state : Relation.ReflTransGen (fun a b => a.canTransitionTo b = true) s.state t.state

open SigningSession.Continues

theorem SessionParticipant.Continues.refl (p : SessionParticipant) : p.Continues p :=
  ⟨rfl, rfl, fun h => h, fun h => ⟨h, rfl⟩⟩

theorem SessionParticipant.Continues.trans {p q r : SessionParticipant} (h : p.Continues q)
    (h' : q.Continues r) : p.Continues r := by
  refine ⟨h'.did.trans h.did, h'.connectionId.trans h.connectionId,
    fun hp => h'.consented (h.consented hp), fun hp => ?_⟩
  obtain ⟨hq, hsignature⟩ := h.signed hp
  obtain ⟨hr, hsignature'⟩ := h'.signed hq
  exact ⟨hr, hsignature'.trans hsignature⟩

theorem participants_continue_refl (l : List SessionParticipant) : Forall₂ Continues l l := by
  induction l with
  | nil => exact .nil
  | cons p l ih => exact .cons (.refl p) ih

theorem participants_continue_trans {l l' l'' : List SessionParticipant}
    (h : Forall₂ Continues l l') (h' : Forall₂ Continues l' l'') : Forall₂ Continues l l'' := by
  induction h generalizing l'' with
  | nil => cases h'; exact .nil
  | cons hp _ ih =>
    cases h' with
    | cons hq hrest => exact .cons (hp.trans hq) (ih hrest)

theorem SigningSession.Continues.refl (s : SigningSession) : s.Continues s :=
  ⟨rfl, rfl, rfl, rfl, rfl, rfl, rfl, participants_continue_refl _, .refl⟩

variable {s t : SigningSession}

theorem SigningSession.Continues.trans {u : SigningSession} (h : s.Continues t)
    (h' : t.Continues u) : s.Continues u :=
  ⟨h'.threadId.trans h.threadId, h'.object.trans h.object, h'.suite.trans h.suite,
    h'.constraints.trans h.constraints, h'.mode.trans h.mode, h'.threshold.trans h.threshold,
    h'.coordinatorDid.trans h.coordinatorDid,
    participants_continue_trans h.participants h'.participants, h.state.trans h'.state⟩

theorem participants_continue_edited {before after : List SessionParticipant}
    {p q : SessionParticipant} (h : p.Continues q) :
    Forall₂ Continues (before ++ p :: after) (before ++ q :: after) := by
  induction before with
  | nil => exact .cons h (participants_continue_refl after)
  | cons x before ih => exact .cons (.refl x) ih

theorem eq_of_isTerminal {a b : SigningSessionState}
    (h : Relation.ReflTransGen (fun a b => a.canTransitionTo b = true) a b)
    (ha : a.isTerminal = true) : b = a := by
  cases h.cases_head with
  | inl heq => exact heq.symm
  | inr hstep =>
    obtain ⟨c, hc, _⟩ := hstep
    rw [canTransitionTo_of_isTerminal ha] at hc
    cases hc

theorem dids_eq_of_continues {l l' : List SessionParticipant} (h : Forall₂ Continues l l') :
    l'.map (·.did) = l.map (·.did) := by
  induction h with
  | nil => rfl
  | cons hp _ ih => rw [map_cons, map_cons, hp.did, ih]

theorem continues_withConsent {signerDid : String} {keyBinding : KeyBinding}
    (h : s.withConsent signerDid keyBinding = .ok t) : s.Continues t := by
  obtain ⟨participants, hps, rfl⟩ := map_participants_eq_ok h
  obtain ⟨before, p, q, after, hs, _, _, hq, rfl⟩ := withParticipant_eq_ok hps
  cases hq
  refine { refl s with participants := ?_ }
  rw [hs]
  exact participants_continue_edited ⟨rfl, rfl, fun _ => rfl, fun h => ⟨h, rfl⟩⟩

theorem continues_withSignature {signerDid signature : String}
    (h : s.withSignature signerDid signature = .ok t) : s.Continues t := by
  obtain ⟨participants, hps, rfl⟩ := map_participants_eq_ok h
  obtain ⟨before, p, q, after, hs, _, _, hq, rfl⟩ := withParticipant_eq_ok hps
  split at hq
  · cases hq
  next hunsigned =>
  cases hq
  refine { refl s with participants := ?_ }
  rw [hs]
  exact participants_continue_edited ⟨rfl, rfl, fun h => h, fun h => absurd h hunsigned⟩

theorem continues_withState {state : SigningSessionState} (h : s.withState state = .ok t) :
    s.Continues t := by
  obtain ⟨hcan, rfl⟩ := withState_eq_ok h
  exact { refl s with state := .single hcan }

theorem continues_withCombined (h : s.withCombined encoding = .ok t) : s.Continues t := by
  rw [withCombined_eq_ok h]
  exact { refl s with }

theorem continues_of_apply {edit : SessionEdit} (hedit : ∀ new, edit ≠ .create new)
    (h : edit.apply encoding ourDid (some s) = some t) : s.Continues t := by
  cases edit with
  | create new => exact absurd rfl (hedit new)
  | consent signerDid keyBinding => exact continues_withConsent (eq_ok_of_toOption h)
  | sign signerDid signature => exact continues_withSignature (eq_ok_of_toOption h)
  | move state => exact continues_withState (eq_ok_of_toOption h)
  | combine => exact continues_withCombined (eq_ok_of_toOption h)

theorem Edits.continues {edits : List SessionEdit} {y : Option SigningSession}
    (h : Edits encoding ourDid (some s) edits y)
    (hedits : ∀ edit ∈ edits, ∀ new, edit ≠ .create new) : ∃ t, y = some t ∧ s.Continues t := by
  refine h.invariant (Q := fun x => ∃ t, x = some t ∧ s.Continues t) ⟨s, rfl, .refl s⟩
    fun edit hmem x t hx ht => ?_
  obtain ⟨u, rfl, hu⟩ := hx
  exact ⟨t, rfl, hu.trans (continues_of_apply (hedits edit hmem) ht)⟩

def SigningMessage.makesSession : SigningMessage → Bool
  | .proposeSigning _ => true
  | .requestSigning _ => true
  | _ => false

theorem script_no_create {inbound : InboundMessage} {before : Option SigningSession}
    {edits : List SessionEdit} (h : Script encoding ourDid inbound before edits)
    (hm : inbound.message.makesSession = false) : ∀ edit ∈ edits, ∀ new, edit ≠ .create new := by
  intro edit hmem new
  unfold Script at h
  split at h
  · next hbody => rw [hbody] at hm; cases hm
  · next hbody => rw [hbody] at hm; cases hm
  · have hmem' := h.1.subset hmem
    simp only [mem_cons, not_mem_nil, or_false] at hmem'
    rcases hmem' with rfl | rfl | rfl <;> simp
  · have hmem' := h.1.subset hmem
    simp only [mem_cons, not_mem_nil, or_false] at hmem'
    rcases hmem' with rfl | rfl | rfl | rfl <;> simp
  · have hmem' := h.1.subset hmem
    simp only [mem_cons, not_mem_nil, or_false] at hmem'
    simp [hmem']
  iterate 2
    have hmem' := h.subset hmem
    simp only [mem_cons, not_mem_nil, or_false] at hmem'
    simp [hmem']
  · subst h
    cases hmem

/-- States from which `Signing` is not reached any more. -/
def SigningSessionState.afterSigning : SigningSessionState → Bool
  | .combining => true
  | .distributing => true
  | .completed => true
  | .declined => true
  | .failed => true
  | .abandoned => true
  | _ => false

theorem afterSigning_of_reflTransGen {a b : SigningSessionState}
    (h : Relation.ReflTransGen (fun a b => a.canTransitionTo b = true) a b)
    (ha : a.afterSigning = true) : b.afterSigning = true := by
  induction h with
  | refl => exact ha
  | @tail b c _ hstep ih =>
    cases b <;> cases c <;>
      simp_all [canTransitionTo, afterSigning]

end Idiom.Signing
