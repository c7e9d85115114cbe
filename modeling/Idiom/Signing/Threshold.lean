import Idiom.Lib.Run
import Idiom.Signing.Edits

/-!
# The threshold of a signing session

A session that combines or distributes a signature, or is completed, should have at least as many
signers as its threshold, and at least one; each of them should have consented before it signed,
and its signature should have come from it, bound to the suite and the object of the session.
-/

namespace Idiom.Signing

open Run List SigningSessionState

variable {encoding : Encoding} {ourDid : String}

/-! ## The property -/

/-- The message comes from the DID, and the transport says so. -/
def InboundMessage.From (inbound : InboundMessage) (did : String) : Prop :=
  inbound.authenticated = true ∧ inbound.sender = some did

def SigningSession.signers (session : SigningSession) : List String :=
  (session.participants.filter (·.signed)).map (·.did)

/-- States in which all required signatures are collected. -/
def SigningSessionState.signaturesCollected : SigningSessionState → Bool
  | .combining => true
  | .distributing => true
  | .completed => true
  | _ => false

def ConsentReceived (l : List SigningStep) (id did : String) : Prop :=
  ∃ inbound inputs body, SigningStep.message inbound inputs ∈ l ∧ inbound.From did ∧
    inbound.message = .consent body ∧ body.sessionId = id ∧ body.signerDid = did

/-- A participant of the session with the DID is recorded as having consented. -/
def HasConsented (c : Coordinator) (id did : String) : Prop :=
  ∃ session q, c.storage id = some session ∧ q ∈ session.participants ∧ q.did = did ∧
    q.consented = true

/-- The signature of a participant came with a message that was authenticated as the participant
and bound to the suite and the object of the session, after the participant had consented. -/
def SignatureReceived (encoding : Encoding) (ourDid : String) (l : List SigningStep) (id : String)
    (session : SigningSession) (p : SessionParticipant) : Prop :=
  ∃ l₁ inbound inputs l₂ body c, l = l₁ ++ .message inbound inputs :: l₂ ∧ inbound.From p.did ∧
    inbound.message = .partialSignature body ∧ body.sessionId = id ∧ body.signerDid = p.did ∧
    p.signature = some body.signature ∧ body.suite.id = session.suite.id ∧
    body.objectDigest = session.object.digest.value ∧
    exec (signingStep encoding ourDid) .start l₁ = some c ∧ HasConsented c id p.did ∧
    ConsentReceived l₁ id p.did

/-- **Threshold soundness** of the sessions after a run. -/
def ThresholdSound (encoding : Encoding) (ourDid : String) (l : List SigningStep)
    (c : Coordinator) : Prop :=
  ∀ id session, c.storage id = some session → session.state.signaturesCollected = true →
    max session.requiredSignatures.toNat 1 ≤ session.signers.toFinset.card ∧
      ∀ p ∈ session.participants, (p.signed = true ∨ p.signature.isSome = true) →
        SignatureReceived encoding ourDid l id session p

/-- A partial signature that would be recorded is of a participant that has consented; and the
application moves a session to `Combining` when it has enough signatures. -/
def signsInOrder (encoding : Encoding) (c : Coordinator) : SigningStep → Bool
  | .message inbound _ =>
    match inbound.message with
    | .partialSignature body =>
      match c.storage body.sessionId, requireClaimedSender inbound body.signerDid with
      | some session, .ok _ =>
        match checkPartialSignature encoding session body with
        | .ok _ =>
          (session.participants.find? fun p => p.did = body.signerDid).all fun p => p.consented
        | .error _ => true
      | _, _ => true
    | _ => true
  | .transition sessionId newState _ =>
    match c.storage sessionId with
    | some session =>
      decide (session.state = .signing → newState = .combining →
        max session.requiredSignatures.toNat 1 ≤ session.signedCount)
    | none => true

/-! ## The invariant -/

variable {id : String} {l : List SigningStep}

theorem ConsentReceived.mono {did : String} (a : SigningStep) (h : ConsentReceived l id did) :
    ConsentReceived (l ++ [a]) id did := by
  obtain ⟨inbound, inputs, body, hmem, hrest⟩ := h
  exact ⟨inbound, inputs, body, mem_append_left _ hmem, hrest⟩

variable {session : SigningSession}

theorem SignatureReceived.mono {p : SessionParticipant} (a : SigningStep)
    (h : SignatureReceived encoding ourDid l id session p) :
    SignatureReceived encoding ourDid (l ++ [a]) id session p := by
  obtain ⟨l₁, inbound, inputs, l₂, body, c, rfl, hrest⟩ := h
  exact ⟨l₁, inbound, inputs, l₂ ++ [a], body, c, by simp, hrest⟩

/-- What holds of a session after the steps `l`. -/
structure SessionInv (encoding : Encoding) (ourDid : String) (l : List SigningStep) (id : String)
    (session : SigningSession) : Prop where
  /-- Only the first participant with a DID signs. -/
  distinct : session.participants.Pairwise fun p q => q.signed = true → p.did ≠ q.did
  consented : ∀ p ∈ session.participants, p.consented = true → ConsentReceived l id p.did
  received : ∀ p ∈ session.participants, (p.signed = true ∨ p.signature.isSome = true) →
    SignatureReceived encoding ourDid l id session p
  enough : session.state.signaturesCollected = true →
    max session.requiredSignatures.toNat 1 ≤ session.signedCount

theorem SessionInv.mono (a : SigningStep) (h : SessionInv encoding ourDid l id session) :
    SessionInv encoding ourDid (l ++ [a]) id session :=
  ⟨h.distinct, fun p hp hc => (h.consented p hp hc).mono a,
    fun p hp hs => (h.received p hp hs).mono a, h.enough⟩

theorem card_signers
    (h : session.participants.Pairwise fun p q => q.signed = true → p.did ≠ q.did) :
    session.signers.toFinset.card = session.signedCount := by
  have hnodup : session.signers.Nodup := by
    unfold SigningSession.signers
    rw [Nodup, pairwise_map, pairwise_filter]
    exact h.imp fun hpq _ hq => hpq hq
  rw [toFinset_card_of_nodup hnodup]
  exact length_map _

/-! ## Edits keep the invariant -/

theorem sessionInv_create {new : NewSession}
    (hnew : ∀ p ∈ new.participants, p.consented = false ∧ p.signed = false ∧ p.signature = none) :
    SessionInv encoding ourDid l id (new.session ourDid) := by
  refine ⟨?_, fun p hp hc => ?_, fun p hp hs => ?_, fun h => by cases h⟩
  · refine Pairwise.imp_of_mem ?_ (pairwise_of_forall fun _ _ => trivial)
    intro p q _ hq _ hsigned
    rw [(hnew q hq).2.1] at hsigned
    cases hsigned
  · rw [(hnew p hp).1] at hc
    cases hc
  · obtain ⟨_, hsigned, hsignature⟩ := hnew p hp
    rw [hsigned, hsignature] at hs
    simp at hs

theorem newParticipants_fresh (threshold : Option ThresholdConfig) (single : String)
    (connectionId : Option String) :
    ∀ p ∈ newParticipants threshold single connectionId,
      p.consented = false ∧ p.signed = false ∧ p.signature = none := by
  intro p hp
  cases threshold with
  | some t =>
    obtain ⟨did, _, rfl⟩ := mem_map.1 hp
    exact ⟨rfl, rfl, rfl⟩
  | none =>
    rw [newParticipants, mem_singleton] at hp
    subst hp
    exact ⟨rfl, rfl, rfl⟩

/-- A transition keeps everything but what the new state asks for. -/
theorem SessionInv.withState (h : SessionInv encoding ourDid l id session)
    (state : SigningSessionState) (henough : state.signaturesCollected = true →
      max session.requiredSignatures.toNat 1 ≤ session.signedCount)
    :
    SessionInv encoding ourDid l id { session with state := state } :=
  ⟨h.distinct, h.consented, h.received, henough⟩

theorem SessionInv.withCombined (h : SessionInv encoding ourDid l id session)
    (combined : Option String) :
    SessionInv encoding ourDid l id { session with combinedSignature := combined } :=
  ⟨h.distinct, h.consented, h.received, h.enough⟩

theorem signaturesCollected_of_canTransitionTo {s t : SigningSessionState}
    (h : s.canTransitionTo t = true) (ht : t.signaturesCollected = true) :
    s.signaturesCollected = true ∨ s = .signing ∧ t = .combining := by
  cases s <;> cases t <;>
    simp_all [canTransitionTo, signaturesCollected]

theorem forall_mem_edited {Q : SessionParticipant → Prop} {before after : List SessionParticipant}
    {p q : SessionParticipant} (h : ∀ x ∈ before ++ p :: after, Q x) (hq : Q p → Q q) :
    ∀ x ∈ before ++ q :: after, Q x := by
  intro x hx
  simp only [mem_append, mem_cons] at hx
  rcases hx with hx | rfl | hx
  · exact h x (by simp [hx])
  · exact hq (h p (by simp))
  · exact h x (by simp [hx])

variable {s t : SigningSession} {signerDid : String}

theorem SessionInv.withConsent {keyBinding : KeyBinding} (h : SessionInv encoding ourDid l id s)
    (hreceived : ConsentReceived l id signerDid) (ht : s.withConsent signerDid keyBinding = .ok t) :
    SessionInv encoding ourDid l id t := by
  obtain ⟨participants, hps, rfl⟩ := map_participants_eq_ok ht
  obtain ⟨before, p, q, after, hs, hbefore, hdid, hq, rfl⟩ := withParticipant_eq_ok hps
  cases hq
  obtain ⟨hdistinct, hconsented, hsigned, henough⟩ := h
  rw [hs] at hdistinct hconsented hsigned
  refine ⟨?_, ?_, ?_, fun hstate => ?_⟩
  · rw [pairwise_append, pairwise_cons] at hdistinct ⊢
    obtain ⟨hb, ⟨hp, ha⟩, hba⟩ := hdistinct
    refine ⟨hb, ⟨hp, ha⟩, ?_⟩
    intro x hx
    have hpast : ∀ y ∈ [] ++ p :: after, y.signed = true → x.did ≠ y.did := hba x hx
    exact forall_mem_edited hpast fun h => h
  · exact forall_mem_edited hconsented fun _ _ => by rw [hdid]; exact hreceived
  · exact forall_mem_edited hsigned fun h => h
  · refine (henough hstate).trans_eq ?_
    simp only [SigningSession.signedCount, hs, filter_append, filter_cons]
    split <;> simp

theorem SessionInv.withSignature {signature : String} (h : SessionInv encoding ourDid l id s)
    (hreceived : ∀ p, p.did = signerDid → p.signature = some signature →
      SignatureReceived encoding ourDid l id s p)
    (ht : s.withSignature signerDid signature = .ok t) :
    SessionInv encoding ourDid l id t ∧ 0 < t.signedCount := by
  obtain ⟨participants, hps, rfl⟩ := map_participants_eq_ok ht
  obtain ⟨before, p, q, after, hs, hbefore, hdid, hq, rfl⟩ := withParticipant_eq_ok hps
  split at hq
  · cases hq
  next hunsigned =>
  cases hq
  have hcount := signedCount_withSignature (s := s)
    (q := { p with signed := true, signature := some signature }) hs (by simpa using hunsigned) rfl
  obtain ⟨hdistinct, hconsented, hsigned, henough⟩ := h
  rw [hs] at hdistinct hconsented hsigned
  refine ⟨⟨?_, ?_, ?_, fun hstate => ?_⟩, by omega⟩
  · rw [pairwise_append, pairwise_cons] at hdistinct ⊢
    obtain ⟨hb, ⟨hp, ha⟩, hba⟩ := hdistinct
    refine ⟨hb, ⟨hp, ha⟩, fun x hx y hy hy' => ?_⟩
    rcases mem_cons.1 hy with rfl | hy
    · -- those before the one that signs have other DIDs
      rw [hdid]
      exact hbefore x hx
    · exact hba x hx y (mem_cons_of_mem _ hy) hy'
  · exact forall_mem_edited hconsented fun h => h
  · exact forall_mem_edited hsigned fun _ _ => hreceived _ hdid rfl
  · have hle := henough hstate
    rw [hcount]
    exact hle.trans (Nat.le_succ _)

/-! ## One step keeps the invariant -/

/-- Of a session, if there is one. -/
def SessionInvAt (encoding : Encoding) (ourDid : String) (l : List SigningStep) (id : String)
    (x : Option SigningSession) : Prop :=
  ∀ s, x = some s → SessionInv encoding ourDid l id s

theorem SessionInv.move {state : SigningSessionState} (h : SessionInv encoding ourDid l id s)
    (hcombining : s.state = .signing → state = .combining →
      max s.requiredSignatures.toNat 1 ≤ s.signedCount)
    (ht : s.withState state = .ok t) : SessionInv encoding ourDid l id t := by
  obtain ⟨hcan, rfl⟩ := withState_eq_ok ht
  refine h.withState state fun hcollected => ?_
  rcases signaturesCollected_of_canTransitionTo hcan hcollected with hs | ⟨hs, hstate⟩
  · exact h.enough hs
  · exact hcombining hs hstate

variable {edits : List SessionEdit}

theorem SessionInvAt.moves {x y : Option SigningSession} (h : SessionInvAt encoding ourDid l id x)
    (hmoves : ∀ edit ∈ edits, ∃ state, edit = .move state ∧ state ≠ .combining)
    (hedits : Edits encoding ourDid x edits y) : SessionInvAt encoding ourDid l id y := by
  refine hedits.invariant h fun edit hmem s t hs ht => ?_
  obtain ⟨state, rfl, hstate⟩ := hmoves edit hmem
  cases s with
  | none => cases ht
  | some s =>
    intro t' ht'
    cases ht'
    refine (hs s rfl).move (fun _ h => absurd h hstate) (eq_ok_of_toOption ht)

theorem SessionInvAt.finish {y : Option SigningSession} (h : SessionInv encoding ourDid l id s)
    (henough : max s.requiredSignatures.toNat 1 ≤ s.signedCount)
    (hfinish : edits <+: [.move .combining, .combine, .move .distributing])
    (hedits : Edits encoding ourDid (some s) edits y) : SessionInvAt encoding ourDid l id y := by
  have hkeep : ∀ t, y = some t → SessionInv encoding ourDid l id t ∧
      max t.requiredSignatures.toNat 1 ≤ t.signedCount := by
    refine hedits.invariant (Q := fun x => ∀ t, x = some t → SessionInv encoding ourDid l id t ∧
      max t.requiredSignatures.toNat 1 ≤ t.signedCount) ?_ fun edit hmem x t hx ht t' ht' => ?_
    · rintro t ⟨⟩
      exact ⟨h, henough⟩
    cases ht'
    cases x with
    | none =>
      have hmem' := hfinish.subset hmem
      simp only [mem_cons, not_mem_nil, or_false] at hmem'
      rcases hmem' with rfl | rfl | rfl <;> cases ht
    | some s =>
      obtain ⟨hinv, hcount⟩ := hx s rfl
      have hmem' := hfinish.subset hmem
      simp only [mem_cons, not_mem_nil, or_false] at hmem'
      rcases hmem' with rfl | rfl | rfl
      · have hmove := eq_ok_of_toOption ht
        refine ⟨hinv.move (fun _ _ => hcount) hmove, ?_⟩
        obtain ⟨_, rfl⟩ := withState_eq_ok hmove
        exact hcount
      · rw [withCombined_eq_ok (eq_ok_of_toOption ht)]
        exact ⟨hinv.withCombined _, hcount⟩
      · have hmove := eq_ok_of_toOption ht
        refine ⟨hinv.move (fun _ _ => hcount) hmove, ?_⟩
        obtain ⟨_, rfl⟩ := withState_eq_ok hmove
        exact hcount
  exact fun t ht => (hkeep t ht).1

variable {inbound : InboundMessage}

theorem sessionInv_proposed {body : ProposeSigning} :
    SessionInv encoding ourDid l id
      ((proposedSession inbound body).session ourDid) :=
  sessionInv_create (newParticipants_fresh _ _ _)

theorem sessionInv_requested {body : RequestSigning} :
    SessionInv encoding ourDid l id
      ((requestedSession ourDid inbound body).session ourDid) :=
  sessionInv_create (newParticipants_fresh _ _ _)

/-- Edits that begin with a given one: none at all, or that one and more. -/
theorem edits_cons_prefix {edits rest : List SessionEdit} {edit : SessionEdit}
    {x y : Option SigningSession} (hscripted : edits <+: edit :: rest)
    (hedits : Edits encoding ourDid x edits y) :
    y = x ∨ ∃ edits' s, edits = edit :: edits' ∧ edits' <+: rest ∧
      edit.apply encoding ourDid x = some s ∧ Edits encoding ourDid (some s) edits' y := by
  cases hedits with
  | nil => exact .inl rfl
  | @cons _ _ u edit' edits' h hl =>
    obtain ⟨rfl, hrest⟩ := cons_prefix_cons.1 hscripted
    exact .inr ⟨edits', u, rfl, hrest, h, hl⟩

theorem requireClaimedSender_of_from {did : String} (h : inbound.From did) :
    requireClaimedSender inbound did = .ok did := by
  obtain ⟨hauth, hsender⟩ := h
  simp [requireClaimedSender, hauth, hsender]

theorem find_of_withSignature {signature : String}
    (ht : s.withSignature signerDid signature = .ok t) :
    ∃ p ∈ s.participants, p.did = signerDid ∧
      s.participants.find? (fun p => p.did = signerDid) = some p := by
  obtain ⟨participants, hps, rfl⟩ := map_participants_eq_ok ht
  obtain ⟨before, p, q, after, hs, hbefore, hdid, _, _⟩ := withParticipant_eq_ok hps
  refine ⟨p, by rw [hs]; simp, hdid, ?_⟩
  rw [find?_eq_some_iff_append]
  exact ⟨by simpa using hdid, before, after, hs, fun x hx => by simpa using hbefore x hx⟩

section

variable {l : List SigningStep} {c : Coordinator} {inbound : InboundMessage} {inputs : List Bool}
  {edits : List SessionEdit} {y : Option SigningSession}

theorem signatureReceived_of_signsInOrder {body : PartialSignature} {s t : SigningSession}
    (hexec : exec (signingStep encoding ourDid) .start l = some c)
    (hinv : SessionInv encoding ourDid l body.sessionId s)
    (hG : signsInOrder encoding c (.message inbound inputs) = true)
    (hm : inbound.message = .partialSignature body) (hfrom : inbound.From body.signerDid)
    (hs : c.storage body.sessionId = some s)
    (hcheck : checkPartialSignature encoding s body = .ok ())
    (ht : s.withSignature body.signerDid body.signature = .ok t)
    (p : SessionParticipant) (hdid : p.did = body.signerDid)
    (hsignature : p.signature = some body.signature) :
    SignatureReceived encoding ourDid (l ++ [.message inbound inputs]) body.sessionId s p := by
  obtain ⟨q, hq, hqdid, hfind⟩ := find_of_withSignature ht
  have hconsented : q.consented = true := by
    simpa [signsInOrder, hm, hs, requireClaimedSender_of_from hfrom, hcheck, hfind] using hG
  have hreceived := hinv.consented q hq hconsented
  have hbound : body.suite.id = s.suite.id ∧ body.objectDigest = s.object.digest.value := by
    unfold checkPartialSignature at hcheck
    split at hcheck
    · cases hcheck
    · next h =>
      push Not at h
      exact h
  rw [hqdid] at hreceived
  refine ⟨l, inbound, inputs, [], body, c, rfl, ?_, hm, rfl, hdid.symm, hsignature, hbound.1,
    hbound.2, hexec, ?_, ?_⟩ <;> rw [hdid]
  · exact hfrom
  · exact ⟨s, q, hs, hq, hqdid, hconsented⟩
  · exact hreceived

/-- **One message** keeps the invariant of the session it names. -/
theorem sessionInv_message {id sender : String}
    (hexec : exec (signingStep encoding ourDid) .start l = some c)
    (hinv : SessionInvAt encoding ourDid l id (c.storage id))
    (hG : signsInOrder encoding c (.message inbound inputs) = true)
    (hfrom : inbound.From sender) (hid : inbound.message.sessionId = some id)
    (hscript : Script encoding ourDid inbound (c.storage id) edits)
    (hedits : Edits encoding ourDid (c.storage id) edits y) :
    SessionInvAt encoding ourDid (l ++ [.message inbound inputs]) id y := by
  have hmono : SessionInvAt encoding ourDid (l ++ [.message inbound inputs]) id (c.storage id) :=
    fun s hs => (hinv s hs).mono _
  cases hm : inbound.message with
  | proposeSigning body =>
    simp only [Script, hm] at hscript
    rcases edits_cons_prefix hscript hedits with rfl | ⟨rest, s, _, hrest, happly, hmoves⟩
    · exact hmono
    · cases prefix_nil.1 hrest
      cases happly
      cases hmoves
      rintro t ⟨⟩
      exact sessionInv_proposed
  | requestSigning body =>
    simp only [Script, hm] at hscript
    rcases edits_cons_prefix hscript hedits with rfl | ⟨rest, s, _, hrest, happly, hmoves⟩
    · exact hmono
    · cases happly
      refine SessionInvAt.moves (x := some _) ?_ (fun edit hmem => ?_) hmoves
      · rintro t ⟨⟩
        exact sessionInv_requested
      · have hmem' := hrest.subset hmem
        simp only [mem_cons, not_mem_nil, or_false] at hmem'
        exact ⟨_, hmem', by simp⟩
  | consent body =>
    simp only [Script, hm] at hscript
    cases Option.some.inj (hid.symm.trans (by rw [hm]; rfl))
    obtain ⟨hscripted, hsender⟩ := hscript
    rcases edits_cons_prefix hscripted hedits with rfl | ⟨rest, s, rfl, hrest, happly, hmoves⟩
    · exact hmono
    · refine SessionInvAt.moves (x := some s) ?_ (fun edit hmem => ?_) hmoves
      · rintro t ⟨⟩
        cases hstored : c.storage body.sessionId with
        | none => rw [hstored] at happly; cases happly
        | some before =>
          rw [hstored] at happly
          refine (hmono before hstored).withConsent ?_ (eq_ok_of_toOption happly)
          exact ⟨inbound, inputs, body, by simp, ⟨hfrom.1, hsender (by simp)⟩, hm, rfl, rfl⟩
      · have hmem' := hrest.subset hmem
        simp only [mem_cons, not_mem_nil, or_false] at hmem'
        rcases hmem' with rfl | rfl <;> exact ⟨_, rfl, by simp⟩
  | partialSignature body =>
    simp only [Script, hm] at hscript
    cases Option.some.inj (hid.symm.trans (by rw [hm]; rfl))
    obtain ⟨hscripted, hsender, hthreshold⟩ := hscript
    rcases edits_cons_prefix hscripted hedits with rfl | ⟨rest, t, rfl, hrest, happly, hmoves⟩
    · exact hmono
    · obtain ⟨hsender, s, hs, hcheck⟩ := hsender (by simp)
      rw [hs] at happly
      have hsigned := eq_ok_of_toOption happly
      obtain ⟨hinv', hpos⟩ := (hmono s hs).withSignature
        (signatureReceived_of_signsInOrder hexec (hinv s hs) hG hm ⟨hfrom.1, hsender⟩ hs hcheck
          hsigned) hsigned
      cases rest with
      | nil =>
        cases hmoves
        rintro _ ⟨⟩
        exact hinv'
      | cons edit rest =>
        refine SessionInvAt.finish hinv' ?_ hrest hmoves
        have hle := hthreshold (by simp) t (by rw [hs]; exact happly)
        rw [UInt32.le_iff_toNat_le, UInt32.toNat_ofNat'] at hle
        omega
  | ack body =>
    simp only [Script, hm] at hscript
    refine hmono.moves (fun edit hmem => ?_) hedits
    have hmem' := hscript.1.subset hmem
    simp only [mem_cons, not_mem_nil, or_false] at hmem'
    exact ⟨_, hmem', by simp⟩
  | decline sessionId decliner | problemReport sessionId reporter =>
    simp only [Script, hm] at hscript
    refine hmono.moves (fun edit hmem => ?_) hedits
    have hmem' := hscript.subset hmem
    simp only [mem_cons, not_mem_nil, or_false] at hmem'
    exact ⟨_, hmem', by simp⟩
  | combine body | provideArtifacts sessionId | issueToken sessionId | invalid =>
    simp only [Script, hm] at hscript
    subst hscript
    cases hedits
    exact hmono

end

/-! ## Every run -/

/-- The invariant of all sessions. -/
structure SessionsInv (encoding : Encoding) (ourDid : String) (l : List SigningStep)
    (c : Coordinator) : Prop where
  ok : c.Ok
  sessions : ∀ id, SessionInvAt encoding ourDid l id (c.storage id)

theorem SessionsInv.of_does {c c' : Coordinator} {a : SigningStep}
    (h : SessionsInv encoding ourDid l c) (hdoes : Does encoding ourDid id c edits c')
    (hsession : SessionInvAt encoding ourDid (l ++ [a]) id (c'.storage id)) :
    SessionsInv encoding ourDid (l ++ [a]) c' := by
  refine ⟨hdoes.ok, fun id' => ?_⟩
  by_cases hid : id' = id
  · rw [hid]
    exact hsession
  · rw [hdoes.others id' hid]
    exact fun s hs => (h.sessions id' s hs).mono a

theorem SessionsInv.step {c c' : Coordinator} {a : SigningStep}
    (hexec : exec (signingStep encoding ourDid) .start l = some c)
    (h : SessionsInv encoding ourDid l c) (hG : signsInOrder encoding c a = true)
    (hstep : signingStep encoding ourDid c a = some c') :
    SessionsInv encoding ourDid (l ++ [a]) c' := by
  have hmono : SessionsInv encoding ourDid (l ++ [a]) c :=
    ⟨h.ok, fun id s hs => (h.sessions id s hs).mono a⟩
  cases a with
  | message inbound inputs =>
    rcases handled_of_step h.ok hstep with rfl | ⟨id, sender, hid, hauth, hsender, edits, hscript,
      hdoes⟩
    · exact hmono
    · exact h.of_does hdoes (sessionInv_message hexec (h.sessions id) hG ⟨hauth, hsender⟩ hid
        hscript hdoes.edits)
  | transition id state inputs =>
    rcases does_of_step h.ok hstep with rfl | hdoes
    · exact hmono
    · refine h.of_does hdoes ?_
      have happly := hdoes.edits.apply_eq
      cases hs : c.storage id with
      | none =>
        rw [hs] at happly
        rw [← happly]
        rintro t ⟨⟩
      | some s =>
        rw [hs] at happly
        intro t ht
        rw [ht] at happly
        refine (hmono.sessions id s hs).move (fun hsigning hcombining => ?_)
          (eq_ok_of_toOption happly)
        simp only [signsInOrder, hs, decide_eq_true_eq] at hG
        exact hG hsigning hcombining

/-- **Threshold soundness.** -/
theorem thresholdSound_of_signsInOrder (encoding : Encoding) (ourDid : String)
    (l : List SigningStep) (c : Coordinator)
    (hexec : exec (signingStep encoding ourDid) .start l = some c)
    (hG : Along (signingStep encoding ourDid) (fun c a => signsInOrder encoding c a = true) .start
      l) : ThresholdSound encoding ourDid l c := by
  have hinv : SessionsInv encoding ourDid l c :=
    exec_history_along ⟨ok_start, fun id s hs => by cases hs⟩
      (fun _ _ _ _ hexec h hG hstep => h.step hexec hG hstep) hG hexec
  intro id session hsession hstate
  have h := hinv.sessions id session hsession
  rw [card_signers h.distinct]
  exact ⟨h.enough hstate, h.received⟩

namespace Sample

/-- The request is made and one signer consents. -/
def consentRun : List SigningStep :=
  [message "P" (.requestSigning request), message "A" (.consent (consent "A"))]

def signRun : List SigningStep := consentRun ++ [message "A" (.partialSignature (signature "A" 1))]

/-- The other signer did not consent. -/
def hastyRun : List SigningStep := consentRun ++ [message "B" (.partialSignature (signature "B" 2))]

/-- The state of the session at the end of a run. -/
def stateAfter (l : List SigningStep) : Option SigningSessionState :=
  (exec (signingStep base64 "P") .start l).bind fun c => (c.storage "s").map (·.state)

end Sample

open Sample in
/-- A session that distributes a signature. -/
theorem thresholdSound_of_signsInOrder_signRun :
    stateAfter signRun = some .distributing ∧
      ∃ c, exec (signingStep base64 "P") .start signRun = some c ∧
        ThresholdSound base64 "P" signRun c := by
  refine ⟨by decide +kernel, ?_⟩
  obtain ⟨c, hexec⟩ := Option.isSome_iff_exists.1
    (show (exec (signingStep base64 "P") .start signRun).isSome = true by decide +kernel)
  exact ⟨c, hexec, thresholdSound_of_signsInOrder _ _ _ c hexec (by decide +kernel)⟩

open Sample in
/-- The signer that did not consent brings the session past its threshold. -/
theorem thresholdSound_fails_without_consent :
    ∃ c, exec (signingStep base64 "P") .start hastyRun = some c ∧
      ¬ ThresholdSound base64 "P" hastyRun c := by
  obtain ⟨c, hexec⟩ := Option.isSome_iff_exists.1
    (show (exec (signingStep base64 "P") .start hastyRun).isSome = true by decide +kernel)
  have hsession : (c.storage "s").any (fun session => session.state.signaturesCollected &&
      session.participants.any fun p => p.did = "B" && p.signed) = true := by
    have hdecide : ((exec (signingStep base64 "P") .start hastyRun).any fun c =>
      (c.storage "s").any fun session => session.state.signaturesCollected &&
        session.participants.any fun p => p.did = "B" && p.signed) = true := by decide +kernel
    rw [hexec] at hdecide
    exact hdecide
  refine ⟨c, hexec, fun h => ?_⟩
  obtain ⟨session, hs, hsession⟩ := (Option.any_eq_true _ _).1 hsession
  rw [Bool.and_eq_true, any_eq_true] at hsession
  obtain ⟨hcollected, p, hp, hpB⟩ := hsession
  rw [Bool.and_eq_true, decide_eq_true_eq] at hpB
  obtain ⟨l₁, _, _, l₂, _, _, hl, _, _, _, _, _, _, _, _, _, hconsent⟩ :=
    (h "s" session hs hcollected).2 p hp (.inl hpB.2)
  -- no message of the run is a consent of the second signer
  obtain ⟨inbound, inputs, body, hmem, _, hbody, _, hdid⟩ := hconsent
  have hmem' : SigningStep.message inbound inputs ∈ hastyRun := by
    rw [hl]
    exact mem_append_left _ hmem
  simp only [hastyRun, consentRun, message, cons_append, nil_append, mem_cons,
    not_mem_nil, or_false, SigningStep.message.injEq] at hmem'
  rw [hpB.1] at hdid
  rcases hmem' with ⟨rfl, _⟩ | ⟨rfl, _⟩ | ⟨rfl, _⟩
  · cases hbody
  · cases hbody
    exact absurd hdid (by decide)
  · cases hbody

end Idiom.Signing
