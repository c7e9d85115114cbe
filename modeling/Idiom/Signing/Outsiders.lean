import Idiom.Lib.Run
import Idiom.Signing.Continues

/-!
# Outsiders of a signing session

Two runs that differ only in messages of outsiders (neither participants, nor the proposer, nor the
coordinator) should leave a session alike, and a session should never be made anew. Consents and
partial signatures are checked against the sender; the other messages are not.
-/

namespace Idiom.Signing

open Run Function Option SigningMessage Prog SigningStep List

variable {encoding : Encoding} {ourDid : String}

/-! ## The property -/

/-- Neither a participant, nor the proposer, nor the coordinator. -/
def Outsider (proposer : String) (session : SigningSession) (did : String) : Prop :=
  did ∉ session.participants.map (·.did) ∧ did ≠ proposer ∧ did ≠ session.coordinatorDid

instance (proposer : String) (session : SigningSession) (did : String) :
    Decidable (Outsider proposer session did) :=
  inferInstanceAs (Decidable (_ ∧ _ ∧ _))

def SigningStep.byOutsider (proposer : String) (session : SigningSession) : SigningStep → Bool
  | .message inbound _ =>
    inbound.authenticated && inbound.sender.any fun did => decide (Outsider proposer session did)
  | .transition _ _ _ => false

/-- **Outsiders cannot disturb the session** `id`, which `proposer` proposed and which was made in
the run `l`: two runs that go on from there, with the same messages but for those of outsiders,
leave it alike; it is not made anew, and does not leave a terminal state. -/
def Undisturbed (encoding : Encoding) (ourDid : String) (l : List SigningStep)
    (id proposer : String) (l₁ l₂ : List SigningStep) : Prop :=
  ∀ c session c₁ c₂, exec (signingStep encoding ourDid) .start l = some c →
    c.storage id = some session →
    l₁.filter (fun a => !a.byOutsider proposer session) =
      l₂.filter (fun a => !a.byOutsider proposer session) →
    exec (signingStep encoding ourDid) c l₁ = some c₁ →
    exec (signingStep encoding ourDid) c l₂ = some c₂ →
    c₁.storage id = c₂.storage id ∧ ∃ t, c₁.storage id = some t ∧ session.Continues t ∧
      (session.state.isTerminal = true → t.state = session.state)

def SigningMessage.movesSession (state : SigningSessionState) : SigningMessage → Bool
  | .ack _ => decide (state = .distributing)
  | .decline _ _ => state.canTransitionTo .declined
  | .problemReport _ _ => state.canTransitionTo .failed
  | _ => false

/-- Nobody makes the session anew, and outsiders do not move it. -/
def sparesSession (id proposer : String) (session : SigningSession) (c : Coordinator) :
    SigningStep → Bool
  | .message inbound inputs =>
    !(inbound.authenticated && inbound.sender.isSome &&
        decide (inbound.message.sessionId = some id)) ||
      (!inbound.message.makesSession && !((message inbound inputs).byOutsider proposer session &&
          (c.storage id).any fun s => inbound.message.movesSession s.state))
  | .transition _ _ _ => true

/-! ## A handler looks at one session -/

/-- Alike as far as the session is concerned. -/
def SameAt (id : String) (c c' : Coordinator) : Prop :=
  c.sessions id = c'.sessions id ∧ c.storage id = c'.storage id

section

variable {id : String}

theorem sameAt_cacheSession (key : String) (session : SigningSession) {c c' : Coordinator}
    (h : SameAt id c c') :
    SameAt id (c.cacheSession key session) (c'.cacheSession key session) := by
  refine ⟨?_, h.2⟩
  show update c.sessions key _ id = update c'.sessions key _ id
  by_cases hid : id = key
  · rw [hid, update_self, update_self]
  · rw [update_of_ne hid, update_of_ne hid, h.1]

theorem sameAt_storeSession (session : SigningSession) {c c' : Coordinator}
    (h : SameAt id c c') : SameAt id (c.storeSession session) (c'.storeSession session) := by
  refine ⟨h.1, ?_⟩
  show update c.storage session.sessionId _ id = update c'.storage session.sessionId _ id
  by_cases hid : id = session.sessionId
  · rw [hid, update_self, update_self]
  · rw [update_of_ne hid, update_of_ne hid, h.2]

theorem respects_getSession (call : CoordinatorCall) :
    (getSession call id).Respects (SameAt id) := by
  refine (respects_get fun c c' h => h.1).bind fun cached => ?_
  cases cached with
  | some session => trivial
  | none =>
    refine Respects.bind ?_ fun found => ?_
    · intro ok c c' h
      dsimp only
      refine ⟨h, ?_, ?_⟩
      · rw [h.2]
      · split <;> trivial
    · cases found with
      | some session =>
        exact (respects_modify fun c c' h => sameAt_cacheSession id session h).bind fun _ => trivial
      | none => trivial

theorem respects_requireSession (call : CoordinatorCall) :
    (requireSession call id).Respects (SameAt id) := by
  refine (respects_getSession call).bind fun found => ?_
  cases found <;> trivial

theorem respects_writeRecord (call : CoordinatorCall) (session : SigningSession) :
    (writeRecord call session).Respects (SameAt id) := by
  intro ok c c' h
  cases ok with
  | true => exact ⟨sameAt_storeSession session h, rfl, trivial⟩
  | false => exact ⟨h, rfl, trivial⟩

theorem respects_saveSession (call : CoordinatorCall) (session : SigningSession) :
    (saveSession call session).Respects (SameAt id) := by
  refine (respects_writeRecord call session).bind fun updated => ?_
  split
  · trivial
  refine (respects_writeRecord call session).bind fun saved => ?_
  split <;> trivial

theorem respects_putSession (call : CoordinatorCall) (key : String) (session : SigningSession) :
    (putSession call key session).Respects (SameAt id) :=
  (respects_saveSession call session).bind fun _ =>
    respects_modify fun _ _ h => sameAt_cacheSession key session h

theorem respects_editSession (call : CoordinatorCall)
    (f : SigningSession → Except SigningProtocolError SigningSession) :
    (editSession call id f).Respects (SameAt id) :=
  (respects_requireSession call).bind fun session =>
    (respects_ofExcept (f session)).bind fun edited =>
      (respects_putSession call id edited).bind fun _ => trivial

theorem respects_emit (event : SigningEvent) : (emit event).Respects (SameAt id) :=
  respects_modify fun _ _ h => h

theorem respects_transitionState (state : SigningSessionState) :
    (transitionState id state).Respects (SameAt id) :=
  (respects_editSession .transitionState _).bind fun _ => (respects_emit _).bind fun _ => trivial

theorem respects_acceptConsent (signerDid : String) (keyBinding : KeyBinding) :
    (acceptConsent id signerDid keyBinding).Respects (SameAt id) :=
  (respects_editSession .acceptConsent _).bind fun _ => (respects_emit _).bind fun _ => trivial

theorem respects_acceptPartialSignature (signerDid signature : String) :
    (acceptPartialSignature id signerDid signature).Respects (SameAt id) := by
  refine (respects_editSession .acceptPartialSignature _).bind fun p =>
    (respects_emit _).bind fun _ => Respects.bind ?_ fun _ => trivial
  unfold emitThresholdMet
  split
  · exact respects_emit _
  · trivial

theorem respects_combineSignatures : (combineSignatures encoding id).Respects (SameAt id) :=
  (respects_editSession .combineSignatures _).bind fun _ => (respects_emit _).bind fun _ => trivial

theorem respects_createSession (new : NewSession) :
    (createSession ourDid new).Respects (SameAt id) :=
  (respects_putSession .createSession _ _).bind fun _ => trivial

theorem respects_finishSigning : (finishSigning encoding id).Respects (SameAt id) :=
  (respects_transitionState _).bind fun _ => respects_combineSignatures.bind fun _ =>
    (respects_requireSession _).bind fun _ => (respects_transitionState _).bind fun _ => trivial

variable {inbound : InboundMessage}

theorem respects_handleConsent {body : Consent} :
    (handleConsent inbound body).Respects (SameAt body.sessionId) := by
  refine (respects_ofExcept _).bind fun _ => ?_
  split
  · trivial
  refine (respects_requireSession _).bind fun session => ?_
  split
  · trivial
  refine (respects_acceptConsent _ _).bind fun all => ?_
  split
  · exact (respects_transitionState _).bind fun _ =>
      (respects_transitionState _).bind fun _ => trivial
  · trivial

theorem respects_handlePartialSignature {body : PartialSignature} :
    (handlePartialSignature encoding inbound body).Respects (SameAt body.sessionId) := by
  refine (respects_ofExcept _).bind fun _ => (respects_requireSession _).bind fun session =>
    (respects_ofExcept _).bind fun _ =>
      (respects_acceptPartialSignature _ _).bind fun reached => ?_
  split
  · exact respects_finishSigning
  · trivial

theorem respects_handleEnd (state : SigningSessionState) :
    (handleEnd id state).Respects (SameAt id) :=
  (respects_transitionState state).attempt.bind fun _ => trivial

theorem respects_handleAck {body : Ack} : (handleAck body).Respects (SameAt body.sessionId) := by
  refine (respects_getSession _).bind fun found => ?_
  split
  · trivial
  · split
    · exact respects_handleEnd .completed
    · trivial

/-- **Locality.**  A handler looks at the session that its message names only. -/
theorem respects_handle (hid : inbound.message.sessionId = some id) :
    (handle encoding ourDid inbound).Respects (SameAt id) := by
  unfold handle
  split
  · refine Respects.bind ?_ fun _ => trivial
    unfold dispatch
    cases hm : inbound.message <;> rw [hm] at hid <;> cases hid
    · exact (respects_createSession _).bind fun _ => trivial
    · exact (respects_createSession _).bind fun _ =>
        (respects_transitionState _).bind fun _ => trivial
    · exact respects_handleConsent
    · exact respects_handlePartialSignature
    · exact (respects_getSession _).bind fun _ => trivial
    · trivial
    · trivial
    · exact respects_handleAck
    · exact respects_handleEnd _
    · exact respects_handleEnd _
  · trivial

end

/-! ## Steps -/

section

variable {id proposer : String} {session : SigningSession} {c c' : Coordinator} {a : SigningStep}

/-- Nothing else is written, and the session goes on. -/
structure GoesOn (id : String) (session : SigningSession) (c : Coordinator) : Prop where
  ok : c.Ok
  continues : ∃ t, c.storage id = some t ∧ session.Continues t

theorem not_makesSession_of_spares {inbound : InboundMessage} {inputs : List Bool}
    {sender : String} (hG : sparesSession id proposer session c (.message inbound inputs) = true)
    (hid : inbound.message.sessionId = some id) (hauth : inbound.authenticated = true)
    (hsender : inbound.sender = some sender) :
    inbound.message.makesSession = false ∧
      ((message inbound inputs).byOutsider proposer session = true → ∀ s,
        c.storage id = some s → inbound.message.movesSession s.state = false) := by
  simp only [sparesSession, hid, hauth, hsender, isSome_some, decide_true, Bool.and_true,
    Bool.not_true, Bool.false_or, Bool.and_eq_true, Bool.not_eq_true'] at hG
  refine ⟨hG.1, fun houtsider s hs => ?_⟩
  have hmoves := hG.2
  rw [houtsider, hs] at hmoves
  simpa using hmoves

theorem GoesOn.of_does {id' : String} {edits : List SessionEdit} (h : GoesOn id session c)
    (hdoes : Does encoding ourDid id' c edits c')
    (hedits : id' = id → ∀ edit ∈ edits, ∀ new, edit ≠ .create new) : GoesOn id session c' := by
  refine ⟨hdoes.ok, ?_⟩
  obtain ⟨t, ht, hcontinues⟩ := h.continues
  by_cases hid : id = id'
  · subst hid
    have h' := hdoes.edits
    rw [ht] at h'
    obtain ⟨u, hu, htu⟩ := h'.continues (hedits rfl)
    exact ⟨u, hu, hcontinues.trans htu⟩
  · exact ⟨t, (hdoes.others id hid).trans ht, hcontinues⟩

theorem GoesOn.step (h : GoesOn id session c) (hG : sparesSession id proposer session c a = true)
    (hstep : signingStep encoding ourDid c a = some c') : GoesOn id session c' := by
  cases a with
  | message inbound inputs =>
    rcases handled_of_step h.ok hstep with
      rfl | ⟨id', sender, hid, hauth, hsender, edits, hscript, hdoes⟩
    · exact h
    · refine h.of_does hdoes fun heq => ?_
      subst heq
      exact script_no_create hscript (not_makesSession_of_spares hG hid hauth hsender).1
  | transition id' state inputs =>
    rcases does_of_step h.ok hstep with rfl | hdoes
    · exact h
    · refine h.of_does hdoes fun _ edit hmem new => ?_
      rw [mem_singleton.1 hmem]
      simp

theorem mem_dids_of_withParticipant {did : String}
    {f : SessionParticipant → Except SigningProtocolError SessionParticipant}
    {participants edited : List SessionParticipant}
    (h : withParticipant did f participants = .ok edited) : did ∈ participants.map (·.did) := by
  obtain ⟨before, p, q, after, rfl, _, hdid, _, _⟩ := withParticipant_eq_ok h
  rw [List.mem_map]
  exact ⟨p, by simp, hdid⟩

theorem edits_eq_nil_of_outsider {inbound : InboundMessage} {sender : String}
    {s : SigningSession} {edits : List SessionEdit} {y : Option SigningSession}
    (hscript : Script encoding ourDid inbound (some s) edits)
    (hedits : Edits encoding ourDid (some s) edits y) (hsender : inbound.sender = some sender)
    (houtsider : sender ∉ s.participants.map (·.did))
    (hmakes : inbound.message.makesSession = false)
    (hmoves : inbound.message.movesSession s.state = false) : y = some s := by
  cases hedits with
  | nil => rfl
  | @cons _ _ u edit edits h hl =>
    exfalso
    unfold Script at hscript
    split at hscript
    · next hbody => rw [hbody] at hmakes; cases hmakes
    · next hbody => rw [hbody] at hmakes; cases hmakes
    · obtain ⟨rfl, _⟩ := cons_prefix_cons.1 hscript.1
      obtain ⟨participants, hps, _⟩ := map_participants_eq_ok (eq_ok_of_toOption h)
      cases hsender.symm.trans (hscript.2 (by simp))
      exact houtsider (mem_dids_of_withParticipant hps)
    · obtain ⟨rfl, _⟩ := cons_prefix_cons.1 hscript.1
      obtain ⟨participants, hps, _⟩ := map_participants_eq_ok (eq_ok_of_toOption h)
      cases hsender.symm.trans (hscript.2.1 (by simp)).1
      exact houtsider (mem_dids_of_withParticipant hps)
    · next hbody =>
      obtain ⟨s', hs', hstate⟩ := hscript.2 (by simp)
      cases hs'
      rw [hbody] at hmoves
      simp [movesSession, hstate] at hmoves
    iterate 2
      next hbody =>
      obtain ⟨rfl, _⟩ := cons_prefix_cons.1 hscript
      obtain ⟨hcan, _⟩ := withState_eq_ok (eq_ok_of_toOption h)
      rw [hbody] at hmoves
      exact absurd hcan (by simpa [movesSession] using hmoves)
    · cases hscript

/-- **A message of an outsider** leaves the session alone. -/
theorem storage_eq_of_outsider (h : GoesOn id session c)
    (hG : sparesSession id proposer session c a = true)
    (houtsider : a.byOutsider proposer session = true)
    (hstep : signingStep encoding ourDid c a = some c') : c.storage id = c'.storage id := by
  cases a with
  | transition id' state inputs => cases houtsider
  | message inbound inputs =>
    rcases handled_of_step h.ok hstep with
      rfl | ⟨id', sender, hid, hauth, hsender, edits, hscript, hdoes⟩
    · rfl
    by_cases heq : id = id'
    · subst heq
      obtain ⟨hmakes, hmoves⟩ := not_makesSession_of_spares hG hid hauth hsender
      obtain ⟨s, hs, hcontinues⟩ := h.continues
      have hedits := hdoes.edits
      rw [hs] at hscript hedits
      rw [hs, edits_eq_nil_of_outsider hscript hedits hsender ?_ hmakes (hmoves houtsider s hs)]
      rw [dids_eq_of_continues hcontinues.participants]
      simp only [byOutsider, hauth, hsender, any_some, Bool.true_and,
        decide_eq_true_eq] at houtsider
      exact houtsider.1
    · exact (hdoes.others id heq).symm

/-- **Lockstep.**  A step does the same to the session wherever it finds it alike. -/
theorem storage_eq_of_step {d d' : Coordinator} (hc : c.Ok) (hd : d.Ok)
    (hsame : c.storage id = d.storage id) (hc' : signingStep encoding ourDid c a = some c')
    (hd' : signingStep encoding ourDid d a = some d') : c'.storage id = d'.storage id := by
  have hat : SameAt id c d := ⟨by rw [hc.mirror, hd.mirror, hsame], hsame⟩
  cases a with
  | message inbound inputs =>
    by_cases hid : inbound.message.sessionId = some id
    · obtain ⟨⟨r, u, rest⟩, hu, rfl⟩ := map_eq_some_iff.1 hc'
      obtain ⟨⟨r', v, rest'⟩, hv, rfl⟩ := map_eq_some_iff.1 hd'
      exact ((respects_handle hid).run hat hu hv).1.2
    · have hother : ∀ {u u' : Coordinator}, u.Ok →
          signingStep encoding ourDid u (.message inbound inputs) = some u' →
          u'.storage id = u.storage id := by
        intro u u' hu hstep
        rcases handled_of_step hu hstep with rfl | ⟨id', _, hid', _, _, _, _, hdoes⟩
        · rfl
        · refine hdoes.others id fun heq => hid ?_
          rw [heq]
          exact hid'
      rw [hother hc hc', hother hd hd', hsame]
  | transition id' state inputs =>
    by_cases hid : id = id'
    · subst hid
      obtain ⟨⟨r, u, rest⟩, hu, rfl⟩ := map_eq_some_iff.1 hc'
      obtain ⟨⟨r', v, rest'⟩, hv, rfl⟩ := map_eq_some_iff.1 hd'
      exact ((respects_transitionState state).run hat hu hv).1.2
    · have hother : ∀ {u u' : Coordinator}, u.Ok →
          signingStep encoding ourDid u (.transition id' state inputs) = some u' →
          u'.storage id = u.storage id := by
        intro u u' hu hstep
        rcases does_of_step hu hstep with rfl | hdoes
        · rfl
        · exact hdoes.others id hid
      rw [hother hc hc', hother hd hd', hsame]

end

/-! ## Every two runs -/

/-- **Outsiders cannot disturb a session** that is spared. -/
theorem undisturbed_of_sparesSession (encoding : Encoding) (ourDid : String)
    (l : List SigningStep) (id proposer : String) (l₁ l₂ : List SigningStep)
    (h : ∀ c session, exec (signingStep encoding ourDid) .start l = some c →
      c.storage id = some session →
      Along (signingStep encoding ourDid)
          (fun c a => sparesSession id proposer session c a = true) c l₁ ∧
        Along (signingStep encoding ourDid)
          (fun c a => sparesSession id proposer session c a = true) c l₂) :
    Undisturbed encoding ourDid l id proposer l₁ l₂ := by
  intro c session c₁ c₂ hexec hs hfilter h₁ h₂
  obtain ⟨hG₁, hG₂⟩ := h c session hexec hs
  have hok : c.Ok := exec_invariant (fun _ _ _ hu hstep => signingStep_ok hu hstep) ok_start hexec
  have hstart : GoesOn id session c := ⟨hok, session, hs, .refl session⟩
  have hkeep : ∀ u a v, GoesOn id session u → sparesSession id proposer session u a = true →
      signingStep encoding ourDid u a = some v → GoesOn id session v :=
    fun u a v hu hG hstep => hu.step hG hstep
  have hsame : c₁.storage id = c₂.storage id := by
    have hequivalence : Equivalence fun u v : Coordinator => u.storage id = v.storage id :=
      ⟨fun _ => rfl, Eq.symm, Eq.trans⟩
    refine exec_unwinding hequivalence hkeep (fun u a v hu hG ha hstep => ?_)
      (fun u v a u' v' hu hv huv _ _ hstep hstep' => ?_) hstart hstart rfl hfilter hG₁ hG₂ h₁ h₂
    · exact storage_eq_of_outsider hu hG (by simpa using ha) hstep
    · exact storage_eq_of_step hu.ok hv.ok huv hstep hstep'
  obtain ⟨t, ht, hcontinues⟩ := (exec_invariant_along hkeep hstart hG₁ h₁).continues
  exact ⟨hsame, t, ht, hcontinues, eq_of_isTerminal hcontinues.state⟩

namespace Sample

/-- `P` asks `C` to coordinate the signing. -/
def requestRun : List SigningStep := [message "P" (.requestSigning request)]

/-- A consent of a participant, after one that an outsider cannot give. -/
def foreignConsentRun : List SigningStep :=
  [message "M" (.consent (consent "M")), message "A" (.consent (consent "A"))]

def consentOnlyRun : List SigningStep := [message "A" (.consent (consent "A"))]

end Sample

open Sample in
/-- An outsider's consent. -/
theorem undisturbed_of_sparesSession_consent :
    Undisturbed base64 "C" requestRun "s" "P" foreignConsentRun consentOnlyRun := by
  refine undisturbed_of_sparesSession _ _ _ _ _ _ _ fun c session hexec hs => ?_
  have hdecide : ((exec (signingStep base64 "C") .start requestRun).all fun c =>
      (c.storage "s").all fun session => decide
        (Along (signingStep base64 "C") (fun c a => sparesSession "s" "P" session c a = true) c
            foreignConsentRun ∧
          Along (signingStep base64 "C") (fun c a => sparesSession "s" "P" session c a = true) c
            consentOnlyRun)) = true := by decide +kernel
  rw [hexec, all_some, hs, all_some] at hdecide
  exact of_decide_eq_true hdecide

open Sample in
/-- An outsider declines the session, or makes it anew. -/
theorem undisturbed_fails_outsider :
    ¬ Undisturbed base64 "C" requestRun "s" "P" [message "M" (.decline "s" "M")] [] ∧
      ¬ Undisturbed base64 "C" requestRun "s" "P"
        [message "M" (.requestSigning { request with threshold := none })] [] := by
  have hfails : ∀ a : SigningStep, ((exec (signingStep base64 "C") .start requestRun).any fun c =>
      (c.storage "s").any fun session => a.byOutsider "P" session &&
        (signingStep base64 "C" c a).any fun c' => (c'.storage "s").any fun t =>
          decide (session.state ≠ t.state) || decide
            (session.threshold.isSome ≠ t.threshold.isSome)) = true →
      ¬ Undisturbed base64 "C" requestRun "s" "P" [a] [] := by
    intro a ha h
    obtain ⟨c, hexec, ha⟩ := (any_eq_true _ _).1 ha
    obtain ⟨session, hs, ha⟩ := (any_eq_true _ _).1 ha
    rw [Bool.and_eq_true] at ha
    obtain ⟨houtsider, ha⟩ := ha
    obtain ⟨c', hstep, ha⟩ := (any_eq_true _ _).1 ha
    obtain ⟨t, ht, ha⟩ := (any_eq_true _ _).1 ha
    have hsame := (h c session c' c hexec hs (by simp [houtsider])
      (exec_cons_eq_some.2 ⟨c', hstep, rfl⟩) rfl).1
    rw [hs, ht] at hsame
    cases hsame
    simp at ha
  exact ⟨hfails _ (by decide +kernel), hfails _ (by decide +kernel)⟩

end Idiom.Signing
