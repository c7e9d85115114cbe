import Idiom.Lib.Guarded
import Idiom.Signing.Edits

/-!
# Rejected messages

A consent or a partial signature is recorded first; the transitions that it leads to come after,
and may fail.
-/

namespace Idiom.Signing

open SigningSession Prog Coordinator Option

variable {encoding : Encoding} {ourDid : String}

/-! ## Contributions -/

/-- The consent of a message, if it passes the checks of the handler. -/
def recordedConsent (inbound : InboundMessage) (body : Consent) (s : SigningSession) :
    Except SigningProtocolError SigningSession :=
  match requireClaimedSender inbound body.signerDid with
  | .error e => .error e
  | .ok _ =>
    if body.keyBinding.controller ≠ body.signerDid then
      .error (.unauthorized "key binding controller does not match signer")
    else if body.acceptedSuite.id ≠ s.suite.id then
      .error (.signatureError "accepted suite does not match signing session")
    else s.withConsent body.signerDid body.keyBinding

/-- The partial signature of a message, if it passes the checks of the handler. -/
def recordedSignature (encoding : Encoding) (inbound : InboundMessage) (body : PartialSignature)
    (s : SigningSession) : Except SigningProtocolError SigningSession :=
  match requireClaimedSender inbound body.signerDid, checkPartialSignature encoding s body with
  | .error e, _ => .error e
  | .ok _, .error e => .error e
  | .ok _, .ok _ => s.withSignature body.signerDid body.signature

def recorded (encoding : Encoding) (inbound : InboundMessage) (s : SigningSession) :
    Option SigningSession :=
  match inbound.message with
  | .consent body => (recordedConsent inbound body s).toOption
  | .partialSignature body => (recordedSignature encoding inbound body s).toOption
  | _ => none

/-- The number of contributions of the kind of the message. -/
def SigningMessage.count (s : SigningSession) : SigningMessage → ℕ
  | .consent _ => s.consentedCount
  | .partialSignature _ => s.signedCount
  | _ => 0

/-- As many contributions of the kind of the message as are required. -/
def SigningMessage.completes (message : SigningMessage) (s : SigningSession) : Bool :=
  decide (s.requiredSignatures ≤ UInt32.ofNat (message.count s))

/-- The state in which the contributions of the kind of the message are collected. -/
def SigningMessage.collectedIn : SigningMessage → SigningSessionState → Prop
  | .consent _, state => state = .requested
  | .partialSignature _, state => state = .signing
  | _, _ => False

/-! ## Calls -/

/-- The session is stored under the id, and the cache has nothing else there. -/
structure Stands (c : Coordinator) (id : String) (s : SigningSession) : Prop where
  stored : c.storage id = some s
  cached : c.sessions id = none ∨ c.sessions id = some s
  keyed : s.sessionId = id

/-- It is in the cache too. -/
structure Loaded (c : Coordinator) (id : String) (s : SigningSession) : Prop where
  stored : c.storage id = some s
  cached : c.sessions id = some s
  keyed : s.sessionId = id

/-- The session is found: by the storage, if it is not in the cache. -/
def Finds (answer : Access → Bool) (c : Coordinator) (id : String) : Prop :=
  c.sessions id = none → answer .find = true

variable {answer : Access → Bool} {c : Coordinator} {id : String} {s s' : SigningSession}

theorem answered_requireSession (call : CoordinatorCall) (h : Stands c id s)
    (hfinds : Finds answer c id) : ∃ c',
    (requireSession call id).answered answer c = (.ok s, c') ∧ Loaded c' id s ∧
      c'.storage = c.storage := by
  rcases h.cached with hcached | hcached
  · refine ⟨cacheSession id s c, ?_, ⟨h.stored, ?_, h.keyed⟩, rfl⟩
    · simp [requireSession, getSession, Prog.get, Prog.modify, hcached, h.stored, hfinds hcached]
    · simp [cacheSession]
  · exact ⟨c, by simp [requireSession, getSession, Prog.get, hcached],
      ⟨h.stored, hcached, h.keyed⟩, rfl⟩

theorem answered_requireSession_error (call : CoordinatorCall) (hfinds : ¬ Finds answer c id) :
    ∃ e, (requireSession call id).answered answer c = (.error e, c) := by
  unfold Finds at hfinds
  rw [Classical.not_imp, Bool.not_eq_true] at hfinds
  exact ⟨.storageError, by
    simp [requireSession, getSession, Prog.get, hfinds.1, hfinds.2, Prog.answered]⟩

namespace Loaded

variable (h : Loaded c id s)
include h

theorem answered_requireSession (call : CoordinatorCall) :
    (requireSession call id).answered answer c = (.ok s, c) := by
  simp [requireSession, getSession, Prog.get, h.cached]

theorem answered_editSession_error (call : CoordinatorCall) {e : SigningProtocolError}
    {f : SigningSession → Except SigningProtocolError SigningSession} (hf : f s = .error e) :
    (editSession call id f).answered answer c = (.error e, c) := by
  unfold editSession
  rw [answered_bind_ok (h.answered_requireSession call), hf]
  rfl

theorem answered_editSession_refused {call : CoordinatorCall}
    {f : SigningSession → Except SigningProtocolError SigningSession} (hf : f s = .ok s')
    (hrefused : answer (.save call s') = false) :
    (editSession call id f).answered answer c = (.error .storageError, c) := by
  unfold editSession
  rw [answered_bind_ok (h.answered_requireSession call), hf]
  simp [Prog.ofExcept, putSession, saveSession, writeRecord, hrefused, Prog.answered]

theorem answered_editSession_ok {call : CoordinatorCall}
    {f : SigningSession → Except SigningProtocolError SigningSession} (hf : f s = .ok s')
    (hid : s'.sessionId = s.sessionId) (htaken : answer (.save call s') = true) : ∃ c',
    (editSession call id f).answered answer c = (.ok (s, s'), c') ∧ Loaded c' id s' := by
  refine ⟨cacheSession id s' (storeSession s' c), ?_, ?_⟩
  · unfold editSession
    rw [answered_bind_ok (h.answered_requireSession call), hf]
    simp [Prog.ofExcept, putSession, saveSession, writeRecord, htaken, Prog.modify]
  · have hid : s'.sessionId = id := hid.trans h.keyed
    exact ⟨by simp [cacheSession, storeSession, hid], by simp [cacheSession], hid⟩

theorem answered_transitionState_error {state : SigningSessionState}
    (hcan : s.state.canTransitionTo state = false) :
    ∃ e, (transitionState id state).answered answer c = (.error e, c) :=
  ⟨_, answered_bind_error (h.answered_editSession_error .transitionState
    (show s.withState state = .error (.invalidStateTransition s.state state) by
      simp [withState, hcan]))⟩

theorem answered_transitionState_refused {state : SigningSessionState}
    (hcan : s.state.canTransitionTo state = true)
    (hrefused : answer (.save .transitionState { s with state := state }) = false) :
    (transitionState id state).answered answer c = (.error .storageError, c) :=
  answered_bind_error (h.answered_editSession_refused
    (show s.withState state = .ok { s with state := state } by simp [withState, hcan]) hrefused)

theorem answered_transitionState_ok {state : SigningSessionState}
    (hcan : s.state.canTransitionTo state = true)
    (htaken : answer (.save .transitionState { s with state := state }) = true) : ∃ c',
    (transitionState id state).answered answer c = (.ok { s with state := state }, c') ∧
      Loaded c' id { s with state := state } := by
  obtain ⟨c', hedit, hc'⟩ := h.answered_editSession_ok
    (show s.withState state = .ok { s with state := state } by simp [withState, hcan]) rfl htaken
  refine ⟨c', ?_, hc'⟩
  unfold transitionState
  rw [answered_bind_ok hedit]
  rfl

end Loaded

theorem withConsent_sessionId {did : String} {keyBinding : KeyBinding}
    (h : s.withConsent did keyBinding = .ok s') :
    s'.sessionId = s.sessionId ∧ s'.state = s.state := by
  obtain ⟨_, _, rfl⟩ := map_participants_eq_ok h
  exact ⟨rfl, rfl⟩

theorem withSignature_spec {did signature : String} (h : s.withSignature did signature = .ok s') :
    s'.sessionId = s.sessionId ∧ s'.state = s.state ∧ s'.signatures.isEmpty = false := by
  obtain ⟨participants, hp, rfl⟩ := map_participants_eq_ok h
  obtain ⟨before, p, q, after, _, _, _, hq, rfl⟩ := withParticipant_eq_ok hp
  refine ⟨rfl, rfl, ?_⟩
  split at hq
  · cases hq
  · cases hq
    simp [signatures]

/-! ## What follows a contribution -/

/-- The write that records a contribution. -/
def SigningMessage.write (s : SigningSession) : SigningMessage → Access
  | .consent _ => .save .acceptConsent s
  | _ => .save .acceptPartialSignature s

/-- The writes of the transitions that a contribution leads to. -/
def SigningMessage.writesAfter (encoding : Encoding) (s : SigningSession) :
    SigningMessage → List Access
  | .consent _ => [.save .transitionState { s with state := .consented },
      .save .transitionState { s with state := .signing }]
  | .partialSignature _ =>
    let combined := some (encoding.encodeArray s.signatures)
    [.save .transitionState { s with state := .combining },
      .save .combineSignatures { s with state := .combining, combinedSignature := combined },
      .save .transitionState { s with state := .distributing, combinedSignature := combined }]
  | _ => []

/-- The storage finds the session and takes the contribution. -/
def Records (answer : Access → Bool) (c : Coordinator) (id : String) (message : SigningMessage)
    (s' : SigningSession) : Prop :=
  Finds answer c id ∧ answer (message.write s') = true

/-- The call ends well if every write is taken, and else fails in another state. -/
def Settles {α : Type} (answer : Access → Bool) (writes : List Access) (id : String)
    (state : SigningSessionState) (result : Except SigningProtocolError α × Coordinator) : Prop :=
  ((∀ w ∈ writes, answer w = true) → ∃ r, result.1 = .ok r) ∧
    ((∃ w ∈ writes, answer w = false) →
      (∃ e, result.1 = .error e) ∧ ∃ t, result.2.storage id = some t ∧ t.state ≠ state)

section

variable {α : Type} {writes : List Access} {w : Access} {state : SigningSessionState}
  {result : Except SigningProtocolError α × Coordinator}

theorem settles_nil {r : α} (h : result.1 = .ok r) : Settles answer [] id state result :=
  ⟨fun _ => ⟨r, h⟩, fun ⟨_, hw, _⟩ => absurd hw List.not_mem_nil⟩

theorem settles_cons
    (hrefused : answer w = false →
      (∃ e, result.1 = .error e) ∧ ∃ t, result.2.storage id = some t ∧ t.state ≠ state)
    (htaken : answer w = true → Settles answer writes id state result) :
    Settles answer (w :: writes) id state result := by
  cases hw : answer w with
  | false =>
    refine ⟨fun hall => ?_, fun _ => hrefused hw⟩
    rw [hall w List.mem_cons_self] at hw
    cases hw
  | true =>
    obtain ⟨hok, herror⟩ := htaken hw
    refine ⟨fun hall => hok fun v hv => hall v (List.mem_cons_of_mem w hv),
      fun ⟨v, hv, hfalse⟩ => ?_⟩
    rcases List.mem_cons.1 hv with rfl | hv
    · rw [hw] at hfalse
      cases hfalse
    · exact herror ⟨v, hv, hfalse⟩

end

/-- What the transitions come to, that go on from a session: without their first write nothing is
changed, and from then on the state is another. -/
def Proceeds {α : Type} (answer : Access → Bool) (writes : List Access) (id : String)
    (s : SigningSession) (result : Except SigningProtocolError α × Coordinator) : Prop :=
  ∃ w rest, writes = w :: rest ∧
    (answer w = false → (∃ e, result.1 = .error e) ∧ result.2.storage id = some s) ∧
    (answer w = true → Settles answer rest id s.state result)

theorem proceeds_consent {body : Consent} (h : Loaded c id s) (hstate : s.state = .requested) :
    Proceeds answer ((SigningMessage.consent body).writesAfter encoding s) id s
      ((do
        let _ ← transitionState id .consented
        let _ ← transitionState id .signing
        return none : Coord (Option SigningMessage)).answered answer c) := by
  have hcan : s.state.canTransitionTo .consented = true := by
    rw [hstate]
    rfl
  refine ⟨_, _, rfl, fun hrefused => ?_, fun htaken => ?_⟩
  · rw [answered_bind_error (h.answered_transitionState_refused hcan hrefused)]
    exact ⟨⟨_, rfl⟩, h.stored⟩
  obtain ⟨c₁, hmove, h₁⟩ := h.answered_transitionState_ok hcan htaken
  rw [answered_bind_ok hmove]
  refine settles_cons (fun hrefused => ?_) fun htaken => ?_
  · rw [answered_bind_error (h₁.answered_transitionState_refused rfl hrefused)]
    exact ⟨⟨_, rfl⟩, _, h₁.stored, by simp [hstate]⟩
  · obtain ⟨c₂, hmove', -⟩ := h₁.answered_transitionState_ok rfl htaken
    rw [answered_bind_ok hmove']
    exact settles_nil rfl

theorem proceeds_partialSignature {body : PartialSignature} (h : Loaded c id s)
    (hstate : s.state = .signing) (hsigned : s.signatures.isEmpty = false) :
    Proceeds answer ((SigningMessage.partialSignature body).writesAfter encoding s) id s
      ((finishSigning encoding id).answered answer c) := by
  have hcan : s.state.canTransitionTo .combining = true := by
    rw [hstate]
    rfl
  unfold finishSigning
  refine ⟨_, _, rfl, fun hrefused => ?_, fun htaken => ?_⟩
  · rw [answered_bind_error (h.answered_transitionState_refused hcan hrefused)]
    exact ⟨⟨_, rfl⟩, h.stored⟩
  obtain ⟨c₁, hmove, h₁⟩ := h.answered_transitionState_ok hcan htaken
  rw [answered_bind_ok hmove]
  have hcombined : ({ s with state := .combining } : SigningSession).withCombined encoding =
      .ok { s with
        state := .combining
        combinedSignature := some (encoding.encodeArray s.signatures) } := by
    simp only [withCombined, show ({ s with state := .combining } : SigningSession).signatures =
      s.signatures from rfl, hsigned, Bool.false_eq_true, if_false]
  refine settles_cons (fun hrefused => ?_) fun htaken => ?_
  · have hcombine : (combineSignatures encoding id).answered answer c₁ =
        (.error .storageError, c₁) :=
      answered_bind_error (h₁.answered_editSession_refused hcombined hrefused)
    rw [answered_bind_error hcombine]
    exact ⟨⟨_, rfl⟩, _, h₁.stored, by simp [hstate]⟩
  obtain ⟨c₂, hcombine, h₂⟩ := h₁.answered_editSession_ok hcombined rfl htaken
  have hcombine : (combineSignatures encoding id).answered answer c₁ =
      (.ok (encoding.encodeArray s.signatures), c₂) := by
    unfold combineSignatures
    rw [answered_bind_ok hcombine]
    rfl
  rw [answered_bind_ok hcombine, answered_bind_ok (h₂.answered_requireSession .getSession)]
  refine settles_cons (fun hrefused => ?_) fun htaken => ?_
  · rw [answered_bind_error (h₂.answered_transitionState_refused rfl hrefused)]
    exact ⟨⟨_, rfl⟩, _, h₂.stored, by simp [hstate]⟩
  · obtain ⟨c₃, hdistribute, -⟩ := h₂.answered_transitionState_ok rfl htaken
    rw [answered_bind_ok hdistribute]
    exact settles_nil rfl

/-! ## Handlers -/

/-- A message that is not recorded is rejected and changes nothing; neither does one that the
storage does not take. One that is recorded is accepted, unless it completes its kind: then the
transitions go on, or fail in a state that does not collect it. -/
def Comes {α : Type} (encoding : Encoding) (answer : Access → Bool) (message : SigningMessage)
    (recorded : Option SigningSession) (s : SigningSession) (c : Coordinator) (id : String)
    (result : Except SigningProtocolError α × Coordinator) : Prop :=
  match recorded with
  | none => (∃ e, result.1 = .error e) ∧ result.2.storage = c.storage
  | some s' =>
    (¬ Records answer c id message s' →
      (∃ e, result.1 = .error e) ∧ result.2.storage = c.storage) ∧
    (Records answer c id message s' →
      (message.completes s' = false → ∃ r, result.1 = .ok r) ∧
      (message.completes s' = true → ¬ message.collectedIn s.state →
        (∃ e, result.1 = .error e) ∧ result.2.storage id = some s') ∧
      (message.completes s' = true → message.collectedIn s.state →
        Proceeds answer (message.writesAfter encoding s') id s' result))

/-- A contribution is accepted by one write; the rest of the handler goes on if it is complete. -/
theorem comes_of_accept {α : Type} {message : SigningMessage} {c₁ : Coordinator}
    {f : SigningSession → Except SigningProtocolError SigningSession} {accept : Coord Bool}
    {goOn : Coord (Option α)} (hfinds : Finds answer c id) (hstorage : c₁.storage = c.storage)
    (hrefused : ∀ e, f s = .error e → accept.answered answer c₁ = (.error e, c₁))
    (hunstored : ∀ s', f s = .ok s' → answer (message.write s') = false →
      ∃ e, accept.answered answer c₁ = (.error e, c₁))
    (hstored : ∀ s', f s = .ok s' → answer (message.write s') = true → ∃ c₂,
      accept.answered answer c₁ = (.ok (message.completes s'), c₂) ∧ Loaded c₂ id s')
    (hlate : ∀ s' c₂, f s = .ok s' → Loaded c₂ id s' → ¬ message.collectedIn s.state →
      ∃ e, goOn.answered answer c₂ = (.error e, c₂))
    (hready : ∀ s' c₂, f s = .ok s' → Loaded c₂ id s' → message.collectedIn s.state →
      Proceeds answer (message.writesAfter encoding s') id s' (goOn.answered answer c₂)) :
    Comes encoding answer message (f s).toOption s c id
      ((accept >>= fun all => if all = true then goOn else return none).answered answer c₁) := by
  cases hf : f s with
  | error e =>
    rw [answered_bind_error (hrefused e hf)]
    exact ⟨⟨e, rfl⟩, hstorage⟩
  | ok s' =>
    refine ⟨fun hnot => ?_, fun hrecords => ?_⟩
    · obtain ⟨e, haccept⟩ := hunstored s' hf (by simpa using fun h => hnot ⟨hfinds, h⟩)
      rw [answered_bind_error haccept]
      exact ⟨⟨e, rfl⟩, hstorage⟩
    · obtain ⟨c₂, haccept, h₂⟩ := hstored s' hf hrecords.2
      rw [answered_bind_ok haccept]
      refine ⟨fun hshort => ?_, fun hcompletes hnot => ?_, fun hcompletes hcollected => ?_⟩
      · rw [if_neg (by simp [hshort])]
        exact ⟨none, rfl⟩
      · obtain ⟨e, hgoOn⟩ := hlate s' c₂ hf h₂ hnot
        rw [if_pos hcompletes, hgoOn]
        exact ⟨⟨e, rfl⟩, h₂.stored⟩
      · rw [if_pos hcompletes]
        exact hready s' c₂ hf h₂ hcollected

theorem comes_of_not_finds {α : Type} {message : SigningMessage} {recorded : Option SigningSession}
    {result : Except SigningProtocolError α × Coordinator} (hfinds : ¬ Finds answer c id)
    (herror : ∃ e, result.1 = .error e) (hstorage : result.2.storage = c.storage) :
    Comes encoding answer message recorded s c id result := by
  cases recorded with
  | none => exact ⟨herror, hstorage⟩
  | some s' => exact ⟨fun _ => ⟨herror, hstorage⟩, fun h => absurd h.1 hfinds⟩

variable {inbound : InboundMessage}

theorem comes_handleConsent {body : Consent} (h : Stands c body.sessionId s) :
    Comes encoding answer (.consent body) (recordedConsent inbound body s).toOption s c
      body.sessionId ((handleConsent inbound body).answered answer c) := by
  unfold recordedConsent handleConsent
  cases requireClaimedSender inbound body.signerDid with
  | error e => exact ⟨⟨e, rfl⟩, rfl⟩
  | ok sender =>
    simp only [Prog.ofExcept, Prog.done_bind]
    by_cases hcontroller : body.keyBinding.controller ≠ body.signerDid
    · simp only [if_pos hcontroller]
      exact ⟨⟨_, rfl⟩, rfl⟩
    simp only [if_neg hcontroller]
    by_cases hfinds : Finds answer c body.sessionId
    · obtain ⟨c₁, hload, h₁, hstorage⟩ := answered_requireSession .getSession h hfinds
      rw [answered_bind_ok hload]
      by_cases hsuite : body.acceptedSuite.id ≠ s.suite.id
      · simp only [if_pos hsuite]
        exact ⟨⟨_, rfl⟩, hstorage⟩
      simp only [if_neg hsuite]
      refine comes_of_accept (f := withConsent body.signerDid body.keyBinding) hfinds hstorage
        (fun e hf => answered_bind_error (h₁.answered_editSession_error .acceptConsent hf))
        (fun s' hf hw => ⟨_, answered_bind_error (h₁.answered_editSession_refused hf hw)⟩)
        (fun s' hf hw => ?_) (fun s' c₂ hf h₂ hlate => ?_) fun s' c₂ hf h₂ hready => ?_
      · obtain ⟨c₂, hedit, h₂⟩ := h₁.answered_editSession_ok hf (withConsent_sessionId hf).1 hw
        refine ⟨c₂, ?_, h₂⟩
        unfold acceptConsent
        rw [answered_bind_ok hedit]
        rfl
      · have hcan : s'.state.canTransitionTo .consented = false := by
          rw [(withConsent_sessionId hf).2]
          revert hlate
          cases s.state <;> simp [SigningMessage.collectedIn, SigningSessionState.canTransitionTo]
        obtain ⟨e, hmove⟩ := h₂.answered_transitionState_error hcan
        exact ⟨e, answered_bind_error hmove⟩
      · exact proceeds_consent h₂ ((withConsent_sessionId hf).2.trans hready)
    · obtain ⟨e, hload⟩ := answered_requireSession_error .getSession hfinds
      rw [answered_bind_error hload]
      exact comes_of_not_finds hfinds ⟨e, rfl⟩ rfl

theorem comes_handlePartialSignature {body : PartialSignature} (h : Stands c body.sessionId s) :
    Comes encoding answer (.partialSignature body)
      (recordedSignature encoding inbound body s).toOption
      s c body.sessionId ((handlePartialSignature encoding inbound body).answered answer c) := by
  unfold recordedSignature handlePartialSignature
  cases requireClaimedSender inbound body.signerDid with
  | error e => exact ⟨⟨e, rfl⟩, rfl⟩
  | ok sender =>
    simp only [Prog.ofExcept, Prog.done_bind]
    by_cases hfinds : Finds answer c body.sessionId
    · obtain ⟨c₁, hload, h₁, hstorage⟩ := answered_requireSession .getSession h hfinds
      rw [answered_bind_ok hload]
      cases checkPartialSignature encoding s body with
      | error e => exact ⟨⟨e, rfl⟩, hstorage⟩
      | ok _ =>
        simp only [done_bind]
        refine comes_of_accept (f := withSignature body.signerDid body.signature) hfinds hstorage
          (fun e hf => answered_bind_error (h₁.answered_editSession_error .acceptPartialSignature
            hf))
          (fun s' hf hw => ⟨_, answered_bind_error (h₁.answered_editSession_refused hf hw)⟩)
          (fun s' hf hw => ?_) (fun s' c₂ hf h₂ hlate => ?_) fun s' c₂ hf h₂ hready => ?_
        · obtain ⟨c₂, hedit, h₂⟩ := h₁.answered_editSession_ok hf (withSignature_spec hf).1 hw
          refine ⟨c₂, ?_, h₂⟩
          unfold acceptPartialSignature
          rw [answered_bind_ok hedit]
          simp only [emit, emitThresholdMet, Prog.modify, Prog.access_bind, Prog.done_bind,
            answered_access]
          split <;> rfl
        · have hcan : s'.state.canTransitionTo .combining = false := by
            rw [(withSignature_spec hf).2.1]
            revert hlate
            cases s.state <;> simp [SigningMessage.collectedIn, SigningSessionState.canTransitionTo]
          obtain ⟨e, hmove⟩ := h₂.answered_transitionState_error hcan
          exact ⟨e, answered_bind_error hmove⟩
        · obtain ⟨-, hstate, hsigned⟩ := withSignature_spec hf
          exact proceeds_partialSignature h₂ (hstate.trans hready) hsigned
    · obtain ⟨e, hload⟩ := answered_requireSession_error .getSession hfinds
      rw [answered_bind_error hload]
      exact comes_of_not_finds hfinds ⟨e, rfl⟩ rfl

theorem answered_handleEnd (state : SigningSessionState) :
    ((handleEnd id state).answered answer c).1 = .ok none := by
  unfold handleEnd
  rw [answered_bind_ok (answered_attempt ..)]
  rfl

theorem comes_map {α β : Type} {message : SigningMessage} {edited : Option SigningSession}
    {p : Coord α} (f : α → β) (h : Comes encoding answer message edited s c id
      (p.answered answer c)) :
    Comes encoding answer message edited s c id ((f <$> p).answered answer c) := by
  rw [answered_map]
  unfold Comes Proceeds Settles at *
  cases edited <;> cases hp : (p.answered answer c).1 <;> simp_all [Except.map]

/-! ## Sparing the session -/

def SigningMessage.contributes : SigningMessage → Bool
  | .consent _ => true
  | .partialSignature _ => true
  | _ => false

def SigningMessage.ends : SigningMessage → Bool
  | .decline _ _ => true
  | .problemReport _ _ => true
  | _ => false

theorem requireClaimedSender_error (did : String)
    (h : inbound.authenticated = false ∨ inbound.sender = none) :
    ∃ e, requireClaimedSender inbound did = .error e := by
  unfold requireClaimedSender
  split
  · exact ⟨_, rfl⟩
  · next hauthenticated =>
    rw [h.resolve_left hauthenticated]
    exact ⟨_, rfl⟩

theorem recorded_eq_none (h : inbound.authenticated = false ∨ inbound.sender = none) :
    recorded encoding inbound s = none := by
  unfold recorded
  split
  · next body _ =>
    obtain ⟨e, he⟩ := requireClaimedSender_error body.signerDid h
    simp [recordedConsent, he, Except.toOption]
  · next body _ =>
    obtain ⟨e, he⟩ := requireClaimedSender_error body.signerDid h
    simp [recordedSignature, he, Except.toOption]
  · rfl

variable (encoding ourDid answer) in
/-- **What a contribution comes to.** -/
theorem comes_handle (hkind : inbound.message.contributes = true)
    (hid : inbound.message.sessionId = some id) (h : Stands c id s) :
    Comes encoding answer inbound.message (recorded encoding inbound s) s c id
      ((handle encoding ourDid inbound).answered answer c) := by
  by_cases hsender : inbound.authenticated = false ∨ inbound.sender = none
  · rw [recorded_eq_none hsender]
    unfold handle
    split
    · next sender hauthenticated hsome =>
      rcases hsender with hfalse | hnone
      · rw [hauthenticated] at hfalse
        cases hfalse
      · rw [hsome] at hnone
        cases hnone
    · exact ⟨⟨_, rfl⟩, rfl⟩
  push Not at hsender
  obtain ⟨sender, hsome⟩ := ne_none_iff_exists'.1 hsender.2
  unfold handle
  simp only [Bool.eq_true_of_not_eq_false hsender.1, hsome]
  refine comes_map _ ?_
  unfold dispatch recorded
  cases hmessage : inbound.message with
  | consent body =>
    rw [hmessage] at hid
    cases hid
    exact comes_handleConsent h
  | partialSignature body =>
    rw [hmessage] at hid
    cases hid
    exact comes_handlePartialSignature h
  | _ =>
    rw [hmessage] at hkind
    cases hkind

/-- A message that is rejected leaves the stored session as it was. -/
def Spares (encoding : Encoding) (ourDid : String) (answer : Access → Bool)
    (inbound : InboundMessage) (c : Coordinator) (id : String) : Prop :=
  ∀ e, ((handle encoding ourDid inbound).answered answer c).1 = .error e →
    ((handle encoding ourDid inbound).answered answer c).2.storage id = c.storage id

/-- When there are enough contributions, that of a further participant is accepted. -/
def TakesSurplus (encoding : Encoding) (ourDid : String) (answer : Access → Bool)
    (inbound : InboundMessage) (c : Coordinator) (s : SigningSession) : Prop :=
  ∀ s', recorded encoding inbound s = some s' →
    inbound.message.count s < inbound.message.count s' → inbound.message.completes s = true →
    ∃ r, ((handle encoding ourDid inbound).answered answer c).1 = .ok r

/-- The transitions that a complete contribution leads to are all made; or there are none, of a
contribution that changes nothing. -/
def Concludes (encoding : Encoding) (answer : Access → Bool) (message : SigningMessage)
    (s s' : SigningSession) : Prop :=
  (message.collectedIn s.state ∧ ∀ w ∈ message.writesAfter encoding s', answer w = true) ∨
    (s' = s ∧ (message.collectedIn s.state →
      ∀ w ∈ (message.writesAfter encoding s').head?, answer w = false))

theorem spares_of_ends (hkind : inbound.message.ends = true) :
    Spares encoding ourDid answer inbound c id := by
  intro e he
  unfold handle at *
  split at he
  · change ((_ <$> dispatch encoding ourDid inbound).answered answer c).1 = _ at he
    rw [answered_map] at he
    have hok : ∃ r, ((dispatch encoding ourDid inbound).answered answer c).1 = .ok r := by
      unfold dispatch
      cases hmessage : inbound.message with
      | decline sessionId decliner
      | problemReport sessionId reporter => exact ⟨none, answered_handleEnd _⟩
      | _ =>
        rw [hmessage] at hkind
        cases hkind
    obtain ⟨r, hr⟩ := hok
    rw [hr] at he
    cases he
  · rfl

variable (encoding) in
theorem concludes_iff {α : Type} {message : SigningMessage}
    {result : Except SigningProtocolError α × Coordinator} (hlate : ¬ message.collectedIn s.state →
      (∃ e, result.1 = .error e) ∧ result.2.storage id = some s')
    (hgoes : message.collectedIn s.state →
      Proceeds answer (message.writesAfter encoding s') id s' result)
    (hstate : s'.state = s.state) :
    ((∀ e, result.1 = .error e → result.2.storage id = some s) ↔
        Concludes encoding answer message s s') ∧
      (s' ≠ s → Concludes encoding answer message s s' → ∃ r, result.1 = .ok r) := by
  unfold Concludes
  by_cases hcollected : message.collectedIn s.state
  · obtain ⟨w, rest, hwrites, hrefused, htaken⟩ := hgoes hcollected
    rw [hwrites]
    simp only [hcollected, true_and, forall_const, List.head?_cons, Option.mem_some_iff,
      forall_eq', List.forall_mem_cons]
    cases hw : answer w with
    | false =>
      obtain ⟨⟨e, he⟩, hstored⟩ := hrefused hw
      simp only [Bool.false_eq_true, false_and, and_true, false_or]
      rw [hstored, he]
      exact ⟨⟨fun h => some.inj (h e rfl), fun h _ _ => congrArg some h⟩,
        fun hne h => absurd h hne⟩
    | true =>
      obtain ⟨hok, herror⟩ := htaken hw
      simp only [Bool.true_eq_false, and_false, or_false, true_and]
      refine ⟨⟨fun h => ?_, fun hall e he => ?_⟩, fun _ hall => hok hall⟩
      · by_contra hnot
        push Not at hnot
        obtain ⟨v, hv, hfalse⟩ := hnot
        obtain ⟨⟨e, he⟩, t, ht, hne⟩ := herror ⟨v, hv, by simpa using hfalse⟩
        have hsame := h e he
        rw [ht] at hsame
        rw [some.inj hsame, hstate] at hne
        exact hne rfl
      · obtain ⟨r, hr⟩ := hok hall
        rw [hr] at he
        cases he
  · obtain ⟨⟨e, he⟩, hstored⟩ := hlate hcollected
    simp only [hcollected, false_and, false_or, false_implies, and_true]
    rw [hstored, he]
    exact ⟨⟨fun h => some.inj (h e rfl), fun h _ _ => congrArg some h⟩,
      fun hne h => absurd h hne⟩

theorem recorded_state (h : recorded encoding inbound s = some s') : s'.state = s.state := by
  unfold recorded recordedConsent recordedSignature at h
  split at h
  · split at h
    · cases h
    · split_ifs at h
      · cases h
      · cases h
      · exact (withConsent_sessionId (eq_ok_of_toOption h)).2
  · split at h
    · cases h
    · cases h
    · exact (withSignature_spec (eq_ok_of_toOption h)).2.1
  · cases h

/-- **A rejected message changes nothing**, and a surplus is accepted, just when a surplus is
recorded, and a contribution that is recorded and complete concludes. -/
theorem spares_iff (hkind : inbound.message.contributes = true ∨ inbound.message.ends = true)
    (hid : inbound.message.sessionId = some id) (h : Stands c id s) :
    Spares encoding ourDid answer inbound c id ∧
        TakesSurplus encoding ourDid answer inbound c s ↔
      ∀ s', recorded encoding inbound s = some s' →
        (inbound.message.count s < inbound.message.count s' →
          inbound.message.completes s = true → Records answer c id inbound.message s') ∧
        (Records answer c id inbound.message s' → inbound.message.completes s' = true →
          Concludes encoding answer inbound.message s s') := by
  rcases hkind with hkind | hkind
  · have hcomes := comes_handle encoding ourDid answer hkind hid h
    unfold Spares TakesSurplus
    unfold Comes at hcomes
    generalize (handle encoding ourDid inbound).answered answer c = result at hcomes
    cases hrecorded : recorded encoding inbound s with
    | none =>
      rw [hrecorded] at hcomes
      exact ⟨fun _ s' hs' => (some_ne_none s' hs'.symm).elim,
        fun _ => ⟨fun _ _ => congrFun hcomes.2 id, fun s' hs' => by cases hs'⟩⟩
    | some edited =>
      rw [hrecorded] at hcomes
      obtain ⟨hnot, hrecords⟩ := hcomes
      simp only [some.injEq, forall_eq', h.stored]
      by_cases hr : Records answer c id inbound.message edited
      · obtain ⟨hshort, hlate, hgoes⟩ := hrecords hr
        simp only [hr, implies_true, true_and, forall_const]
        cases hcompletes : inbound.message.completes edited with
        | false =>
          obtain ⟨r, hok⟩ := hshort hcompletes
          simp [hok]
        | true =>
          obtain ⟨hspares, htakes⟩ := concludes_iff encoding
            (hlate hcompletes) (hgoes hcompletes) (recorded_state hrecorded)
          rw [hspares]
          refine ⟨fun hboth _ => hboth.1, fun hconcludes => ⟨hconcludes rfl, fun hmore _ => ?_⟩⟩
          exact htakes (fun heq => by rw [heq] at hmore; exact lt_irrefl _ hmore) (hconcludes rfl)
      · obtain ⟨⟨e, he⟩, hstorage⟩ := hnot hr
        simp only [hr, false_implies, and_true, imp_false, he, hstorage, h.stored,
          reduceCtorEq, exists_false]
        simp
  · have hnone : recorded encoding inbound s = none := by
      unfold recorded
      split
      · next hmessage => rw [hmessage] at hkind; cases hkind
      · next hmessage => rw [hmessage] at hkind; cases hkind
      · rfl
    unfold TakesSurplus
    rw [hnone]
    exact ⟨fun _ s' hs' => (some_ne_none s' hs'.symm).elim,
      fun _ => ⟨spares_of_ends hkind, fun s' hs' => by cases hs'⟩⟩

namespace Sample

/-- One of two signers is enough, and the first has consented. -/
def consentedOnce : SigningSession where
  sessionId := "s"
  threadId := "t"
  object := object
  suite := ⟨"ed25519"⟩
  constraints := none
  mode := ⟨"threshold"⟩
  threshold := some ⟨"n-of-m", 1, 2, ["A", "B"], "array"⟩
  state := .signing
  participants := [⟨"A", some ⟨"A", "assertionMethod"⟩, none, true, false, none⟩, .new "B" none]
  coordinatorDid := "P"
  combinedSignature := none

def holding : Coordinator := ⟨fun _ => some consentedOnce, fun _ => none⟩

theorem stands_holding : Stands holding "s" consentedOnce := ⟨rfl, .inl rfl, rfl⟩

def sent (sender : String) (body : SigningMessage) : InboundMessage :=
  ⟨body, "t", some sender, true, none⟩

end Sample

open Sample

/-- The first partial signature, while the storage takes every write. -/
theorem spares_signature :
    Spares base64 "P" (fun _ => true) (sent "A" (.partialSignature (signature "A" 1))) holding
        "s" ∧
      TakesSurplus base64 "P" (fun _ => true) (sent "A" (.partialSignature (signature "A" 1)))
        holding consentedOnce :=
  (spares_iff (.inl rfl) rfl stands_holding).2 fun _ _ =>
    ⟨fun _ _ => ⟨fun _ => rfl, rfl⟩, fun _ _ => .inl ⟨rfl, fun _ _ => rfl⟩⟩

/-- The second consent comes when the session collects signatures: it is rejected, but stored. -/
theorem spares_fails_late_consent :
    ¬ (Spares base64 "P" (fun _ => true) (sent "B" (.consent (consent "B"))) holding "s" ∧
      TakesSurplus base64 "P" (fun _ => true) (sent "B" (.consent (consent "B"))) holding
        consentedOnce) := by
  rintro ⟨hspares, -⟩
  have herror : ((handle base64 "P" (sent "B" (.consent (consent "B")))).answered
      (fun _ => true) holding).1 = .error (.invalidStateTransition .signing .consented) := by rfl
  have hcount := congrArg (Option.map SigningSession.consentedCount) (hspares _ herror)
  exact absurd hcount (by decide)

end Idiom.Signing
