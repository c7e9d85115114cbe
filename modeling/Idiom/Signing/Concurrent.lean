import Idiom.Lib.Tasks
import Idiom.Signing.Continues

/-!
# Signers at the same time

Consents and partial signatures are handled at once, and every call of the coordinator may be
suspended between its look at the cache and its writes. What one call writes, another that looked
before it overwrites.
-/

namespace Idiom.Signing

open Run List Prog Access Tasks Function

variable {ι : Type}

/-! ## The property -/

/-- From the look-up of a session to the last write. -/
def Access.kind : Access → AccessKind
  | .lookup _ => .enter
  | .find => .inside
  | .fill => .inside
  | .save _ _ => .inside
  | .store => .inside
  | .emit _ => .free

/-- The accesses that are to be counted. -/
inductive Mark where
  /-- `ThresholdMet` is emitted. -/
  | met
  /-- A signature is stored with which there are as many as required. -/
  | critical
  /-- The session is moved to `Combining`. -/
  | moved
  /-- `combine_signatures` starts. -/
  | combines
  deriving DecidableEq

def mark : Access → Bool → Option Mark
  | .emit (.thresholdMet _ _ _), _ => some .met
  | .save .acceptPartialSignature s, true =>
    if UInt32.ofNat s.signedCount = s.requiredSignatures then some .critical else none
  | .save .transitionState s, true => if s.state = .combining then some .moved else none
  | .lookup .combineSignatures, _ => some .combines
  | _, _ => none

/-- The tasks that made such an access, one for each time. -/
def marked (m : Mark) (trace : List (ι × Access × Bool)) : List ι :=
  trace.filterMap fun a => if mark a.2.1 a.2.2 = some m then some a.1 else none

/-- The task stored a signature and saw that there are enough. -/
def SawEnough (t : ι) (trace : List (ι × Access × Bool)) : Prop :=
  ∃ s, (t, save .acceptPartialSignature s, true) ∈ trace ∧
    s.requiredSignatures.toNat ≤ s.signedCount

/-- What the message says is in the session. -/
def Reflects (session : SigningSession) : SigningMessage → Prop
  | .consent body => ∃ p ∈ session.participants, p.did = body.signerDid ∧ p.consented = true ∧
      p.keyBinding = some body.keyBinding
  | .partialSignature body => ∃ p ∈ session.participants, p.did = body.signerDid ∧
      p.signed = true ∧ p.signature = some body.signature
  | _ => True

/-- The handlers of messages, all at once. -/
abbrev Handlers (ι : Type) :=
  Tasks ι Coordinator Bool Access SigningProtocolError (Option OutboundMessage)

/-- **No signature or consent is lost, and the threshold fires once.** -/
structure NothingLost (id : String) (messages : ι → InboundMessage) (x : Handlers ι) : Prop where
  reflected : ∀ t response, x.tasks t = some (.done response) →
    ∃ s, x.shared.storage id = some s ∧ Reflects s (messages t).message
  metOnce : (marked .met x.trace).length ≤ 1
  combinedOnce : (marked .combines x.trace).length ≤ 1
  sawEnough : ∀ t ∈ marked .combines x.trace, SawEnough t x.trace

structure SigningRound (id : String) (messages : ι → InboundMessage) (session : SigningSession)
    (c : Coordinator) : Prop where
  kinds : ∀ t, (∃ body, (messages t).message = .consent body ∧ body.sessionId = id) ∨
    ∃ body, (messages t).message = .partialSignature body ∧ body.sessionId = id
  distinct : ∀ t u body body', (messages t).message = .consent body →
    (messages u).message = .consent body' → body.signerDid = body'.signerDid → t = u
  stored : c.storage id = some session
  keyed : session.sessionId = id
  cached : c.sessions id = none ∨ c.sessions id = some session
  /-- The count of signatures fits its machine type. -/
  size : session.participants.length < 2 ^ 32

/-! ## Counting -/

theorem marked_append (m : Mark) (trace : List (ι × Access × Bool)) (t : ι) (label : Access)
    (e : Bool) : marked m (trace ++ [(t, label, e)]) =
      marked m trace ++ if mark label e = some m then [t] else [] := by
  rw [marked, filterMap_append]
  congr 1
  split <;> simp_all

variable {trace : List (ι × Access × Bool)}

theorem SawEnough.mono {t : ι} (h : SawEnough t trace) (ext : List (ι × Access × Bool)) :
    SawEnough t (trace ++ ext) := by
  obtain ⟨s, hs, hle⟩ := h
  exact ⟨s, mem_append_left _ hs, hle⟩

variable [DecidableEq ι]

theorem count_marked_append (m : Mark) (trace : List (ι × Access × Bool)) (t u : ι)
    (label : Access) (e : Bool) : (marked m (trace ++ [(t, label, e)])).count u =
      (marked m trace).count u + if mark label e = some m ∧ t = u then 1 else 0 := by
  rw [marked_append]
  by_cases hm : mark label e = some m
  · by_cases htu : t = u <;> simp [hm, htu]
  · simp [hm]

theorem count_marked_of_foreign (m : Mark) {t : ι} (trace ext : List (ι × Access × Bool))
    (hext : ∀ a ∈ ext, a.1 ≠ t) : (marked m (trace ++ ext)).count t = (marked m trace).count t := by
  rw [marked, filterMap_append, count_append]
  have hzero : (ext.filterMap fun a =>
      if mark a.2.1 a.2.2 = some m then some a.1 else none).count t = 0 := by
    rw [count_eq_zero]
    intro hmem
    obtain ⟨a, ha, heq⟩ := mem_filterMap.1 hmem
    split at heq
    · exact hext a ha (Option.some.inj heq)
    · cases heq
  rw [hzero]
  rfl

theorem length_le_one_of_count_le {l l' : List ι} (h : ∀ t, l.count t ≤ l'.count t)
    (hl' : l'.length ≤ 1) : l.length ≤ 1 :=
  (subperm_ext_iff.2 fun t _ => h t).length_le.trans hl'

/-! ## What the tasks rely on -/

/-- What another task leaves of a participant: it may not touch the key binding of the one whose
consent this task carries. -/
structure Keeps (message : SigningMessage) (p q : SessionParticipant) : Prop where
  continues : p.Continues q
  keyBinding : ∀ body, message = .consent body → p.did = body.signerDid →
    q.keyBinding = p.keyBinding

/-- What the other tasks may do, for the task `t` with this message. -/
structure Evolves (id : String) (message : SigningMessage) (t : ι)
    (w w' : World ι Coordinator Bool Access) : Prop where
  trace : ∃ ext, w'.2 = w.2 ++ ext ∧ ∀ a ∈ ext, a.1 ≠ t
  session : ∀ s, w.1.storage id = some s → ∃ s', w'.1.storage id = some s' ∧
    Forall₂ (Keeps message) s.participants s'.participants

/-- The cache has what the storage has, or nothing. -/
def Idle (id : String) (c : Coordinator) : Prop :=
  ∃ s, c.storage id = some s ∧ s.sessionId = id ∧ (c.sessions id = none ∨ c.sessions id = some s)

/-- The session that is stored, with what was done so far. -/
structure Stored (session : SigningSession) (trace : List (ι × Access × Bool))
    (s : SigningSession) : Prop where
  continues : session.Continues s
  critical : marked .critical trace ≠ [] → s.requiredSignatures.toNat ≤ s.signedCount
  moved : marked .moved trace ≠ [] → s.state.afterSigning = true

/-- What holds at every moment. -/
structure RoundInv (id : String) (session : SigningSession)
    (w : World ι Coordinator Bool Access) : Prop where
  stored : ∃ s, w.1.storage id = some s ∧ Stored session w.2 s
  criticalOnce : (marked .critical w.2).length ≤ 1
  movedOnce : (marked .moved w.2).length ≤ 1
  met : ∀ t, (marked .met w.2).count t ≤ (marked .critical w.2).count t
  combines : ∀ t, (marked .combines w.2).count t ≤ (marked .moved w.2).count t
  saw : ∀ t ∈ marked .combines w.2, SawEnough t w.2

/-- What a task knows of itself: it may still emit `ThresholdMet` `m` times and combine `k` times;
it saw enough signatures; its message is in the session. -/
structure Holds (id : String) (message : SigningMessage) (t : ι) (m k : ℕ) (saw reflected : Prop)
    (w : World ι Coordinator Bool Access) : Prop where
  met : (marked .met w.2).count t + m ≤ (marked .critical w.2).count t
  combines : (marked .combines w.2).count t + k ≤ (marked .moved w.2).count t
  saw : saw → SawEnough t w.2
  reflected : reflected → ∃ s, w.1.storage id = some s ∧ Reflects s message

section

variable {message : SigningMessage}

theorem keeps_refl (l : List SessionParticipant) : Forall₂ (Keeps message) l l := by
  induction l with
  | nil => exact .nil
  | cons p l ih => exact .cons ⟨.refl p, fun _ _ _ => rfl⟩ ih

theorem keeps_trans {l l' l'' : List SessionParticipant} (h : Forall₂ (Keeps message) l l')
    (h' : Forall₂ (Keeps message) l' l'') : Forall₂ (Keeps message) l l'' := by
  induction h generalizing l'' with
  | nil => cases h'; exact .nil
  | cons hp _ ih =>
    cases h' with
    | cons hq hrest =>
      refine .cons ⟨hp.continues.trans hq.continues, fun body hm hdid => ?_⟩ (ih hrest)
      rw [hq.keyBinding body hm (hp.continues.did.trans hdid), hp.keyBinding body hm hdid]

theorem exists_kept {l l' : List SessionParticipant} (h : Forall₂ (Keeps message) l l')
    {p : SessionParticipant} (hp : p ∈ l) : ∃ q ∈ l', Keeps message p q := by
  induction h with
  | nil => cases hp
  | @cons a b l l' hab _ ih =>
    rcases mem_cons.1 hp with rfl | hp
    · exact ⟨b, by simp, hab⟩
    · obtain ⟨q, hq, hpq⟩ := ih hp
      exact ⟨q, mem_cons_of_mem _ hq, hpq⟩

theorem Reflects.keep {s s' : SigningSession} (h : Reflects s message)
    (hkeep : Forall₂ (Keeps message) s.participants s'.participants) : Reflects s' message := by
  cases message with
  | consent body =>
    obtain ⟨p, hp, hdid, hconsented, hbinding⟩ := h
    obtain ⟨q, hq, hpq⟩ := exists_kept hkeep hp
    refine ⟨q, hq, hpq.continues.did.trans hdid, hpq.continues.consented hconsented, ?_⟩
    rw [hpq.keyBinding body rfl hdid, hbinding]
  | partialSignature body =>
    obtain ⟨p, hp, hdid, hsigned, hsignature⟩ := h
    obtain ⟨q, hq, hpq⟩ := exists_kept hkeep hp
    obtain ⟨hsigned', hsignature'⟩ := hpq.continues.signed hsigned
    exact ⟨q, hq, hpq.continues.did.trans hdid, hsigned', hsignature'.trans hsignature⟩
  | _ => trivial

end

section

variable {id : String} {message : SigningMessage} {session : SigningSession} {t : ι}
  {w w' : World ι Coordinator Bool Access}

omit [DecidableEq ι] in
theorem Evolves.refl (w : World ι Coordinator Bool Access) : Evolves id message t w w :=
  ⟨⟨[], by simp, by simp⟩, fun s hs => ⟨s, hs, keeps_refl _⟩⟩

omit [DecidableEq ι] in
theorem Evolves.trans {w'' : World ι Coordinator Bool Access} (h : Evolves id message t w w')
    (h' : Evolves id message t w' w'') : Evolves id message t w w'' := by
  obtain ⟨ext, hext, hforeign⟩ := h.trace
  obtain ⟨ext', hext', hforeign'⟩ := h'.trace
  refine ⟨⟨ext ++ ext', by rw [hext', hext, append_assoc], fun a ha => ?_⟩, fun s hs => ?_⟩
  · rcases mem_append.1 ha with ha | ha
    · exact hforeign a ha
    · exact hforeign' a ha
  · obtain ⟨s', hs', hkeep⟩ := h.session s hs
    obtain ⟨s'', hs'', hkeep'⟩ := h'.session s' hs'
    exact ⟨s'', hs'', keeps_trans hkeep hkeep'⟩

theorem Holds.mono {m k : ℕ} {saw reflected : Prop} (h : Holds id message t m k saw reflected w)
    (hevolves : Evolves id message t w w') : Holds id message t m k saw reflected w' := by
  obtain ⟨ext, hext, hforeign⟩ := hevolves.trace
  refine ⟨?_, ?_, fun hsaw => ?_, fun hreflected => ?_⟩
  · rw [hext, count_marked_of_foreign _ _ _ hforeign, count_marked_of_foreign _ _ _ hforeign]
    exact h.met
  · rw [hext, count_marked_of_foreign _ _ _ hforeign, count_marked_of_foreign _ _ _ hforeign]
    exact h.combines
  · rw [hext]
    exact (h.saw hsaw).mono ext
  · obtain ⟨s, hs, hreflects⟩ := h.reflected hreflected
    obtain ⟨s', hs', hkeep⟩ := hevolves.session s hs
    exact ⟨s', hs', hreflects.keep hkeep⟩

variable {label : Access} {e : Bool} {c : Coordinator}

theorem Holds.quiet {m k : ℕ} {saw reflected : Prop} (h : Holds id message t m k saw reflected w)
    (hmark : mark label e = none) (hc : c.storage id = w.1.storage id) :
    Holds id message t m k saw reflected (c, w.2 ++ [(t, label, e)]) := by
  refine ⟨?_, ?_, fun hsaw => (h.saw hsaw).mono _, fun hreflected => ?_⟩
  · simpa [count_marked_append, hmark] using h.met
  · simpa [count_marked_append, hmark] using h.combines
  · obtain ⟨s, hs, hreflects⟩ := h.reflected hreflected
    exact ⟨s, hc.trans hs, hreflects⟩

theorem RoundInv.perform (h : RoundInv id session w)
    (hstored : ∃ s, c.storage id = some s ∧ Stored session (w.2 ++ [(t, label, e)]) s)
    (hcritical : mark label e = some .critical → marked .critical w.2 = [])
    (hmoved : mark label e = some .moved → marked .moved w.2 = [])
    (hmet : mark label e = some .met →
      (marked .met w.2).count t + 1 ≤ (marked .critical w.2).count t)
    (hcombines : mark label e = some .combines →
      (marked .combines w.2).count t + 1 ≤ (marked .moved w.2).count t ∧ SawEnough t w.2) :
    RoundInv id session (c, w.2 ++ [(t, label, e)]) := by
  refine ⟨hstored, ?_, ?_, fun u => ?_, fun u => ?_, fun u hu => ?_⟩
  · rw [marked_append]
    split
    · next hm => rw [hcritical hm]; simp
    · simpa using h.criticalOnce
  · rw [marked_append]
    split
    · next hm => rw [hmoved hm]; simp
    · simpa using h.movedOnce
  · rw [count_marked_append, count_marked_append]
    have hle := h.met u
    by_cases hm : mark label e = some .met ∧ t = u
    · obtain ⟨hm, rfl⟩ := hm
      have := hmet hm
      simp only [hm, and_self, if_true]
      omega
    · rw [if_neg hm]
      omega
  · rw [count_marked_append, count_marked_append]
    have hle := h.combines u
    by_cases hm : mark label e = some .combines ∧ t = u
    · obtain ⟨hm, rfl⟩ := hm
      have := (hcombines hm).1
      simp only [hm, and_self, if_true]
      omega
    · rw [if_neg hm]
      omega
  · rw [marked_append, mem_append] at hu
    rcases hu with hu | hu
    · exact (h.saw u hu).mono _
    · split at hu
      · next hm =>
        rw [mem_singleton.1 hu]
        exact (hcombines hm).2.mono _
      · cases hu

omit [DecidableEq ι] in
theorem Stored.quiet {s : SigningSession} (h : Stored session trace s)
    (hcritical : mark label e ≠ some .critical) (hmoved : mark label e ≠ some .moved) :
    Stored session (trace ++ [(t, label, e)]) s := by
  refine ⟨h.continues, fun hmarked => h.critical ?_, fun hmarked => h.moved ?_⟩
  · simpa [marked_append, hcritical] using hmarked
  · simpa [marked_append, hmoved] using hmarked

theorem RoundInv.quiet (h : RoundInv id session w) (hmark : mark label e = none)
    (hc : c.storage id = w.1.storage id) : RoundInv id session (c, w.2 ++ [(t, label, e)]) := by
  obtain ⟨s, hs, hstored⟩ := h.stored
  refine h.perform ⟨s, hc.trans hs, hstored.quiet ?_ ?_⟩ ?_ ?_ ?_ ?_ <;> simp [hmark]

end

/-! ## Calls of the coordinator -/

/-- What the handlers rely on. -/
def discipline (id : String) (messages : ι → InboundMessage) (session : SigningSession) :
    Discipline ι Coordinator Bool Access where
  kind := kind
  idle := Idle id
  inv := RoundInv id session
  evolves t := Evolves id (messages t).message t
  refl _ w := .refl w
  trans _ _ _ _ h h' := h.trans h'

/-- A message that is answered is in the session. -/
def Answered {α : Type} (id : String) (message : SigningMessage)
    (r : Except SigningProtocolError α) (w : World ι Coordinator Bool Access) : Prop :=
  ∀ a, r = .ok a → ∃ s, w.1.storage id = some s ∧ Reflects s message

/-- What an edit of the task `t` does to the session. -/
structure Edited (messages : ι → InboundMessage) (t : ι) (call : CoordinatorCall)
    (s s' : SigningSession) : Prop where
  keyed : s'.sessionId = s.sessionId
  continues : s.Continues s'
  others : ∀ u, u ≠ t → Forall₂ (Keeps (messages u).message) s.participants s'.participants
  critical : mark (.save call s') true = some .critical →
    s.signedCount < s.requiredSignatures.toNat ∧ s'.requiredSignatures.toNat ≤ s'.signedCount
  moved : mark (.save call s') true = some .moved →
    s.state = .signing ∧ s'.state.afterSigning = true

/-- How often a write of the session counts. -/
def spends (m : Mark) (label : Access) : ℕ := if mark label true = some m then 1 else 0

variable {s s' : SigningSession}

theorem requiredSignatures_of_continues (h : s.Continues s') :
    s'.requiredSignatures = s.requiredSignatures := by
  unfold SigningSession.requiredSignatures
  rw [h.threshold]

theorem length_filter_signed {l l' : List SessionParticipant}
    (h : Forall₂ SessionParticipant.Continues l l') :
    (l.filter (·.signed)).length ≤ (l'.filter (·.signed)).length := by
  induction h with
  | nil => exact Nat.le_refl _
  | @cons p q l l' hp _ ih =>
    simp only [filter_cons]
    by_cases hsigned : p.signed = true
    · rw [if_pos hsigned, if_pos (hp.signed hsigned).1]
      exact Nat.succ_le_succ ih
    · rw [if_neg hsigned]
      split
      · exact ih.trans (Nat.le_succ _)
      · exact ih

theorem signedCount_of_continues (h : s.Continues s') :
    s.signedCount ≤ s'.signedCount := length_filter_signed h.participants

section

variable {id : String} {messages : ι → InboundMessage} {session : SigningSession} {t : ι}
  {α : Type} {m k : ℕ} {saw reflected : Prop} {w : World ι Coordinator Bool Access}

/-- A task with `p` left to do keeps to the discipline, and answers its message. -/
abbrev SafeTask (id : String) (messages : ι → InboundMessage) (session : SigningSession) (t : ι)
    (p : Coord α) (w : World ι Coordinator Bool Access) : Prop :=
  (discipline id messages session).Safe t (Answered id (messages t).message) p w

theorem safe_fail {e : SigningProtocolError} :
    SafeTask id messages session t (.fail e : Coord α) w :=
  fun _ _ _ _ h => by cases h

variable {message : SigningMessage}

omit [DecidableEq ι] in
theorem evolves_quiet {u : ι} (hu : u ≠ t) {c : Coordinator} {label : Access} {e : Bool}
    (hc : c.storage id = w.1.storage id) : Evolves id message u w (c, w.2 ++ [(t, label, e)]) := by
  refine ⟨⟨[(t, label, e)], rfl, ?_⟩, fun s hs => ⟨s, hc.trans hs, keeps_refl _⟩⟩
  intro a ha
  rw [mem_singleton.1 ha]
  exact fun h => hu h.symm

variable {call : CoordinatorCall}

theorem mark_lookup (hcall : call ≠ .combineSignatures) (e : Bool) :
    mark (.lookup call) e = none := by
  cases call <;> first | rfl | exact absurd rfl hcall

/-- A look-up that starts `combine_signatures` is counted. -/
def lookups (call : CoordinatorCall) : ℕ := if call = .combineSignatures then 1 else 0

variable {e : Bool}

theorem Holds.lookup (h : Holds id message t m (k + lookups call) saw reflected w) :
    Holds id message t m k saw reflected (w.1, w.2 ++ [(t, .lookup call, e)]) := by
  by_cases hcall : call = .combineSignatures
  · subst hcall
    refine ⟨?_, ?_, fun hsaw => (h.saw hsaw).mono _, h.reflected⟩
    · simpa [count_marked_append, mark] using h.met
    · have hle := h.combines
      simp only [lookups, if_true] at hle
      simp only [count_marked_append, mark, if_true, and_self, reduceCtorEq, Option.some.injEq,
        false_and]
      omega
  · rw [lookups, if_neg hcall] at h
    exact h.quiet (mark_lookup hcall e) rfl

theorem RoundInv.lookup (hinv : RoundInv id session w)
    (h : Holds id message t m (k + lookups call) saw reflected w)
    (hsaw : call = .combineSignatures → saw) :
    RoundInv id session (w.1, w.2 ++ [(t, .lookup call, e)]) := by
  by_cases hcall : call = .combineSignatures
  · subst hcall
    obtain ⟨s, hs, hstored⟩ := hinv.stored
    refine hinv.perform ⟨s, hs, hstored.quiet ?_ ?_⟩ ?_ ?_ ?_ fun _ => ⟨?_, h.saw (hsaw rfl)⟩
    iterate 5 simp [mark]
    · have hle := h.combines
      simp only [lookups, if_true] at hle
      omega
  · exact hinv.quiet (mark_lookup hcall e) rfl

variable {c : Coordinator}

/-- An access that is not counted and leaves the storage alone is allowed, if the section can be
left after it. -/
theorem allowed_quiet {p : Coord α} {label : Access}
    (hinv : RoundInv id session (c, w.2 ++ [(t, label, e)])) (hc : c.storage id = w.1.storage id)
    (hkind : label.kind ≠ .free) (hidle : ¬ p.Inside kind → Idle id c) :
    (discipline id messages session).Allowed t label p w (c, w.2 ++ [(t, label, e)]) where
  inv := hinv
  others _ hu := evolves_quiet hu hc
  free hfree := absurd hfree hkind
  leaves _ hout := hidle hout

/-- The look-up of a session: what was known still is, and the session is the stored one. -/
theorem safe_getSession {p : Option SigningSession → Coord α}
    (h : Holds id (messages t).message t m (k + lookups call) saw reflected w)
    (hsaw : call = .combineSignatures → saw)
    (hp : ∀ s w', Holds id (messages t).message t m k saw reflected w' →
      RoundInv id session w' → w'.1.storage id = some s → Idle id w'.1 →
      SafeTask id messages session t (p (some s)) w') :
    SafeTask id messages session t (getSession call id >>= p) w := by
  intro w₁ e hevolves hinv _ henter
  have hidle : Idle id w₁.1 := henter rfl
  have h₁ := h.mono hevolves
  have hinv₁ : RoundInv id session (w₁.1, w₁.2 ++ [(t, .lookup call, e)]) := hinv.lookup h₁ hsaw
  have h₁ := h₁.lookup (e := e)
  refine ⟨allowed_quiet hinv₁ rfl (by simp [kind]) fun _ => hidle, ?_⟩
  obtain ⟨s, hs, hkeyed, hcached⟩ := hidle
  dsimp only
  cases hsession : w₁.1.sessions id with
  | some s' =>
    rw [hsession] at hcached
    obtain rfl : s' = s := by simpa using hcached
    exact hp s' _ h₁ hinv₁ hs ⟨s', hs, hkeyed, .inr hsession⟩
  | none =>
    -- the storage is asked, and what it has goes into the cache
    intro w₂ ok hevolves hinv₂ hsame _
    have hsame : w₂.1 = w₁.1 := hsame rfl
    have hs₂ : w₂.1.storage id = some s := by rw [hsame]; exact hs
    have hidle₂ : Idle id w₂.1 := by
      rw [hsame]
      exact ⟨s, hs, hkeyed, .inl hsession⟩
    have h₂ : Holds id (messages t).message t m k saw reflected (w₂.1, w₂.2 ++ [(t, .find, ok)]) :=
      (h₁.mono hevolves).quiet rfl rfl
    refine ⟨allowed_quiet (hinv₂.quiet rfl rfl) rfl (by simp [kind]) fun _ => hidle₂, ?_⟩
    cases ok with
    | false => exact safe_fail
    | true =>
      simp only [hs₂]
      intro w₃ e' hevolves hinv₃ hsame₃ _
      have hsame₃ : w₃.1 = w₂.1 := hsame₃ rfl
      have hs₃ : w₃.1.storage id = some s := by rw [hsame₃]; exact hs₂
      have h₃ : Holds id (messages t).message t m k saw reflected
          (w₃.1.cacheSession id s, w₃.2 ++ [(t, .fill, e')]) := (h₂.mono hevolves).quiet rfl rfl
      have hidle₃ : Idle id (w₃.1.cacheSession id s) :=
        ⟨s, hs₃, hkeyed, .inr (update_self ..)⟩
      have hinv₄ : RoundInv id session (w₃.1.cacheSession id s, w₃.2 ++ [(t, .fill, e')]) :=
        hinv₃.quiet rfl rfl
      exact ⟨allowed_quiet hinv₄ rfl (by simp [kind]) fun _ => hidle₃, hp s _ h₃ hinv₄ hs₃ hidle₃⟩

/-- Write the record; then the cache, or something else if it could not be written. -/
def writeThen (call : CoordinatorCall) (id : String) (s' : SigningSession) (p : Unit → Coord α)
    (otherwise : Coord α) : Coord α :=
  .access (.save call s') (fun ok c => if ok then c.storeSession s' else c) fun ok _ =>
    if ok then .access .store (fun _ c => c.cacheSession id s') fun _ _ => p () else otherwise

variable {s' : SigningSession}

theorem putSession_bind (p : Unit → Coord α) :
    (putSession call id s' >>= p) =
      writeThen call id s' p (writeThen call id s' p (.fail .storageError)) := by
  show access _ _ _ = access _ _ _
  congr
  funext updated c
  cases updated with
  | true => rfl
  | false =>
    show access _ _ _ = access _ _ _
    congr
    funext saved c
    cases saved <;> rfl

variable {s : SigningSession}

omit [DecidableEq ι] in
theorem Stored.save (h : Stored session trace s) (hedit : Edited messages t call s s') :
    Stored session (trace ++ [(t, .save call s', true)]) s' := by
  refine ⟨h.continues.trans hedit.continues, fun hmarked => ?_, fun hmarked => ?_⟩
  · by_cases hm : mark (.save call s') true = some .critical
    · exact (hedit.critical hm).2
    · rw [marked_append, if_neg hm, append_nil] at hmarked
      rw [requiredSignatures_of_continues hedit.continues]
      exact (h.critical hmarked).trans (signedCount_of_continues hedit.continues)
  · by_cases hm : mark (.save call s') true = some .moved
    · exact (hedit.moved hm).2
    · rw [marked_append, if_neg hm, append_nil] at hmarked
      exact afterSigning_of_reflTransGen hedit.continues.state (h.moved hmarked)

theorem mark_save :
    mark (.save call s') true ≠ some .met ∧ mark (.save call s') true ≠ some .combines := by
  cases call <;> simp [mark]

theorem RoundInv.save (hinv : RoundInv id session w) (hs : w.1.storage id = some s)
    (hedit : Edited messages t call s s') (hc : c.storage id = some s') :
    RoundInv id session (c, w.2 ++ [(t, .save call s', true)]) := by
  obtain ⟨s₀, hs₀, hstored⟩ := hinv.stored
  obtain rfl : s₀ = s := Option.some.inj (hs₀.symm.trans hs)
  refine hinv.perform ⟨s', hc, hstored.save hedit⟩ (fun hm => ?_) (fun hm => ?_)
    (fun hm => absurd hm mark_save.1) (fun hm => absurd hm mark_save.2)
  · by_contra hmarked
    have hlt := (hedit.critical hm).1
    have hle := hstored.critical hmarked
    omega
  · by_contra hmarked
    have hafter := hstored.moved hmarked
    rw [(hedit.moved hm).1] at hafter
    cases hafter

variable {reflected' saw' : Prop}

theorem Holds.save (h : Holds id message t m k saw reflected w) (hs : w.1.storage id = some s)
    (hc : c.storage id = some s') (hsaw : saw' → saw ∨ call = .acceptPartialSignature ∧
      s'.requiredSignatures.toNat ≤ s'.signedCount)
    (hreflected : (reflected → Reflects s message) → reflected' → Reflects s' message) :
    Holds id message t (m + spends .critical (.save call s'))
      (k + spends .moved (.save call s')) saw' reflected'
      (c, w.2 ++ [(t, .save call s', true)]) := by
  refine ⟨?_, ?_, fun hsaw' => ?_, fun hreflected' => ⟨s', hc, hreflected ?_ hreflected'⟩⟩
  · have hle := h.met
    simp only [count_marked_append, mark_save.1, if_false, and_true, spends]
    omega
  · have hle := h.combines
    simp only [count_marked_append, mark_save.2, if_false, and_true, spends]
    omega
  · rcases hsaw hsaw' with hsaw | ⟨rfl, hle⟩
    · exact (h.saw hsaw).mono _
    · exact ⟨s', mem_append_right _ (by simp), hle⟩
  · intro hold
    obtain ⟨s₀, hs₀, hreflects⟩ := h.reflected hold
    rw [hs] at hs₀
    cases hs₀
    exact hreflects

variable {p : Unit → Coord α}

section

variable (h : Holds id (messages t).message t m k saw reflected w) (hs : w.1.storage id = some s)
  (hidle : Idle id w.1) (hedit : Edited messages t call s s') (hsaw : saw' → saw ∨
    call = .acceptPartialSignature ∧ s'.requiredSignatures.toNat ≤ s'.signedCount)
  (hreflected : (reflected → Reflects s (messages t).message) → reflected' →
    Reflects s' (messages t).message)
  (hp : ∀ w', Holds id (messages t).message t (m + spends .critical (.save call s'))
    (k + spends .moved (.save call s')) saw' reflected' w' →
    SafeTask id messages session t (p ()) w')
include h hs hidle hedit hsaw hreflected hp

theorem safe_writeThen {otherwise : Coord α}
    (hotherwise : ∀ w', Holds id (messages t).message t m k saw reflected w' →
      w'.1.storage id = some s → Idle id w'.1 →
      SafeTask id messages session t otherwise w') :
    SafeTask id messages session t (writeThen call id s' p otherwise) w := by
  intro w₁ ok hevolves hinv hsame _
  have hsame : w₁.1 = w.1 := hsame rfl
  have h₁ := h.mono hevolves
  have hs₁ : w₁.1.storage id = some s := by rw [hsame]; exact hs
  have hidle₁ : Idle id w₁.1 := by rw [hsame]; exact hidle
  have hkeyed : s'.sessionId = id := by
    obtain ⟨s₀, hs₀, hid, _⟩ := hidle
    rw [hs] at hs₀
    cases hs₀
    exact hedit.keyed.trans hid
  cases ok with
  | false =>
    have hmark : mark (.save call s') false = none := by cases call <;> rfl
    exact ⟨allowed_quiet (hinv.quiet hmark rfl) rfl (by simp [kind]) fun _ => hidle₁,
      hotherwise _ (h₁.quiet hmark rfl) hs₁ hidle₁⟩
  | true =>
    have hwritten : (w₁.1.storeSession s').storage id = some s' := by
      rw [← hkeyed]
      exact update_self ..
    have hinv₂ : RoundInv id session (w₁.1.storeSession s', w₁.2 ++ [(t, .save call s', true)]) :=
      hinv.save hs₁ hedit hwritten
    have h₂ := h₁.save hs₁ hwritten hsaw hreflected
    refine ⟨⟨hinv₂, fun u hu => ⟨⟨_, rfl, ?_⟩, fun s₀ hs₀ => ?_⟩, fun hfree => ?_,
      fun _ hout => ?_⟩,
      ?_⟩
    · intro a ha
      rw [mem_singleton.1 ha]
      exact fun h => hu h.symm
    · cases hs₁.symm.trans hs₀
      exact ⟨s', hwritten, hedit.others u hu⟩
    · cases hfree
    · exact absurd rfl hout
    · intro w₂ e hevolves₂ hinv₃ hsame₂ _
      have hsame₂ : w₂.1 = w₁.1.storeSession s' := hsame₂ rfl
      have hs₂ : (w₂.1.cacheSession id s').storage id = some s' := by
        rw [hsame₂]
        exact hwritten
      have h₃ : Holds id (messages t).message t (m + spends .critical (.save call s'))
          (k + spends .moved (.save call s')) saw' reflected'
          (w₂.1.cacheSession id s', w₂.2 ++ [(t, .store, e)]) :=
        (h₂.mono hevolves₂).quiet rfl rfl
      exact ⟨allowed_quiet (hinv₃.quiet rfl rfl) rfl (by simp [kind]) fun _ =>
        ⟨s', hs₂, hkeyed, .inr (update_self ..)⟩, hp _ h₃⟩

theorem safe_putSession : SafeTask id messages session t (putSession call id s' >>= p) w := by
  rw [putSession_bind]
  refine safe_writeThen h hs hidle hedit hsaw hreflected hp fun w₁ h₁ hs₁ hidle₁ => ?_
  exact safe_writeThen h₁ hs₁ hidle₁ hedit hsaw hreflected hp fun w₂ _ _ _ => safe_fail

end

variable {f : SigningSession → Except SigningProtocolError SigningSession}

theorem editSession_bind (p : SigningSession × SigningSession → Coord α) :
    (editSession call id f >>= p) = getSession call id >>= fun found =>
      match found with
      | some s =>
        match f s with
        | .ok s' => putSession call id s' >>= fun _ => p (s, s')
        | .error e => .fail e
      | none => .fail (.sessionNotFound id) := by
  unfold editSession requireSession
  simp only [bind_assoc]
  congr
  funext found
  cases found with
  | none => rfl
  | some s =>
    dsimp only
    cases hf : f s with
    | error e | ok s' =>
      show ofExcept (f s) >>= _ = _
      rw [hf]
      rfl

theorem safe_editSession {p : SigningSession × SigningSession → Coord α}
    {saw' : SigningSession → Prop}
    (h : Holds id (messages t).message t m (k + lookups call) saw reflected w)
    (hcombine : call = .combineSignatures → saw)
    (hedit : ∀ s s', session.Continues s → f s = .ok s' → Edited messages t call s s')
    (hsaw : ∀ s', saw' s' → saw ∨ call = .acceptPartialSignature ∧
      s'.requiredSignatures.toNat ≤ s'.signedCount)
    (hreflected : ∀ s s', f s = .ok s' → (reflected → Reflects s (messages t).message) →
      reflected' → Reflects s' (messages t).message)
    (hp : ∀ s s' w', f s = .ok s' → Holds id (messages t).message t
      (m + spends .critical (.save call s')) (k + spends .moved (.save call s'))
      (saw' s') reflected' w' → SafeTask id messages session t (p (s, s')) w')
    :
    SafeTask id messages session t (editSession call id f >>= p) w := by
  rw [editSession_bind]
  refine safe_getSession h hcombine fun s w₁ h₁ hinv hs hidle => ?_
  dsimp only
  cases hf : f s with
  | error e => exact safe_fail
  | ok s' =>
    obtain ⟨s₀, hs₀, hstored⟩ := hinv.stored
    obtain rfl : s₀ = s := Option.some.inj (hs₀.symm.trans hs)
    exact safe_putSession h₁ hs hidle (hedit s₀ s' hstored.continues hf) (hsaw s')
      (hreflected s₀ s' hf) fun w' h' => hp s₀ s' w' hf h'

/-! ## Edits -/

theorem keeps_edited {before after : List SessionParticipant} {p q : SessionParticipant}
    (h : Keeps message p q) :
    Forall₂ (Keeps message) (before ++ p :: after) (before ++ q :: after) := by
  induction before with
  | nil => exact .cons h (keeps_refl after)
  | cons x before ih => exact .cons ⟨.refl x, fun _ _ _ => rfl⟩ ih

variable {state : SigningSessionState}

omit [DecidableEq ι] in
theorem edited_withState (h : s.withState state = .ok s') :
    Edited messages t .transitionState s s' := by
  have hcontinues := continues_withState h
  obtain ⟨hcan, rfl⟩ := withState_eq_ok h
  refine ⟨rfl, hcontinues, fun u _ => keeps_refl _, fun hm => ?_, fun hm => ?_⟩
  · simp [mark] at hm
  · have hcombining : state = .combining := by simpa [mark] using hm
    subst hcombining
    refine ⟨?_, rfl⟩
    cases hs : s.state <;> rw [hs] at hcan <;> first | rfl | cases hcan

omit [DecidableEq ι] in
theorem edited_withCombined {encoding : Encoding} (h : s.withCombined encoding = .ok s') :
    Edited messages t .combineSignatures s s' := by
  have hcontinues := continues_withCombined h
  have heq := withCombined_eq_ok h
  subst heq
  exact ⟨rfl, hcontinues, fun u _ => keeps_refl _, fun hm => by simp [mark] at hm,
    fun hm => by simp [mark] at hm⟩

omit [DecidableEq ι] in
theorem edited_withConsent {body : Consent}
    (hdistinct : ∀ u body', (messages u).message = .consent body' → body'.signerDid =
      body.signerDid → u = t)
    (h : s.withConsent body.signerDid body.keyBinding = .ok s') :
    Edited messages t .acceptConsent s s' ∧ Reflects s' (.consent body) := by
  have hcontinues := continues_withConsent h
  obtain ⟨participants, hps, rfl⟩ := map_participants_eq_ok h
  obtain ⟨before, p, q, after, hs, _, hdid, hq, rfl⟩ := withParticipant_eq_ok hps
  cases hq
  refine ⟨⟨rfl, hcontinues, fun u hu => ?_, fun hm => by simp [mark] at hm,
    fun hm => by simp [mark] at hm⟩, ?_⟩
  · rw [hs]
    refine keeps_edited ⟨⟨rfl, rfl, fun _ => rfl, fun h => ⟨h, rfl⟩⟩, fun body' hbody hdid' => ?_⟩
    exact absurd (hdistinct u body' hbody (hdid'.symm.trans hdid)) hu
  · refine ⟨_, mem_append_right _ (mem_cons_self ..), hdid, rfl, rfl⟩

variable {body : PartialSignature}

omit [DecidableEq ι] in
theorem edited_withSignature (hsize : s.participants.length < 2 ^ 32)
    (h : s.withSignature body.signerDid body.signature = .ok s') :
    Edited messages t .acceptPartialSignature s s' := by
  have hcontinues := continues_withSignature h
  have hlength : s'.participants.length = s.participants.length :=
    hcontinues.participants.length_eq.symm
  have hle : s'.signedCount ≤ s'.participants.length := length_filter_le _ _
  obtain ⟨participants, hps, rfl⟩ := map_participants_eq_ok h
  obtain ⟨before, p, q, after, hs, _, hdid, hq, rfl⟩ := withParticipant_eq_ok hps
  split at hq
  · cases hq
  next hunsigned =>
  cases hq
  have hcount := signedCount_withSignature (s := s)
    (q := { p with signed := true, signature := some body.signature }) hs
    (by simpa using hunsigned) rfl
  refine ⟨rfl, hcontinues, fun u _ => ?_, fun hm => ?_, fun hm => by simp [mark] at hm⟩
  · rw [hs]
    exact keeps_edited ⟨⟨rfl, rfl, fun h => h, fun h => absurd h hunsigned⟩, fun _ _ _ => rfl⟩
  · -- the count is the required one, and it was one less before
    simp only [mark, ite_eq_left_iff, reduceCtorEq, imp_false, Decidable.not_not] at hm
    have hrequired := congrArg UInt32.toNat hm
    rw [UInt32.toNat_ofNat', Nat.mod_eq_of_lt (by omega)] at hrequired
    have hsame := congrArg UInt32.toNat (requiredSignatures_of_continues hcontinues)
    omega

theorem reflects_withSignature (h : s.withSignature body.signerDid body.signature = .ok s') :
    Reflects s' (.partialSignature body) := by
  obtain ⟨participants, hps, rfl⟩ := map_participants_eq_ok h
  obtain ⟨before, p, q, after, hs, _, hdid, hq, rfl⟩ := withParticipant_eq_ok hps
  split at hq
  · cases hq
  · cases hq
    exact ⟨_, mem_append_right _ (mem_cons_self ..), hdid, rfl, rfl⟩

/-! ## Events and calls -/

theorem safe_emit {event : SigningEvent} (h : Holds id (messages t).message t m k saw reflected w)
    (hmark : ∀ e, mark (.emit event) e = none) (hout : ¬ (p ()).Inside kind)
    (hp : ∀ w', Holds id (messages t).message t m k saw reflected w' →
      SafeTask id messages session t (p ()) w') :
    SafeTask id messages session t (emit event >>= p) w := by
  intro w₁ e hevolves hinv _ _
  have h₁ := (h.mono hevolves).quiet (c := w₁.1) (hmark e) rfl
  refine ⟨⟨hinv.quiet (hmark e) rfl, fun u hu => evolves_quiet hu rfl, fun _ => ⟨rfl, hout⟩,
    fun hfree => absurd rfl hfree⟩, hp _ h₁⟩

/-- `ThresholdMet` spends what the write of the signature earned. -/
theorem safe_emitThresholdMet {required signedCount : UInt32}
    (h : Holds id (messages t).message t (m + if signedCount = required then 1 else 0) k saw
      reflected w) (hout : ¬ (p ()).Inside kind)
    (hp : ∀ w', Holds id (messages t).message t m k saw reflected w' →
      SafeTask id messages session t (p ()) w') :
    SafeTask id messages session t (emitThresholdMet id required signedCount >>= p) w := by
  unfold emitThresholdMet
  split
  · next hmet =>
    rw [if_pos hmet] at h
    intro w₁ e hevolves hinv _ _
    have h₁ := h.mono hevolves
    have hle := h₁.met
    obtain ⟨s, hs, hstored⟩ := RoundInv.stored hinv
    refine ⟨⟨?_, fun u hu => evolves_quiet hu rfl, fun _ => ⟨rfl, hout⟩,
      fun hfree => absurd rfl hfree⟩, hp _ ⟨?_, ?_, fun hsaw => (h₁.saw hsaw).mono _,
      h₁.reflected⟩⟩
    · refine RoundInv.perform hinv ⟨s, hs, hstored.quiet ?_ ?_⟩ ?_ ?_ (fun _ => ?_) ?_
      · simp [mark]
      · simp [mark]
      · simp [mark]
      · simp [mark]
      · omega
      · simp [mark]
    · simp only [count_marked_append, mark, and_self, if_true, reduceCtorEq, Option.some.injEq,
        false_and]
      omega
    · simpa [count_marked_append, mark] using h₁.combines
  · next hmet =>
    rw [if_neg hmet] at h
    exact hp w h

variable {p : SigningSession → Coord α}

theorem safe_transitionState (h : Holds id (messages t).message t m k saw reflected w)
    (hout : ∀ s, ¬ (p s).Inside kind)
    (hp : ∀ s w', Holds id (messages t).message t m (k + if state = .combining then 1 else 0) saw
      reflected w' → SafeTask id messages session t (p s) w')
    :
    SafeTask id messages session t (transitionState id state >>= p) w := by
  unfold transitionState
  rw [bind_assoc]
  refine safe_editSession h (fun hcall => by cases hcall) (fun s s' _ hf => edited_withState hf)
    (fun _ (hsaw : saw) => .inl hsaw) (fun s s' hf hold (hreflected : reflected) => ?_)
    fun s s' w₁ hf h₁ => ?_
  · exact (hold hreflected).keep (by rw [(withState_eq_ok hf).2]; exact keeps_refl _)
  · refine safe_emit (p := fun _ => p s') ?_ (fun _ => rfl) (hout s') fun w₂ h₂ => hp s' w₂ h₂
    have hstate : s'.state = state := by rw [(withState_eq_ok hf).2]
    simpa [spends, mark, hstate] using h₁

theorem safe_acceptConsent {body : Consent} {p : Bool → Coord α}
    (hbody : (messages t).message = .consent body)
    (hdistinct : ∀ u body', (messages u).message = .consent body' →
      body'.signerDid = body.signerDid → u = t)
    (h : Holds id (messages t).message t m k saw reflected w) (hout : ∀ all, ¬ (p all).Inside kind)
    (hp : ∀ all w', Holds id (messages t).message t m k saw True w' →
      SafeTask id messages session t (p all) w') :
    SafeTask id messages session t (acceptConsent id body.signerDid body.keyBinding >>= p) w := by
  unfold acceptConsent
  rw [bind_assoc]
  refine safe_editSession h (fun hcall => by cases hcall)
    (fun s s' _ hf => (edited_withConsent hdistinct hf).1)
    (fun _ (hsaw : saw) => .inl hsaw) (fun s s' hf _ (_ : True) => ?_)
    fun s s' w₁ hf h₁ => ?_
  · rw [hbody]
    exact (edited_withConsent hdistinct hf).2
  · refine safe_emit (p := fun _ => p _) ?_ (fun _ => rfl) (hout _) fun w₂ h₂ => hp _ w₂ h₂
    simpa [spends, mark] using h₁

theorem safe_acceptPartialSignature {p : Bool → Coord α}
    (hbody : (messages t).message = .partialSignature body)
    (hsize : session.participants.length < 2 ^ 32)
    (h : Holds id (messages t).message t m k False reflected w)
    (hout : ∀ reached, ¬ (p reached).Inside kind)
    (hp : ∀ (reached : Bool) w', Holds id (messages t).message t m k (reached = true) True w' →
      SafeTask id messages session t (p reached) w')
    :
    SafeTask id messages session t
      (acceptPartialSignature id body.signerDid body.signature >>= p) w := by
  have hsize' : ∀ s, session.Continues s → s.participants.length < 2 ^ 32 := by
    intro s hs
    rw [← hs.participants.length_eq]
    exact hsize
  unfold acceptPartialSignature
  rw [bind_assoc]
  refine safe_editSession h (fun hcall => by cases hcall)
    (fun s s' hs hf => edited_withSignature (hsize' s hs) hf)
    (fun s' (hsaw : decide (s'.requiredSignatures ≤ UInt32.ofNat s'.signedCount) = true) =>
      .inr ⟨rfl, ?_⟩) (fun s s' hf _ (_ : True) => ?_) fun s s' w₁ hf h₁ => ?_
  · rw [decide_eq_true_eq, UInt32.le_iff_toNat_le] at hsaw
    exact hsaw.trans (Nat.mod_le _ _)
  · rw [hbody]
    exact reflects_withSignature hf
  · simp only [bind_assoc, pure_eq]
    refine safe_emit ?_ ?_ ?_ fun w₂ h₂ =>
      safe_emitThresholdMet (p := fun _ => p _) h₂ (hout _) fun w₃ h₃ => hp _ w₃ h₃
    · simpa [spends, mark] using h₁
    · exact fun _ => rfl
    · unfold emitThresholdMet
      split
      · exact fun h => by cases h
      · exact hout _

variable {encoding : Encoding}

theorem safe_combineSignatures {p : String → Coord α} (hsaw : saw)
    (h : Holds id (messages t).message t m (k + 1) saw reflected w)
    (hout : ∀ combined, ¬ (p combined).Inside kind)
    (hp : ∀ combined w', Holds id (messages t).message t m k saw reflected w' →
      SafeTask id messages session t (p combined) w') :
    SafeTask id messages session t (combineSignatures encoding id >>= p) w := by
  unfold combineSignatures
  rw [bind_assoc]
  refine safe_editSession h (fun _ => hsaw) (fun s s' _ hf => edited_withCombined hf)
    (fun _ (hsaw : saw) => .inl hsaw) (fun s s' hf hold (hreflected : reflected) => ?_)
    fun s s' w₁ hf h₁ => ?_
  · exact (hold hreflected).keep (by rw [withCombined_eq_ok hf]; exact keeps_refl _)
  · refine safe_emit (p := fun _ => p _) ?_ (fun _ => rfl) (hout _) fun w₂ h₂ => hp _ w₂ h₂
    simpa [spends, mark] using h₁

theorem safe_requireSession (h : Holds id (messages t).message t m k saw reflected w)
    (hp : ∀ s w', Holds id (messages t).message t m k saw reflected w' →
      SafeTask id messages session t (p s) w')
    :
    SafeTask id messages session t (requireSession .getSession id >>= p) w := by
  unfold requireSession
  rw [bind_assoc]
  exact safe_getSession h (fun hcall => by cases hcall) fun s w' h' _ _ _ => hp s w' h'

variable {β : Type}

theorem safe_ofExcept {x : Except SigningProtocolError β} {p : β → Coord α}
    (hp : ∀ b, x = .ok b → SafeTask id messages session t (p b) w) :
    SafeTask id messages session t (ofExcept x >>= p) w := by
  cases x with
  | error e => exact safe_fail
  | ok b => exact hp b rfl

/-! ## Handlers -/

theorem safe_done {a : α} (h : Holds id (messages t).message t m k saw True w) :
    SafeTask id messages session t (.done a) w :=
  fun _ hevolves _ _ _ => (h.mono hevolves).reflected trivial

theorem not_inside_transitionState :
    ¬ (transitionState id state >>= p).Inside kind := fun h => by cases h

variable {f : Option SigningMessage → β}

theorem safe_finishSigning (hsaw : saw) (h : Holds id (messages t).message t m k saw True w) :
    SafeTask id messages session t (finishSigning encoding id >>= fun r => .done (f r)) w := by
  unfold finishSigning
  rw [bind_assoc]
  refine safe_transitionState h (fun _ h => by cases h) fun _ w₁ h₁ => ?_
  rw [bind_assoc]
  refine safe_combineSignatures hsaw h₁ (fun _ h => by cases h) fun _ w₂ h₂ => ?_
  rw [bind_assoc]
  refine safe_requireSession h₂ fun s w₃ h₃ => ?_
  rw [bind_assoc]
  exact safe_transitionState h₃ (fun _ h => h) fun _ w₄ h₄ => safe_done h₄

theorem safe_handleConsent {inbound : InboundMessage} {body : Consent} (hid : body.sessionId = id)
    (hbody : (messages t).message = .consent body)
    (hdistinct : ∀ u body', (messages u).message = .consent body' → body'.signerDid =
      body.signerDid → u = t)
    (h : Holds id (messages t).message t m k saw reflected w) :
    SafeTask id messages session t (handleConsent inbound body >>= fun r => .done (f r)) w := by
  subst hid
  unfold handleConsent
  rw [bind_assoc]
  refine safe_ofExcept fun _ _ => ?_
  split
  · exact safe_fail
  rw [bind_assoc]
  refine safe_requireSession h fun s w₁ h₁ => ?_
  split
  · exact safe_fail
  rw [bind_assoc]
  refine safe_acceptConsent hbody hdistinct h₁ (fun all => ?_) fun all w₂ h₂ => ?_
  · cases all
    · exact fun h => h
    · exact fun h => by cases h
  cases all with
  | false => exact safe_done h₂
  | true =>
    simp only [if_true, bind_assoc]
    refine safe_transitionState h₂ (fun _ => not_inside_transitionState) fun _ w₃ h₃ => ?_
    exact safe_transitionState h₃ (fun _ h => h) fun _ w₄ h₄ => safe_done h₄

theorem safe_handlePartialSignature {inbound : InboundMessage} (hid : body.sessionId = id)
    (hbody : (messages t).message = .partialSignature body)
    (hsize : session.participants.length < 2 ^ 32)
    (h : Holds id (messages t).message t m k False reflected w) :
    SafeTask id messages session t
      (handlePartialSignature encoding inbound body >>= fun r => .done (f r)) w := by
  subst hid
  unfold handlePartialSignature
  rw [bind_assoc]
  refine safe_ofExcept fun _ _ => ?_
  rw [bind_assoc]
  refine safe_requireSession h fun s w₁ h₁ => ?_
  rw [bind_assoc]
  refine safe_ofExcept fun _ _ => ?_
  rw [bind_assoc]
  refine safe_acceptPartialSignature hbody hsize h₁ (fun reached => ?_) fun reached w₂ h₂ => ?_
  · cases reached
    · exact fun h => h
    · exact fun h => by cases h
  cases reached with
  | false => exact safe_done h₂
  | true => exact safe_finishSigning rfl h₂

theorem holds_start (hinv : RoundInv id session w) : Holds id message t 0 0 False False w :=
  ⟨hinv.met t, hinv.combines t, fun h => h.elim, fun h => h.elim⟩

theorem safe_handle {ourDid : String} (hround : SigningRound id messages session c)
    (hinv : RoundInv id session w) :
    SafeTask id messages session t (handle encoding ourDid (messages t)) w := by
  unfold handle
  split
  · next sender hauth hsender =>
    rcases hround.kinds t with ⟨body, hbody, hid⟩ | ⟨body, hbody, hid⟩
    · have hdispatch : dispatch encoding ourDid (messages t) = handleConsent (messages t) body := by
        unfold dispatch
        rw [hbody]
      rw [hdispatch]
      exact safe_handleConsent hid hbody
        (fun u body' hbody' hdid => hround.distinct u t body' body hbody' hbody hdid)
        (holds_start hinv)
    · have hdispatch : dispatch encoding ourDid (messages t) =
          handlePartialSignature encoding (messages t) body := by
        unfold dispatch
        rw [hbody]
      rw [hdispatch]
      exact safe_handlePartialSignature hid hbody hround.size (holds_start hinv)
  · exact safe_fail

end

/-! ## All handlers at once -/

theorem not_inside_handle {encoding : Encoding} {ourDid : String} {inbound : InboundMessage}
    {id : String} (hkind : (∃ body, inbound.message = .consent body ∧ body.sessionId = id) ∨
      ∃ body, inbound.message = .partialSignature body ∧ body.sessionId = id) :
    ¬ (handle encoding ourDid inbound).Inside kind := by
  unfold handle
  split
  · rcases hkind with ⟨body, hbody, _⟩ | ⟨body, hbody, _⟩
    · simp only [dispatch, hbody, handleConsent]
      cases requireClaimedSender inbound body.signerDid with
      | error e => exact fun h => h
      | ok sender =>
        simp only [Prog.ofExcept]
        split
        · exact fun h => h
        · exact fun h => by cases h
    · simp only [dispatch, hbody, handlePartialSignature]
      cases requireClaimedSender inbound body.signerDid with
      | error e => exact fun h => h
      | ok sender => exact fun h => by cases h
  · exact fun h => h

theorem sound_start {id : String} {messages : ι → InboundMessage} {session : SigningSession}
    {c : Coordinator} (hround : SigningRound id messages session c) :
    Discipline.Sound (discipline id messages session)
      (fun t => Answered (α := Option OutboundMessage) id (messages t).message)
      ⟨c, fun _ => none, []⟩ where
  safe t p hp := by cases hp
  inv :=
    { stored := ⟨session, hround.stored, .refl session, fun h => absurd rfl h,
        fun h => absurd rfl h⟩
      criticalOnce := by simp [world, marked]
      movedOnce := by simp [world, marked]
      met := fun t => by simp [world, marked]
      combines := fun t => by simp [world, marked]
      saw := fun t ht => by simp [world, marked] at ht }
  one t u p q hp := by cases hp
  idle _ := ⟨session, hround.stored, hround.keyed, hround.cached⟩
  fresh t _ a ha := by cases ha

/-- **No signature or consent is lost, and the threshold fires once**, if no call looks the session
up while another one is between its look-up and its last write. -/
theorem nothingLost_of_entersAlone (encoding : Encoding) (ourDid id : String)
    (messages : ι → InboundMessage) (session : SigningSession) (c : Coordinator)
    (hround : SigningRound id messages session c) (l : List (TaskStep ι Bool)) (x : Handlers ι)
    (h : exec (step fun t => handle encoding ourDid (messages t)) ⟨c, fun _ => none, []⟩ l = some x)
    (halone : Along (step fun t => handle encoding ourDid (messages t))
      (EntersAlone kind) ⟨c, fun _ => none, []⟩ l) :
    NothingLost id messages x := by
  have hsound := Discipline.sound_of_exec (fun t w hinv _ => safe_handle hround hinv)
    (fun t => not_inside_handle (hround.kinds t)) (sound_start hround) halone h
  have hinv : RoundInv id session x.world := hsound.inv
  exact ⟨fun t response ht => hsound.of_done ht response rfl,
    length_le_one_of_count_le hinv.met hinv.criticalOnce,
    length_le_one_of_count_le hinv.combines hinv.movedOnce, hinv.saw⟩

namespace Sample

/-- The session that the request makes, and who may sign. -/
def requested : SigningSession :=
  { (requestedSession "C" ⟨.requestSigning request, "t", some "P", true, none⟩ request).session "C"
    with state := .requested }

def coordinator : Coordinator :=
  ⟨update (fun _ => none) "s" (some requested),
    update (fun _ => none) "s" (some requested)⟩

def inbound (sender : String) (body : SigningMessage) : InboundMessage :=
  ⟨body, "t", some sender, true, none⟩

def consentAndSign : Bool → InboundMessage
  | false => inbound "A" (.consent (consent "A"))
  | true => inbound "B" (.partialSignature (signature "B" 2))

def twoConsents : Bool → InboundMessage
  | false => inbound "A" (.consent (consent "A"))
  | true => inbound "B" (.consent (consent "B"))

def both : List (TaskStep Bool Bool) := [.start false, .start true]

/-- The first task to its end, then the second one. -/
def inTurn : List (TaskStep Bool Bool) :=
  both ++ replicate 13 (.go false true) ++ replicate 19 (.go true true)

/-- The first task looks, the second one runs to its end, and the first one goes on. -/
def overlapping : List (TaskStep Bool Bool) :=
  both ++ replicate 2 (.go false true) ++ replicate 13 (.go true true) ++
    replicate 11 (.go false true)

/-- All tasks before they start. -/
def initial : Handlers Bool := ⟨coordinator, fun _ => none, []⟩

def handlersRun (messages : Bool → InboundMessage) (l : List (TaskStep Bool Bool)) :
    Option (Handlers Bool) :=
  exec (step fun t => handle base64 "C" (messages t)) initial l

/-- The message was answered without an error. -/
def answers (x : Handlers Bool) (t : Bool) : Bool :=
  match x.tasks t with
  | some (.done _) => true
  | _ => false

end Sample

open Sample in
/-- A consent and the signature that reaches the threshold. -/
theorem nothingLost_of_entersAlone_inTurn :
    ∃ x, handlersRun consentAndSign inTurn = some x ∧ marked .met x.trace = [true] ∧
      marked .combines x.trace = [true] ∧ NothingLost "s" consentAndSign x := by
  have hround : SigningRound "s" consentAndSign requested coordinator := by
    refine ⟨fun t => ?_, fun t u body body' ht hu _ => ?_, rfl, rfl, .inr rfl, by decide⟩
    · cases t
      · exact .inl ⟨_, rfl, rfl⟩
      · exact .inr ⟨_, rfl, rfl⟩
    · cases t with
      | true => cases ht
      | false =>
        cases u with
        | true => cases hu
        | false => rfl
  have hmarks : ((handlersRun consentAndSign inTurn).any fun x =>
      decide (marked .met x.trace = [true] ∧ marked .combines x.trace = [true])) = true := by
    decide +kernel
  obtain ⟨x, hexec, hmarks⟩ := (Option.any_eq_true _ _).1 hmarks
  obtain ⟨hmet, hcombines⟩ := of_decide_eq_true hmarks
  exact ⟨x, hexec, hmet, hcombines, nothingLost_of_entersAlone base64 "C" "s" consentAndSign
    requested coordinator hround inTurn x hexec (by decide +kernel)⟩

open Sample in
/-- The second consent is answered and then overwritten. -/
theorem nothingLost_fails_overlapping :
    ∃ x, handlersRun twoConsents overlapping = some x ∧ ¬ NothingLost "s" twoConsents x := by
  have hlost : ((handlersRun twoConsents overlapping).any fun x => answers x true &&
      (x.shared.storage "s").all fun s => s.participants.all fun p =>
        !decide (p.did = "B") || !p.consented) = true := by decide +kernel
  obtain ⟨x, hexec, hlost⟩ := (Option.any_eq_true _ _).1 hlost
  rw [Bool.and_eq_true] at hlost
  obtain ⟨hanswers, hlost⟩ := hlost
  refine ⟨x, hexec, fun h => ?_⟩
  unfold answers at hanswers
  split at hanswers
  · next response hdone =>
    obtain ⟨s, hs, p, hp, hdid, hconsented, _⟩ := h.reflected true response hdone
    rw [hs, Option.all_some, all_eq_true] at hlost
    have hnot := hlost p hp
    rw [hconsented] at hnot
    have hB : p.did = "B" := hdid
    simp [hB] at hnot
  · cases hanswers

end Idiom.Signing
