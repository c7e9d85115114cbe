import Idiom.Mediation.Forward
import Idiom.Pickup.Refinement

/-!
# Unacknowledged mail is replayed
-/

namespace Idiom.Mediation

open Pickup Function QueueTables List Run Option FlushPc

/-! ## Taking messages -/

section

variable {t : QueueTables} {c id : String} {m : QueuedMessage}

theorem mem_taken_of_short (ht : t.Valid) {limit : ℕ}
    (hshort : (t.taken c none limit).length < limit)
    (hm : t.messages.lookup id = some m) (hc : m.connectionId = c) (hpending : m.state = .pending) :
    m ∈ t.taken c none limit := by
  have hmem : m ∈ (t.pendingFor c none).insertionSort QueuedMessage.NotAfter := by
    rw [mem_insertionSort, mem_pendingFor]
    exact ⟨⟨id, (ht.indexed c id).2 ⟨m, hm, hc⟩, hm⟩, hpending, rfl⟩
  unfold taken at hshort ⊢
  rw [length_take] at hshort
  rwa [take_of_length_le (by omega)]

theorem lookup_take_cases (ht : t.Valid) {key : Option String} {limit : ℕ}
    (h : (t.takeFromQueue c key limit).2.messages.lookup id = some m) :
    t.messages.lookup id = some m ∨
      ∃ m' ∈ t.taken c key limit, m'.id = id ∧ t.messages.lookup id = some m' ∧
        m = m'.markSending := by
  rw [lookup_takeFromQueue] at h
  split_ifs at h with htaken
  · obtain ⟨m', hm', hid⟩ := mem_map.1 htaken
    have hlookup := (ht.of_mem_taken hm').1
    rw [hid] at hlookup
    rw [hlookup] at h
    exact .inr ⟨m', hm', hid, hlookup, (some.inj h).symm⟩
  · exact .inl h

end

/-! ## The invariant -/

/-- The flush will take messages again. -/
def FlushPc.draining : FlushPc → Bool
  | .take => true
  | .lookup batch => !decide (batch.length < reconnectReplayBatch)
  | .send _ batch => !decide (batch.length < reconnectReplayBatch)
  | _ => false

namespace Relay

variable {strategy : ForwardingStrategy} {s s' : Relay}

/-- The message was pushed on the session; or the flush of the session will take it or has taken
it; or it was queued after the session was registered and its forward will push it. -/
def Covered (strategy : ForwardingStrategy) (s : Relay) (c : String) (σ : ℕ) (id : String)
    (m : QueuedMessage) : Prop :=
  s.Pushed σ id ∨
  (∃ u f, s.flushes u = some f ∧ f.connectionId = c ∧ f.session = σ ∧
    ((m.state = .pending ∧ f.pc.draining = true) ∨ ∃ x ∈ f.pc.batch, x.id = id)) ∨
  (id ∉ s.before σ ∧ (strategy ≠ .queueAndLiveDelivery ∨
    ∃ t task, s.forwards t = some task ∧ task.pc.waitingId = some id ∧ task.connectionId = c))

structure Invariant (strategy : ForwardingStrategy) (s : Relay) : Prop where
  valid : s.queue.Valid
  stored : ∀ id m, s.queue.messages.lookup id = some m → (id, m.connectionId) ∈ s.queued
  kept : ∀ id c, (id, c) ∈ s.queued → id ∉ s.acked → id ∉ s.expired →
    ∃ m, s.queue.messages.lookup id = some m ∧ m.connectionId = c
  accepted : ∀ p ∈ s.accepted, p ∈ s.queued
  before : ∀ σ, ∀ id ∈ s.before σ, id ∈ s.queued.map Prod.fst
  waiting : ∀ t task id, s.forwards t = some task → task.pc.waitingId = some id →
    (id, task.connectionId) ∈ s.queued ∧ ∀ c, (id, c) ∉ s.accepted
  oneForward : ∀ t t' task task' id, s.forwards t = some task → s.forwards t' = some task' →
    task.pc.waitingId = some id → task'.pc.waitingId = some id → t = t'
  sessions : ∀ c σ, s.sessions c = some σ → σ < s.nextSession
  flushes : ∀ u f, s.flushes u = some f → f.session < s.nextSession
  oneFlush : ∀ u u' f f', s.flushes u = some f → s.flushes u' = some f' →
    f.session = f'.session → u = u'
  current : ∀ u f, s.flushes u = some f → f.pc.running = true →
    (∀ σ, s.sessions f.connectionId = some σ → σ = f.session) ∧
      ∀ σ batch, f.pc = .send σ batch → σ = f.session
  covered : ∀ c σ, s.sessions c = some σ → σ ∉ s.refused → ∀ id m,
    s.queue.messages.lookup id = some m → m.connectionId = c → Covered strategy s c σ id m

theorem invariant_start : Invariant strategy start where
  valid := valid_new
  stored _ _ h := by simp [start, new] at h
  kept _ _ h := by cases h
  accepted _ h := by cases h
  before _ _ h := by cases h
  waiting _ _ _ h := by cases h
  oneForward _ _ _ _ _ h := by cases h
  sessions _ _ h := by cases h
  flushes _ _ h := by cases h
  oneFlush _ _ _ _ h := by cases h
  current _ _ h := by cases h
  covered _ _ h := by cases h

theorem Invariant.replayed (h : Invariant strategy s) : Replayed strategy s := by
  rintro c σ hσ hopen ⟨u, f, hu, hfc, hfσ, hdone⟩ id haccepted hacked hexpired hwhen
  obtain ⟨m, hm, hmc⟩ := h.kept id c (h.accepted _ haccepted) hacked hexpired
  rcases h.covered c σ hσ hopen id m hm hmc with hpushed | ⟨u', f', hu', -, hfσ', hwill⟩ | ⟨hafter,
    hlive⟩
  · exact hpushed
  · obtain rfl := h.oneFlush u u' f f' hu hu' (hfσ.trans hfσ'.symm)
    obtain rfl := some.inj (hu.symm.trans hu')
    rw [hdone] at hwill
    simp [draining, batch] at hwill
  · have hstrategy := hwhen.resolve_right hafter
    rcases hlive with hother | ⟨t, task, ht, hwaiting, -⟩
    · exact absurd hstrategy hother
    · exact absurd haccepted ((h.waiting t task id ht hwaiting).2 c)

variable {id : String}

theorem Covered.mono {c : String} {σ : ℕ} {m : QueuedMessage} (h : Covered strategy s c σ id m)
    (hframes : ∀ p ∈ s.frames, p ∈ s'.frames)
    (hflushes : ∀ u f, s.flushes u = some f → s'.flushes u = some f)
    (hbefore : s'.before σ = s.before σ)
    (hforwards : ∀ t task, s.forwards t = some task → task.pc.waitingId = some id →
      ∃ t' task', s'.forwards t' = some task' ∧ task'.pc.waitingId = some id ∧ task'.connectionId =
      task.connectionId)
    : Covered strategy s' c σ id m := by
  rcases h with ⟨p, hp, hcarries⟩ | ⟨u, f, hu, hf⟩ | ⟨hafter, hlive⟩
  · exact .inl ⟨p, hframes p hp, hcarries⟩
  · exact .inr (.inl ⟨u, f, hflushes u f hu, hf⟩)
  · refine .inr (.inr ⟨by rwa [hbefore], hlive.imp_right ?_⟩)
    rintro ⟨t, task, ht, hwaiting, hc⟩
    obtain ⟨t', task', ht', hwaiting', hc'⟩ := hforwards t task ht hwaiting
    exact ⟨t', task', ht', hwaiting', hc'.trans hc⟩

/-! ## The queue -/

theorem Invariant.removed (h : Invariant strategy s) {queue : QueueTables}
    {acked expired : List String} (hvalid : queue.Valid)
    (hless : ∀ id m, queue.messages.lookup id = some m → s.queue.messages.lookup id = some m)
    (hacked : ∀ id ∈ s.acked, id ∈ acked) (hexpired : ∀ id ∈ s.expired, id ∈ expired)
    (hgone : ∀ id m, s.queue.messages.lookup id = some m → id ∉ acked → id ∉ expired →
      queue.messages.lookup id = some m) :
    Invariant strategy { s with queue := queue, acked := acked, expired := expired } := by
  refine { h with valid := hvalid, stored := ?_, kept := ?_, covered := ?_ }
  · intro id m hm
    exact h.stored id m (hless id m hm)
  · intro id c hqueued hnotAcked hnotExpired
    obtain ⟨m, hm, hc⟩ := h.kept id c hqueued (fun hmem => hnotAcked (hacked id hmem))
      (fun hmem => hnotExpired (hexpired id hmem))
    exact ⟨m, hgone id m hm hnotAcked hnotExpired, hc⟩
  · intro c σ hσ hopen id m hm hc
    exact h.covered c σ hσ hopen id m (hless id m hm) hc

theorem Invariant.messagesReceived (h : Invariant strategy s) (ids : List String) :
    Invariant strategy { s with queue := s.queue.removeMessages ids, acked := s.acked ++ ids } := by
  refine h.removed (h.valid.removeMessages ids) ?_ ?_ ?_ ?_
  · intro id m hm
    rw [lookup_removeMessages] at hm
    split_ifs at hm
    exact hm
  · intro id hid
    exact mem_append_left _ hid
  · intro id hid
    exact hid
  · intro id m hm hnotAcked _
    rw [lookup_removeMessages, if_neg, hm]
    intro hid
    exact hnotAcked (mem_append_right _ hid)

theorem Invariant.deleteExpired (h : Invariant strategy s) (order : IterOrder String)
    (cutoff : Timestamp) :
    Invariant strategy { s with
      queue := (s.queue.deleteExpired order cutoff).2
      expired := s.expired ++ (s.queue.expired order cutoff).map QueuedMessage.id } := by
  have hlookup : ∀ id, (s.queue.deleteExpired order cutoff).2.messages.lookup id =
      if id ∈ (s.queue.expired order cutoff).map QueuedMessage.id then none
      else s.queue.messages.lookup id := by
    intro id
    rw [h.valid.deleteExpired_eq, lookup_removeMessages]
  refine h.removed (h.valid.deleteExpired order cutoff) ?_ ?_ ?_ ?_
  · intro id m hm
    rw [hlookup] at hm
    split_ifs at hm
    exact hm
  · intro id hid
    exact hid
  · intro id hid
    exact mem_append_left _ hid
  · intro id m hm _ hnotExpired
    rw [hlookup, if_neg, hm]
    intro hid
    exact hnotExpired (mem_append_right _ hid)

theorem Invariant.relieve (h : Invariant strategy s) (c : String) (cutoff : Timestamp) :
    Invariant strategy { s with
      queue := (s.queue.deleteExpiredForConnection c cutoff).2
      expired := s.expired ++ s.queue.expiredIdsFor c cutoff } := by
  refine h.removed (h.valid.deleteExpiredForConnection c cutoff) ?_ ?_ ?_ ?_
  · intro id m hm
    rw [lookup_deleteExpiredForConnection] at hm
    split_ifs at hm
    exact hm
  · intro id hid
    exact hid
  · intro id hid
    exact mem_append_left _ hid
  · intro id m hm _ hnotExpired
    rw [lookup_deleteExpiredForConnection, if_neg, hm]
    intro hid
    exact hnotExpired (mem_append_right _ hid)

theorem Invariant.deliveryRequest (h : Invariant strategy s) {c : String} {key : Option String}
    {limit : ℕ} (hk : s.Keeps (.deliveryRequest c key limit)) (delivered : List String) :
    Invariant strategy { s with
      queue := (s.queue.takeFromQueue c key limit).2, delivered := delivered } := by
  refine { h with
    valid := h.valid.takeFromQueue c key limit, stored := ?_, kept := ?_, covered := ?_ }
  · intro id m hm
    rcases lookup_take_cases h.valid hm with hsame | ⟨m', -, -, hm', rfl⟩
    · exact h.stored id m hsame
    · exact h.stored id m' hm'
  · intro id c' hqueued hacked hexpired
    obtain ⟨m, hm, hc⟩ := h.kept id c' hqueued hacked hexpired
    simp only [lookup_takeFromQueue, hm]
    split_ifs
    · exact ⟨m.markSending, rfl, hc⟩
    · exact ⟨m, rfl, hc⟩
  · intro c' σ hσ hopen id m hm hc
    rcases lookup_take_cases h.valid hm with hsame | ⟨m', htaken, hid, hm', rfl⟩
    · exact h.covered c' σ hσ hopen id m hsame hc
    · have hc' : c = c' := (h.valid.of_mem_taken htaken).2.1.symm.trans hc
      subst hc'
      exact .inl (hid ▸ hk σ hσ m' htaken)

/-! ## Sessions -/

theorem Invariant.socketDrop (h : Invariant strategy s) (c : String) :
    Invariant strategy { s with sessions := update s.sessions c none } := by
  refine { h with sessions := ?_, current := ?_, covered := ?_ }
  · intro c' σ hσ
    exact h.sessions c' σ (update_none_eq_some hσ)
  · intro u f hu hrunning
    obtain ⟨hcurrent, hsend⟩ := h.current u f hu hrunning
    exact ⟨fun σ hσ => hcurrent σ (update_none_eq_some hσ), hsend⟩
  · intro c' σ hσ hopen id m hm hc
    exact h.covered c' σ (update_none_eq_some hσ) hopen id m hm hc

theorem Invariant.reconnect (h : Invariant strategy s) {c : String} {u : ℕ}
    (hk : s.Keeps (.reconnect c u)) (hu : s.flushes u = none) :
    Invariant strategy { s with
      sessions := update s.sessions c (some s.nextSession)
      nextSession := s.nextSession + 1
      flushes := update s.flushes u (some ⟨c, s.nextSession, 0, .take⟩)
      before := update s.before s.nextSession (s.queued.map Prod.fst) } := by
  obtain ⟨hpending, hidle⟩ := hk
  refine { h with before := ?_, sessions := ?_, flushes := ?_, oneFlush := ?_, current := ?_,
                  covered := ?_ }
  · intro σ id hid
    by_cases hσ : σ = s.nextSession
    · simpa [hσ] using hid
    · exact h.before σ id (by simpa [hσ] using hid)
  · intro c' σ hσ
    rcases update_eq_some hσ with ⟨-, rfl⟩ | ⟨-, hσ⟩
    · exact Nat.lt_succ_self _
    · exact Nat.lt_succ_of_lt (h.sessions c' σ hσ)
  · intro u' f hf
    rcases update_eq_some hf with ⟨-, rfl⟩ | ⟨-, hf⟩
    · exact Nat.lt_succ_self _
    · exact Nat.lt_succ_of_lt (h.flushes u' f hf)
  · intro u₁ u₂ f₁ f₂ h₁ h₂ heq
    rcases update_eq_some h₁ with ⟨e₁, rfl⟩ | ⟨-, h₁⟩ <;>
      rcases update_eq_some h₂ with ⟨e₂, rfl⟩ | ⟨-, h₂⟩
    · exact e₁.trans e₂.symm
    · exact absurd heq (h.flushes u₂ f₂ h₂).ne'
    · exact absurd heq (h.flushes u₁ f₁ h₁).ne
    · exact h.oneFlush u₁ u₂ f₁ f₂ h₁ h₂ heq
  · intro u' f hf hrunning
    rcases update_eq_some hf with ⟨-, rfl⟩ | ⟨-, hf⟩
    · refine ⟨fun σ hσ => ?_, fun σ batch hpc => by cases hpc⟩
      rcases update_eq_some hσ with ⟨-, hnew⟩ | ⟨hne, -⟩
      · exact hnew
      · exact absurd rfl hne
    · obtain ⟨hcurrent, hsend⟩ := h.current u' f hf hrunning
      refine ⟨fun σ hσ => ?_, hsend⟩
      rcases update_eq_some hσ with ⟨hc, -⟩ | ⟨-, hσ⟩
      · rw [hidle u' f hf hc] at hrunning
        cases hrunning
      · exact hcurrent σ hσ
  · intro c' σ hσ hopen id m hm hc
    rcases update_eq_some hσ with ⟨hcc, rfl⟩ | ⟨-, hσ⟩
    · refine .inr (.inl ⟨u, _, update_self _ _ _, hcc.symm, rfl, .inl ⟨?_, rfl⟩⟩)
      exact hpending id m hm (hc.trans hcc)
    · have hne : σ ≠ s.nextSession := (h.sessions c' σ hσ).ne
      refine (h.covered c' σ hσ hopen id m hm hc).mono (fun p hp => hp) ?_
        (update_of_ne hne _ _) (fun t task ht hw => ⟨t, task, ht, hw, rfl⟩)
      intro u' f hf
      have hne' : u' ≠ u := by
        rintro rfl
        rw [hu] at hf
        cases hf
      exact (update_of_ne hne' _ _).trans hf

/-! ## Forwards -/

theorem Invariant.forwardMove (h : Invariant strategy s) {t : ℕ} {task' : ForwardTask}
    (hsame : ∀ id, task'.pc.waitingId = some id → ∃ task, s.forwards t = some task ∧
      task.pc.waitingId = some id ∧ task.connectionId = task'.connectionId)
    (hkeep : ∀ task id, s.forwards t = some task → task.pc.waitingId = some id →
      task'.pc.waitingId = some id ∧ task'.connectionId = task.connectionId) :
    Invariant strategy { s with forwards := update s.forwards t (some task') } := by
  have hcases : ∀ {t' x id}, update s.forwards t (some task') t' = some x →
      x.pc.waitingId = some id → ∃ y, s.forwards t' = some y ∧ y.pc.waitingId = some id ∧
        y.connectionId = x.connectionId := by
    intro t' x id hx hwaiting
    rcases update_eq_some hx with ⟨rfl, rfl⟩ | ⟨-, hx⟩
    · exact hsame id hwaiting
    · exact ⟨x, hx, hwaiting, rfl⟩
  refine { h with waiting := ?_, oneForward := ?_, covered := ?_ }
  · intro t' x id hx hwaiting
    obtain ⟨y, hy, hw, hc⟩ := hcases hx hwaiting
    rw [← hc]
    exact h.waiting t' y id hy hw
  · intro t₁ t₂ x₁ x₂ id h₁ h₂ w₁ w₂
    obtain ⟨y₁, hy₁, hw₁, -⟩ := hcases h₁ w₁
    obtain ⟨y₂, hy₂, hw₂, -⟩ := hcases h₂ w₂
    exact h.oneForward t₁ t₂ y₁ y₂ id hy₁ hy₂ hw₁ hw₂
  · intro c σ hσ hopen id m hm hc
    refine (h.covered c σ hσ hopen id m hm hc).mono (fun p hp => hp) (fun u f hf => hf) rfl ?_
    intro t' x hx hwaiting
    by_cases hne : t' = t
    · rw [hne] at hx
      obtain ⟨hw, hc'⟩ := hkeep x id hx hwaiting
      exact ⟨t, task', update_self _ _ _, hw, hc'⟩
    · exact ⟨t', x, (update_of_ne hne _ _).trans hx, hwaiting, rfl⟩

variable {task : ForwardTask}

theorem Invariant.enqueue (h : Invariant strategy s) {t : ℕ} {m : QueuedMessage}
    (ht : s.forwards t = some task) (hpc : task.pc.waitingId = none)
    (hc : m.connectionId = task.connectionId) (hfresh : m.id ∉ s.queued.map Prod.fst) :
    Invariant strategy { s with
      queue := s.queue.addMessage m
      queued := s.queued ++ [(m.id, task.connectionId)]
      forwards := update s.forwards t (some { task with pc := .hasSession m.id }) } := by
  have hnew : ∀ c, (m.id, c) ∉ s.queued := fun c hmem => hfresh (mem_map_of_mem hmem)
  have hnone : s.queue.messages.lookup m.id = none := by
    cases hlookup : s.queue.messages.lookup m.id with
    | none => rfl
    | some m' => exact absurd (h.stored _ m' hlookup) (hnew _)
  refine { h with valid := h.valid.addMessage hnone, stored := ?_, kept := ?_, accepted := ?_,
                  before := ?_, waiting := ?_, oneForward := ?_, covered := ?_ }
  · intro id x hx
    rw [lookup_addMessage] at hx
    split_ifs at hx with hid
    · obtain rfl := some.inj hx
      simp [hid, hc]
    · exact mem_append_left _ (h.stored id x hx)
  · intro id c hqueued hacked hexpired
    rw [lookup_addMessage]
    rcases mem_append.1 hqueued with hold | hlast
    · have hne : id ≠ m.id := by
        rintro rfl
        exact hnew c hold
      rw [if_neg hne]
      exact h.kept id c hold hacked hexpired
    · obtain ⟨rfl, rfl⟩ := Prod.mk.inj (mem_singleton.1 hlast)
      exact ⟨m, if_pos rfl, hc⟩
  · intro x hx
    exact mem_append_left _ (h.accepted x hx)
  · intro σ id hid
    rw [map_append]
    exact mem_append_left _ (h.before σ id hid)
  · intro t' x id hx hwaiting
    rcases update_eq_some hx with ⟨-, rfl⟩ | ⟨-, hx⟩
    · obtain rfl := some.inj hwaiting
      refine ⟨by simp, fun c hmem => hnew c (h.accepted _ hmem)⟩
    · obtain ⟨hmem, hnot⟩ := h.waiting t' x id hx hwaiting
      exact ⟨mem_append_left _ hmem, hnot⟩
  · intro t₁ t₂ x₁ x₂ id h₁ h₂ w₁ w₂
    rcases update_eq_some h₁ with ⟨e₁, rfl⟩ | ⟨-, h₁⟩ <;>
      rcases update_eq_some h₂ with ⟨e₂, rfl⟩ | ⟨-, h₂⟩
    · exact e₁.trans e₂.symm
    · obtain rfl := some.inj w₁
      exact absurd (h.waiting t₂ x₂ _ h₂ w₂).1 (hnew _)
    · obtain rfl := some.inj w₂
      exact absurd (h.waiting t₁ x₁ _ h₁ w₁).1 (hnew _)
    · exact h.oneForward t₁ t₂ x₁ x₂ id h₁ h₂ w₁ w₂
  · intro c σ hσ hopen id x hx hxc
    rw [lookup_addMessage] at hx
    split_ifs at hx with hid
    · obtain rfl := some.inj hx
      refine .inr (.inr ⟨?_, .inr ⟨t, _, update_self _ _ _, ?_, hc.symm.trans hxc⟩⟩)
      · intro hmem
        exact hfresh (h.before σ _ (hid ▸ hmem))
      · rw [hid]
        rfl
    · refine (h.covered c σ hσ hopen id x hx hxc).mono (fun p hp => hp) (fun u f hf => hf) rfl ?_
      intro t' y hy hwaiting
      have hne : t' ≠ t := by
        rintro rfl
        rw [ht] at hy
        rw [← some.inj hy, hpc] at hwaiting
        cases hwaiting
      exact ⟨t', y, (update_of_ne hne _ _).trans hy, hwaiting, rfl⟩

theorem Invariant.accept (h : Invariant strategy s) {t : ℕ} (ht : s.forwards t = some task)
    (hpc : task.pc.waitingId = some id) {frames : List (ℕ × DeliveryFrame)} {refused : List ℕ}
    {delivered : List String} (hframes : ∀ p ∈ s.frames, p ∈ frames)
    (hrefused : ∀ σ ∈ s.refused, σ ∈ refused)
    (hpush : ∀ σ, s.sessions task.connectionId = some σ → σ ∉ refused →
      strategy ≠ .queueAndLiveDelivery ∨ ∃ p ∈ frames, p.1 = σ ∧ p.2.Carries id)
    :
    Invariant strategy { s with
      frames := frames
      refused := refused
      delivered := delivered
      accepted := s.accepted ++ [(id, task.connectionId)]
      forwards := update s.forwards t (some { task with pc := .accepted id }) } := by
  obtain ⟨hqueued, hnot⟩ := h.waiting t task id ht hpc
  refine { h with accepted := ?_, waiting := ?_, oneForward := ?_, covered := ?_ }
  · intro p hp
    rcases mem_append.1 hp with hold | hlast
    · exact h.accepted p hold
    · rwa [mem_singleton.1 hlast]
  · intro t' x id' hx hwaiting
    rcases update_eq_some hx with ⟨-, rfl⟩ | ⟨hne, hx⟩
    · cases hwaiting
    · obtain ⟨hmem, hnot'⟩ := h.waiting t' x id' hx hwaiting
      refine ⟨hmem, fun c hc => ?_⟩
      rcases mem_append.1 hc with hold | hlast
      · exact hnot' c hold
      · have hid : id' = id := (Prod.mk.inj (mem_singleton.1 hlast)).1
        exact hne (h.oneForward t' t x task id' hx ht hwaiting (hid ▸ hpc))
  · intro t₁ t₂ x₁ x₂ id' h₁ h₂ w₁ w₂
    rcases update_eq_some h₁ with ⟨-, rfl⟩ | ⟨-, h₁⟩
    · cases w₁
    · rcases update_eq_some h₂ with ⟨-, rfl⟩ | ⟨-, h₂⟩
      · cases w₂
      · exact h.oneForward t₁ t₂ x₁ x₂ id' h₁ h₂ w₁ w₂
  · intro c σ hσ hopen id' m hm hc
    have hold := h.covered c σ hσ (fun hmem => hopen (hrefused σ hmem)) id' m hm hc
    rcases hold with ⟨p, hp, hcarries⟩ | hflush | ⟨hafter, hlive⟩
    · exact .inl ⟨p, hframes p hp, hcarries⟩
    · exact .inr (.inl hflush)
    · rcases hlive with hother | ⟨t', x, hx, hwaiting, hxc⟩
      · exact .inr (.inr ⟨hafter, .inl hother⟩)
      · by_cases hne : t' = t
        · rw [hne, ht] at hx
          obtain rfl := some.inj hx
          obtain rfl := some.inj (hpc.symm.trans hwaiting)
          subst hxc
          rcases hpush σ hσ hopen with hother | hpushed
          · exact .inr (.inr ⟨hafter, .inl hother⟩)
          · exact .inl hpushed
        · refine .inr (.inr ⟨hafter, .inr ⟨t', x, ?_, hwaiting, hxc⟩⟩)
          exact (update_of_ne hne _ _).trans hx

/-! ## Flushes -/

section

variable {u : ℕ} {f : FlushTask} {pc : FlushPc} {n : ℕ}

theorem Invariant.flushMove (h : Invariant strategy s) (hu : s.flushes u = some f)
    (hrunning : f.pc.running = true) (hsend : ∀ σ batch, pc = .send σ batch → σ = f.session)
    {queue : QueueTables} {frames : List (ℕ × DeliveryFrame)} {refused : List ℕ}
    {delivered : List String} (hvalid : queue.Valid)
    (hstored : ∀ id m, queue.messages.lookup id = some m → (id, m.connectionId) ∈ s.queued)
    (hkept : ∀ id c, (id, c) ∈ s.queued → id ∉ s.acked → id ∉ s.expired →
      ∃ m, queue.messages.lookup id = some m ∧ m.connectionId = c)
    (hcovered : ∀ c σ, s.sessions c = some σ → σ ∉ refused → ∀ id m,
      queue.messages.lookup id = some m → m.connectionId = c →
        Covered strategy { s with
          queue := queue, frames := frames, refused := refused, delivered := delivered
          flushes := update s.flushes u (some { f with delivered := n, pc := pc }) }
          c σ id m) :
    Invariant strategy { s with
      queue := queue, frames := frames, refused := refused, delivered := delivered
      flushes := update s.flushes u (some { f with delivered := n, pc := pc }) } := by
  refine { h with valid := hvalid, stored := hstored, kept := hkept, flushes := ?_, oneFlush := ?_,
                  current := ?_, covered := hcovered }
  · intro u' f' hf'
    rcases update_eq_some hf' with ⟨-, rfl⟩ | ⟨-, hf'⟩
    · exact h.flushes u f hu
    · exact h.flushes u' f' hf'
  · intro u₁ u₂ f₁ f₂ h₁ h₂ heq
    rcases update_eq_some h₁ with ⟨e₁, rfl⟩ | ⟨-, h₁⟩ <;>
      rcases update_eq_some h₂ with ⟨e₂, rfl⟩ | ⟨-, h₂⟩
    · exact e₁.trans e₂.symm
    · rw [e₁]
      exact h.oneFlush u u₂ f f₂ hu h₂ heq
    · rw [e₂]
      exact h.oneFlush u₁ u f₁ f h₁ hu heq
    · exact h.oneFlush u₁ u₂ f₁ f₂ h₁ h₂ heq
  · intro u' f' hf' hrunning'
    rcases update_eq_some hf' with ⟨-, rfl⟩ | ⟨-, hf'⟩
    · exact ⟨(h.current u f hu hrunning).1, hsend⟩
    · exact h.current u' f' hf' hrunning'

theorem Invariant.covered_flush (h : Invariant strategy s) (hu : s.flushes u = some f)
    {queue : QueueTables} {frames : List (ℕ × DeliveryFrame)} {refused : List ℕ}
    {delivered : List String} (hframes : ∀ p ∈ s.frames, p ∈ frames)
    (hrefused : ∀ σ ∈ s.refused, σ ∈ refused) {c : String} {σ : ℕ} (hσ : s.sessions c = some σ)
    (hopen : σ ∉ refused) {m : QueuedMessage} (hm : s.queue.messages.lookup id = some m)
    (hc : m.connectionId = c)
    (hflush : f.connectionId = c → f.session = σ → (m.state = .pending ∧ f.pc.draining = true) ∨
      (∃ x ∈ f.pc.batch, x.id = id) → (∃ p ∈ frames, p.1 = σ ∧ p.2.Carries id) ∨
      (m.state = .pending ∧ pc.draining = true) ∨ ∃ x ∈ pc.batch, x.id = id)
    :
    Covered strategy { s with
      queue := queue, frames := frames, refused := refused, delivered := delivered
      flushes := update s.flushes u (some { f with delivered := n, pc := pc }) }
      c σ id m := by
  rcases h.covered c σ hσ (fun hmem => hopen (hrefused σ hmem)) id m hm hc with
    ⟨p, hp, hcarries⟩ | ⟨u', f', hu', hfc, hfσ, hwill⟩ | hlater
  · exact .inl ⟨p, hframes p hp, hcarries⟩
  · by_cases hne : u' = u
    · rw [hne, hu] at hu'
      obtain rfl := some.inj hu'
      rcases hflush hfc hfσ hwill with hpushed | hwill'
      · exact .inl hpushed
      · exact .inr (.inl ⟨u, _, update_self _ _ _, hfc, hfσ, hwill'⟩)
    · exact .inr (.inl ⟨u', f', (update_of_ne hne _ _).trans hu', hfc, hfσ, hwill⟩)
  · exact .inr (.inr hlater)

variable {batch : List QueuedMessage}

theorem Invariant.flushTake (h : Invariant strategy s) (hu : s.flushes u = some f)
    (hpc : f.pc = .take) (hbatch : batch = s.queue.taken f.connectionId none reconnectReplayBatch)
    (hnext : pc = if batch = [] then .completed else .lookup batch) :
    Invariant strategy { s with
      queue := (s.queue.takeFromQueue f.connectionId none reconnectReplayBatch).2
      flushes := update s.flushes u (some { f with delivered := n, pc := pc }) } := by
  have hrunning : f.pc.running = true := by rw [hpc]; rfl
  have hmem : ∀ x ∈ batch, ∃ y ∈ pc.batch, y.id = x.id := by
    intro x hx
    have hne : batch ≠ [] := ne_nil_of_mem hx
    rw [hnext, if_neg hne]
    exact ⟨x, hx, rfl⟩
  refine h.flushMove hu hrunning ?_ (h.valid.takeFromQueue _ _ _) ?_ ?_ ?_
  · intro σ b hσ
    rw [hnext] at hσ
    split_ifs at hσ
  · intro id m hm
    rcases lookup_take_cases h.valid hm with hsame | ⟨m', -, -, hm', rfl⟩
    · exact h.stored id m hsame
    · exact h.stored id m' hm'
  · intro id c hqueued hacked hexpired
    obtain ⟨m, hm, hc⟩ := h.kept id c hqueued hacked hexpired
    simp only [lookup_takeFromQueue, hm]
    split_ifs
    · exact ⟨m.markSending, rfl, hc⟩
    · exact ⟨m, rfl, hc⟩
  · intro c σ hσ hopen id m hm hc
    rcases lookup_take_cases h.valid hm with hsame | ⟨m', htaken, hid, hm', rfl⟩
    · refine h.covered_flush hu (fun p hp => hp) (fun σ hσ => hσ) hσ hopen hsame hc ?_
      intro hfc _ hwill
      rw [hpc] at hwill
      rcases hwill with ⟨hpending, -⟩ | ⟨x, hx, -⟩
      · -- a pending message that was not taken: the batch is full
        refine .inr (.inl ⟨hpending, ?_⟩)
        have hfull : ¬ batch.length < reconnectReplayBatch := by
          intro hshort
          rw [hbatch] at hshort
          have htaken := mem_taken_of_short h.valid hshort hsame (hc.trans hfc.symm) hpending
          have hid : id ∈ (s.queue.taken f.connectionId none reconnectReplayBatch).map
              QueuedMessage.id :=
            mem_map.2 ⟨m, htaken, h.valid.key id m hsame⟩
          rw [lookup_takeFromQueue, if_pos hid, hsame] at hm
          have hstate : QueuedMessageState.sending = m.state :=
            congrArg QueuedMessage.state (some.inj hm)
          rw [hpending] at hstate
          cases hstate
        have hne : batch ≠ [] := by
          rintro rfl
          exact hfull (by decide)
        rw [hnext, if_neg hne]
        simpa [FlushPc.draining] using hfull
      · simp [FlushPc.batch] at hx
    · have hfc : f.connectionId = c := (h.valid.of_mem_taken htaken).2.1.symm.trans hc
      have hfσ : f.session = σ := ((h.current u f hu hrunning).1 σ (hfc ▸ hσ)).symm
      obtain ⟨y, hy, hyid⟩ := hmem m' (hbatch ▸ htaken)
      exact .inr (.inl ⟨u, _, update_self _ _ _, hfc, hfσ, .inr ⟨y, hy, hyid.trans hid⟩⟩)

theorem Invariant.flushLost (h : Invariant strategy s) (hu : s.flushes u = some f)
    (hrunning : f.pc.running = true) (hnone : s.sessions f.connectionId = none) :
    Invariant strategy { s with
      flushes := update s.flushes u (some { f with delivered := n, pc := .stopped }) } := by
  refine h.flushMove hu hrunning (fun _ _ hpc => by cases hpc) h.valid h.stored h.kept ?_
  intro c σ hσ hopen id m hm hc
  refine h.covered_flush hu (fun p hp => hp) (fun σ hσ => hσ) hσ hopen hm hc ?_
  intro hfc
  rw [← hfc, hnone] at hσ
  cases hσ

variable {τ : ℕ}

theorem Invariant.flushLookup (h : Invariant strategy s) (hu : s.flushes u = some f)
    (hpc : f.pc = .lookup batch) (hτ : s.sessions f.connectionId = some τ) :
    Invariant strategy { s with
      flushes := update s.flushes u (some { f with delivered := n, pc := .send τ batch }) } := by
  have hrunning : f.pc.running = true := by rw [hpc]; rfl
  have hcurrent := (h.current u f hu hrunning).1 τ hτ
  refine h.flushMove hu hrunning ?_ h.valid h.stored h.kept ?_
  · intro σ b hsend
    cases hsend
    exact hcurrent
  · intro c σ hσ hopen id m hm hc
    refine h.covered_flush hu (fun p hp => hp) (fun σ hσ => hσ) hσ hopen hm hc ?_
    intro _ _ hwill
    rw [hpc] at hwill
    exact .inr hwill

theorem Invariant.flushPush (h : Invariant strategy s) (hu : s.flushes u = some f)
    (hpc : f.pc = .send τ batch) (frameId : String) (delivered : List String)
    (hnext : pc = if batch.length < reconnectReplayBatch then .completed else .take) :
    Invariant strategy { s with
      frames := s.frames ++ [(τ, buildDeliveryFrame frameId (batch.map attachmentOf))]
      delivered := delivered
      flushes := update s.flushes u (some { f with delivered := n, pc := pc }) } := by
  have hrunning : f.pc.running = true := by rw [hpc]; rfl
  have hτ := (h.current u f hu hrunning).2 τ batch hpc
  refine h.flushMove hu hrunning ?_ h.valid h.stored h.kept ?_
  · intro σ b hsend
    rw [hnext] at hsend
    split_ifs at hsend
  · intro c σ hσ hopen id m hm hc
    refine h.covered_flush hu (fun p hp => mem_append_left _ hp) (fun σ hσ => hσ) hσ hopen hm hc ?_
    intro _ hfσ hwill
    rw [hpc] at hwill
    rcases hwill with ⟨hpending, hdraining⟩ | ⟨x, hx, hxid⟩
    · have hfull : ¬ batch.length < reconnectReplayBatch := by
        simpa [draining] using hdraining
      rw [hnext, if_neg hfull]
      exact .inr (.inl ⟨hpending, rfl⟩)
    · refine .inl ⟨_, mem_append_right _ (mem_singleton_self _), hτ.trans hfσ, ?_⟩
      exact ⟨attachmentOf x, mem_map_of_mem hx, congrArg some hxid⟩

theorem Invariant.flushRefused (h : Invariant strategy s) (hu : s.flushes u = some f)
    (hpc : f.pc = .send τ batch) :
    Invariant strategy { s with
      refused := s.refused ++ [τ]
      flushes := update s.flushes u (some { f with delivered := n, pc := .stopped }) } := by
  have hrunning : f.pc.running = true := by rw [hpc]; rfl
  have hτ := (h.current u f hu hrunning).2 τ batch hpc
  refine h.flushMove hu hrunning (fun _ _ hsend => by cases hsend) h.valid h.stored h.kept ?_
  intro c σ hσ hopen id m hm hc
  refine h.covered_flush hu (fun p hp => hp) (fun σ hσ => mem_append_left _ hσ) hσ hopen hm hc ?_
  intro _ hfσ _
  exact absurd (mem_append_right _ (mem_singleton.2 (hfσ.symm.trans hτ.symm))) hopen

end

/-! ## Runs -/

theorem Invariant.stepForward (h : Invariant strategy s) {t : ℕ} (ht : s.forwards t = some task)
    {now : Timestamp} {accepts : Bool}
    (hstep : s.stepForward strategy t task now id accepts = some s') : Invariant strategy s' := by
  -- a part that neither queues the message nor ends with it queued
  have hmove : ∀ {s₁ : Relay}, Invariant strategy s₁ → s₁.forwards = s.forwards →
      ∀ pc : ForwardPc, pc.waitingId = task.pc.waitingId →
        Invariant strategy { s₁ with
          forwards := update s₁.forwards t (some { task with pc := pc }) } := by
    intro s₁ h₁ hsame pc hpc
    refine h₁.forwardMove (fun k hk => ⟨task, ?_, hpc ▸ hk, rfl⟩) (fun x k hx hk => ?_)
    · rw [hsame, ht]
    · rw [hsame, ht] at hx
      obtain rfl := some.inj hx
      exact ⟨hpc.trans hk, rfl⟩
  rcases stepForward_cases hstep with ⟨pc, hpc, rfl⟩ | ⟨pc, hrelieve, hpc, rfl⟩ |
    ⟨henqueue, hfresh, rfl⟩ | ⟨k, frames, refused, delivered, hk, hframes, hrefused, hpush, rfl⟩
  · exact hmove h rfl pc hpc
  · exact hmove (h.relieve task.connectionId (now - forwardStaleReliefTtl)) rfl pc
      (by rw [hpc, hrelieve]; rfl)
  · exact h.enqueue ht (by rw [henqueue]; rfl) rfl hfresh
  · exact h.accept ht hk hframes hrefused hpush

theorem Invariant.stepFlush (h : Invariant strategy s) {u : ℕ} {f : FlushTask}
    (hu : s.flushes u = some f) {frameId : String} {accepts : Bool}
    (hstep : s.stepFlush u f frameId accepts = some s') : Invariant strategy s' := by
  cases hpc : f.pc with
  | take =>
    simp only [Relay.stepFlush, hpc] at hstep
    split_ifs at hstep with hempty
    · cases hstep
      exact h.flushTake hu hpc rfl (if_pos hempty).symm
    · cases hstep
      exact h.flushTake hu hpc rfl (if_neg hempty).symm
  | lookup batch =>
    cases hσ : s.sessions f.connectionId with
    | none =>
      simp only [Relay.stepFlush, hpc, hσ] at hstep
      cases hstep
      exact h.flushLost hu (by rw [hpc]; rfl) hσ
    | some τ =>
      simp only [Relay.stepFlush, hpc, hσ] at hstep
      cases hstep
      exact h.flushLookup hu hpc hσ
  | send τ batch =>
    simp only [Relay.stepFlush, hpc] at hstep
    split_ifs at hstep with haccepts hshort
    · cases hstep
      exact h.flushPush hu hpc frameId _ (if_pos hshort).symm
    · cases hstep
      exact h.flushPush hu hpc frameId _ (if_neg hshort).symm
    · cases hstep
      exact h.flushRefused hu hpc
  | completed | stopped => simp [Relay.stepFlush, hpc] at hstep

theorem Invariant.step (h : Invariant strategy s) {a : RelayStep} (hk : s.Keeps a)
    (hstep : s.step strategy a = some s') : Invariant strategy s' := by
  cases a with
  | forward t recipientKey encryptedMessage connection =>
    simp only [Relay.step] at hstep
    split at hstep
    · cases hstep
    · next hfree =>
      -- the new call has queued nothing
      have hnew : ∀ (c : String) (pc : ForwardPc), pc.waitingId = none →
          Invariant strategy { s with
            forwards := update s.forwards t (some ⟨c, recipientKey, encryptedMessage, pc⟩) } := by
        intro c pc hpc
        refine h.forwardMove (fun id hid => ?_) (fun task id hx => ?_)
        · rw [hpc] at hid
          cases hid
        · rw [hfree] at hx
          cases hx
      split at hstep
      · cases hstep
        exact hnew _ _ rfl
      · split_ifs at hstep
        · cases hstep
          exact hnew _ _ rfl
        · cases hstep
          exact hnew _ _ rfl
  | runForward t now id accepts =>
    simp only [Relay.step] at hstep
    split at hstep
    · cases hstep
    · next task ht => exact h.stepForward ht hstep
  | reconnect c u =>
    simp only [Relay.step] at hstep
    split at hstep
    · cases hstep
    · next hfree =>
      cases hstep
      exact h.reconnect hk hfree
  | runFlush u frameId accepts =>
    simp only [Relay.step] at hstep
    split at hstep
    · cases hstep
    · next task hu => exact h.stepFlush hu hstep
  | deliveryRequest c key limit =>
    cases hstep
    exact h.deliveryRequest hk _
  | messagesReceived ids =>
    simp only [Relay.step] at hstep
    split_ifs at hstep
    cases hstep
    exact h.messagesReceived ids
  | socketDrop c =>
    cases hstep
    exact h.socketDrop c
  | deleteExpired order cutoff =>
    cases hstep
    exact h.deleteExpired order cutoff

/-- **Unacknowledged mail is replayed** in every run in which, whenever a client reconnects, none
of its messages is still marked as being sent and no earlier flush of it is running, and in
which no delivery request takes a message that was not pushed on the current session. -/
theorem replayed_of_along {steps : List RelayStep}
    (hk : Along (Relay.step strategy) Keeps start steps)
    (hexec : exec (Relay.step strategy) start steps = some s) : Replayed strategy s :=
  (exec_invariant_along (fun _ _ _ h hk hstep => Invariant.step h hk hstep) invariant_start
    hk hexec).replayed

end Relay

namespace Sample

/-- A message is queued while its recipient is away. -/
def queued : List RelayStep :=
  [.forward 0 "key" "sealed" (some "alice"), .runForward 0 0 "m1" true, .runForward 0 0 "m1" true,
    .runForward 0 0 "m1" true]

/-- The recipient connects, and the flush pushes the message. -/
def replayed : List RelayStep :=
  queued ++ [.reconnect "alice" 0, .runFlush 0 "f1" true, .runFlush 0 "f1" true,
    .runFlush 0 "f1" true]

/-- The recipient picks the message up, does not acknowledge it, and connects again. -/
def stranded : List RelayStep :=
  queued ++ [.deliveryRequest "alice" none 10, .reconnect "alice" 0, .runFlush 0 "f1" true]

end Sample

namespace Relay

theorem replayed_of_along_sample :
    ∃ s, exec (Relay.step .queueAndLiveDelivery) start Sample.replayed = some s ∧
      s.Pushed 0 "m1" ∧ Replayed .queueAndLiveDelivery s := by
  have hk : Along (Relay.step .queueAndLiveDelivery) Keeps start Sample.replayed := by
    refine along_cons trivial rfl ?_
    refine along_cons trivial rfl ?_
    refine along_cons trivial rfl ?_
    refine along_cons trivial rfl ?_
    -- the one message of the queue is pending
    refine along_cons ⟨fun id m hm _ => ?_, fun _ _ hf => by cases hf⟩ rfl ?_
    · rw [lookup_addMessage] at hm
      split_ifs at hm
      · rw [← some.inj hm]
        rfl
      · cases hm
    refine along_cons trivial rfl ?_
    refine along_cons trivial rfl ?_
    exact along_cons trivial rfl trivial
  obtain ⟨s, hs, hpushed⟩ : ∃ s, exec (Relay.step .queueAndLiveDelivery) start
      Sample.replayed = some s ∧ s.Pushed 0 "m1" :=
    ⟨_, rfl, _, mem_singleton_self _, rfl, _, mem_singleton_self _, rfl⟩
  exact ⟨s, hs, hpushed, replayed_of_along hk hs⟩

/-- A message that was picked up and not acknowledged stays marked as being sent: the flush of the
next session finds nothing to push. -/
theorem replayed_fails_stranded :
    ∃ s, exec (Relay.step .queueAndLiveDelivery) start Sample.stranded = some s ∧
      ¬ Replayed .queueAndLiveDelivery s := by
  refine ⟨_, rfl, fun h => ?_⟩
  obtain ⟨p, hp, -⟩ := h "alice" 0 rfl (by decide) ⟨0, _, rfl, rfl, rfl, rfl⟩ "m1" (by decide)
    (by decide) (by decide) (.inl rfl)
  cases hp

end Relay

end Idiom.Mediation
