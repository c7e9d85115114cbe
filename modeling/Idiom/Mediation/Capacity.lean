import Idiom.Mediation.Forward
import Idiom.Pickup.Pending

/-!
# The cap of a connection's queue: `services/forward_service.rs`

A forward counts the pending messages of its connection, may age out old ones, and then queues its
message. These are three calls of the repository, and other forwards go on between them.
-/

namespace Idiom.Mediation

open Pickup Function List QueueTables Run Option

theorem countP_update {α : Type*} {l : List α} (hl : l.Nodup) {a : α} (ha : a ∈ l) {p q : α → Bool}
    (h : ∀ b, b ≠ a → q b = p b) : l.countP q + (p a).toNat = l.countP p + (q a).toNat := by
  induction l with
  | nil => cases ha
  | cons b l ih =>
    rw [nodup_cons] at hl
    rw [countP_cons, countP_cons]
    rcases mem_cons.1 ha with rfl | hmem
    · have hrest : l.countP q = l.countP p := by
        refine countP_congr fun x hx => ?_
        rw [h x]
        rintro rfl
        exact hl.1 hx
      rw [hrest]
      cases p a <;> cases q a <;> simp
    · have hne : b ≠ a := by
        rintro rfl
        exact hl.1 hmem
      have htail := ih hl.2 hmem
      rw [h b hne]
      omega

/-! ## The relay with its counts -/

/-- The forward has room for its message and is about to queue it. -/
def ForwardPc.entering : ForwardPc → Bool
  | .enqueue => true
  | _ => false

/-- A relay, the forwards that have started, and for each message that was queued how many were
pending for its connection right after. -/
structure Metered where
  relay : Relay
  started : List ℕ
  counts : List (String × ℕ)

inductive MeteredStep where
  | relay (a : RelayStep)
  /-- Any ids are acknowledged. -/
  | removeMessages (ids : List String)
  | clearConnection (connectionId : String)

namespace Sample

def messageId (n : ℕ) : String := String.ofList (replicate n 'm')

def forwardAt (pc : ForwardPc) : ForwardTask := ⟨"alice", "key", "sealed", pc⟩

def arrive (t : ℕ) : MeteredStep := .relay (.forward t "key" "sealed" (some "alice"))

def goOn (t : ℕ) : MeteredStep := .relay (.runForward t 0 (messageId t) true)

/-- Messages that arrive one after the other, while their recipient is away. -/
def filled : ℕ → List MeteredStep
  | 0 => []
  | n + 1 => filled n ++ [arrive n, goOn n, goOn n, goOn n]

/-- Two forwards that take turns. -/
def overlapping : List MeteredStep :=
  [arrive 0, arrive 1, goOn 0, goOn 1, goOn 0, goOn 1, goOn 0, goOn 1]

/-- One place is left, and two forwards have both counted before either queues its message. -/
def overfull : List MeteredStep :=
  filled 999 ++ [arrive 999, arrive 1000, goOn 999, goOn 1000, goOn 999, goOn 1000, goOn 1000]

theorem messageId_injective : Injective messageId := by
  intro m n h
  have hlist := congrArg (fun s : String => s.toList.length) h
  simpa [messageId] using hlist

end Sample

open Sample

namespace Metered

def start : Metered := ⟨.start, [], []⟩

/-- What is noted of a step of the relay. -/
def note (s : Metered) (relay : Relay) : RelayStep → Metered
  | .forward t _ _ _ => { s with relay := relay, started := s.started ++ [t] }
  | .runForward t _ id _ =>
    match s.relay.forwards t with
    | some ⟨c, _, _, .enqueue⟩ =>
      { s with relay := relay, counts := s.counts ++ [(id, relay.queue.getPendingCount c none)] }
    | _ => { s with relay := relay }
  | _ => { s with relay := relay }

def step (strategy : ForwardingStrategy) (s : Metered) : MeteredStep → Option Metered
  | .relay a => (s.relay.step strategy a).map fun relay => s.note relay a
  | .removeMessages ids =>
    some { s with relay := { s.relay with queue := s.relay.queue.removeMessages ids } }
  | .clearConnection c =>
    some { s with relay := { s.relay with queue := (s.relay.queue.clearConnection c).2 } }

/-- Right after the message of an accepted forward was queued, its connection had at most
`maxQueuePerConnection` pending messages. -/
def Capped (s : Metered) : Prop :=
  ∀ id c n, (id, c) ∈ s.relay.accepted → (id, n) ∈ s.counts → n ≤ maxQueuePerConnection

/-- The forward is about to queue a message for the connection. -/
def isEntering (forwards : ℕ → Option ForwardTask) (c : String) (t : ℕ) : Bool :=
  (forwards t).any fun task => task.pc.entering && task.connectionId == c

/-- How many forwards are about to queue a message for the connection. -/
def entering (s : Metered) (c : String) : ℕ := s.started.countP (isEntering s.relay.forwards c)

/-- A forward that goes on to queue its message finds room: the pending messages that stay, and the
messages about to be queued for the connection, are fewer than the cap. -/
def Room (s : Metered) : MeteredStep → Prop
  | .relay (.runForward t now _ _) =>
    match s.relay.forwards t with
    | some ⟨c, _, _, .count⟩ =>
      s.relay.queue.getPendingCount c none < maxQueuePerConnection →
        s.relay.queue.getPendingCount c none + s.entering c < maxQueuePerConnection
    | some ⟨c, _, _, .relieve⟩ =>
      s.relay.queue.expiredIdsFor c (now - forwardStaleReliefTtl) ≠ [] →
        (s.relay.queue.unexpired c (now - forwardStaleReliefTtl)).length + s.entering c <
          maxQueuePerConnection
    | _ => True
  | _ => True

/-! ## The invariant -/

structure Counted (s : Metered) : Prop where
  valid : s.relay.queue.Valid
  stored : ∀ id m, s.relay.queue.messages.lookup id = some m → id ∈ s.relay.queued.map Prod.fst
  started : ∀ t, t ∈ s.started ↔ (s.relay.forwards t).isSome
  nodup : s.started.Nodup
  within : ∀ c, s.relay.queue.getPendingCount c none + s.entering c ≤ maxQueuePerConnection
  counts : ∀ p ∈ s.counts, p.2 ≤ maxQueuePerConnection

variable {strategy : ForwardingStrategy} {s s' : Metered}

theorem counted_start : Counted start where
  valid := valid_new
  stored _ _ h := by simp [start, Relay.start, new] at h
  started _ := by simp [start, Relay.start]
  nodup := nodup_nil
  within _ := Nat.zero_le _
  counts _ h := by cases h

theorem Counted.capped (h : s.Counted) : s.Capped :=
  fun _ _ _ _ hn => h.counts _ hn

theorem Counted.shrink (h : s.Counted) {relay : Relay}
    (hqueue : s.relay.queue.Shrinks relay.queue) (hforwards : relay.forwards = s.relay.forwards)
    (hqueued : relay.queued = s.relay.queued) : Counted { s with relay := relay } where
  valid := hqueue.valid
  stored id m hm := by
    obtain ⟨m', hm', -⟩ := hqueue.stored id m hm
    rw [hqueued]
    exact h.stored id m' hm'
  started t := by
    rw [h.started t, hforwards]
  nodup := h.nodup
  within c := by
    have hle := hqueue.getPendingCount_le h.valid c
    have hold := h.within c
    unfold entering at hold ⊢
    rw [hforwards]
    show relay.queue.getPendingCount c none + s.started.countP _ ≤ _
    omega
  counts := h.counts

theorem Counted.not_started (h : s.Counted) {t : ℕ} (hfree : s.relay.forwards t = none) :
    t ∉ s.started := by
  rw [h.started t, hfree]
  simp

theorem Counted.arrive (h : s.Counted) {t : ℕ} {task : ForwardTask}
    (hfree : s.relay.forwards t = none) (hpc : task.pc.entering = false) :
    Counted { s with
      relay := { s.relay with forwards := update s.relay.forwards t (some task) }
      started := s.started ++ [t] } where
  valid := h.valid
  stored := h.stored
  started u := by
    by_cases hu : u = t
    · simp [hu]
    · simp [hu, h.started u]
  nodup := h.nodup.append (nodup_singleton t) (disjoint_singleton.2 (h.not_started hfree))
  within c := by
    have hold := h.within c
    unfold entering at hold ⊢
    have hrest : s.started.countP
        (isEntering (update s.relay.forwards t (some task)) c) =
          s.started.countP (isEntering s.relay.forwards c) := by
      refine countP_congr fun u hu => ?_
      have hne : u ≠ t := by
        rintro rfl
        exact h.not_started hfree hu
      rw [isEntering, update_of_ne hne, isEntering]
    have hnew : isEntering (update s.relay.forwards t (some task)) c t = false := by
      simp [isEntering, hpc]
    rw [countP_append, countP_singleton, hrest, hnew]
    exact hold
  counts := h.counts

/-! ## A part of a forward -/

end Metered

namespace Relay

variable {strategy : ForwardingStrategy} {s s' : Relay}

variable {id : String}

/-- What a part of a forward does to the queue: nothing, relief, or its message is queued. It goes
on to queue its message only if the count was below the cap or relief removed something. -/
theorem stepForward_queue {t : ℕ} {task : ForwardTask} {now : Timestamp} {accepts : Bool}
    (hstep : s.stepForward strategy t task now id accepts = some s') :
    ∃ pc : ForwardPc, s'.forwards = update s.forwards t (some { task with pc := pc }) ∧
      ((s'.queue = s.queue ∧ s'.queued = s.queued ∧ task.pc.entering = false ∧
          (pc.entering = true → task.pc = .count ∧
            s.queue.getPendingCount task.connectionId none < maxQueuePerConnection)) ∨
        (task.pc = .relieve ∧ s'.queued = s.queued ∧
          s'.queue = (s.queue.deleteExpiredForConnection task.connectionId
            (now - forwardStaleReliefTtl)).2 ∧
          (pc.entering = true →
            s.queue.expiredIdsFor task.connectionId (now - forwardStaleReliefTtl) ≠ [])) ∨
        (task.pc = .enqueue ∧ id ∉ s.queued.map Prod.fst ∧
          s'.queued = s.queued ++ [(id, task.connectionId)] ∧
          s'.queue = s.queue.addMessage
            (.new id task.connectionId [task.recipientKey] task.encryptedMessage now) ∧
          pc.entering = false)) := by
  cases hpc : task.pc with
  | count =>
    simp only [stepForward, hpc] at hstep
    split_ifs at hstep with hfull
    · cases hstep
      exact ⟨.relieve, rfl, .inl ⟨rfl, rfl, rfl, fun h => by cases h⟩⟩
    · cases hstep
      exact ⟨.enqueue, rfl, .inl ⟨rfl, rfl, rfl, fun _ => ⟨rfl, Nat.lt_of_not_le hfull⟩⟩⟩
  | relieve =>
    simp only [stepForward, hpc] at hstep
    split_ifs at hstep with hnone
    · cases hstep
      exact ⟨.failed, rfl, .inr (.inl ⟨rfl, rfl, rfl, fun h => by cases h⟩)⟩
    · cases hstep
      refine ⟨.enqueue, rfl, .inr (.inl ⟨rfl, rfl, rfl, fun _ hempty => hnone ?_⟩)⟩
      unfold deleteExpiredForConnection
      split
      · rfl
      · exact length_eq_zero_iff.2 hempty
  | enqueue =>
    simp only [stepForward, hpc] at hstep
    split_ifs at hstep with hfresh
    cases hstep
    exact ⟨.hasSession id, rfl, .inr (.inr ⟨rfl, hfresh, rfl, rfl, rfl⟩)⟩
  | hasSession k =>
    simp only [stepForward, hpc] at hstep
    split_ifs at hstep
    · cases hstep
      exact ⟨.tryDeliver k, rfl, .inl ⟨rfl, rfl, rfl, fun h => by cases h⟩⟩
    · cases hstep
      exact ⟨.accepted k, rfl, .inl ⟨rfl, rfl, rfl, fun h => by cases h⟩⟩
  | tryDeliver k =>
    simp only [stepForward, hpc] at hstep
    split at hstep
    all_goals
      cases hstep
      exact ⟨.accepted k, rfl, .inl ⟨rfl, rfl, rfl, fun h => by cases h⟩⟩
  | accepted k | failed => simp [stepForward, hpc] at hstep

theorem lookup_fresh
    (hstored : ∀ id m, s.queue.messages.lookup id = some m → id ∈ s.queued.map Prod.fst)
    (hfresh : id ∉ s.queued.map Prod.fst) : s.queue.messages.lookup id = none := by
  cases hm : s.queue.messages.lookup id with
  | none => rfl
  | some m => exact absurd (hstored id m hm) hfresh

theorem stored_addMessage
    (hstored : ∀ id m, s.queue.messages.lookup id = some m → id ∈ s.queued.map Prod.fst)
    {c key message : String} {now : Timestamp} (k : String) (m : QueuedMessage)
    (hm : (s.queue.addMessage (.new id c [key] message now)).messages.lookup k = some m) :
    k ∈ (s.queued ++ [(id, c)]).map Prod.fst := by
  rw [lookup_addMessage] at hm
  rw [map_append, mem_append]
  split at hm
  · next hk => exact .inr (mem_singleton.2 hk)
  · exact .inl (hstored k m hm)

theorem stepFlush_queue {u : ℕ} {task : FlushTask} {frameId : String} {accepts : Bool}
    (hvalid : s.queue.Valid) (hstep : s.stepFlush u task frameId accepts = some s') :
    s.queue.Shrinks s'.queue ∧ s'.forwards = s.forwards ∧ s'.queued = s.queued := by
  have hsame := Shrinks.refl hvalid
  cases hpc : task.pc with
  | take =>
    have htake := hvalid.shrinks_takeFromQueue task.connectionId none reconnectReplayBatch
    simp only [stepFlush, hpc] at hstep
    split_ifs at hstep
    all_goals
      cases hstep
      exact ⟨htake, rfl, rfl⟩
  | lookup batch =>
    simp only [stepFlush, hpc] at hstep
    split at hstep
    all_goals
      cases hstep
      exact ⟨hsame, rfl, rfl⟩
  | send σ batch =>
    simp only [stepFlush, hpc] at hstep
    split_ifs at hstep
    all_goals
      cases hstep
      exact ⟨hsame, rfl, rfl⟩
  | completed | stopped => simp [stepFlush, hpc] at hstep

end Relay

open Relay

namespace Metered

variable {strategy : ForwardingStrategy} {s s' : Metered} {task : ForwardTask} {t : ℕ}

theorem note_enqueue (ht : s.relay.forwards t = some task) (hpc : task.pc = .enqueue)
    (relay : Relay) (now : Timestamp) (id : String) (accepts : Bool) :
    s.note relay (.runForward t now id accepts) = { s with
      relay := relay
      counts := s.counts ++ [(id, relay.queue.getPendingCount task.connectionId none)] } := by
  obtain ⟨c, key, message, pc⟩ := task
  obtain rfl : pc = .enqueue := hpc
  simp only [note, ht]

theorem note_other (ht : s.relay.forwards t = some task) (hpc : task.pc.entering = false)
    (relay : Relay) (now : Timestamp) (id : String) (accepts : Bool) :
    s.note relay (.runForward t now id accepts) = { s with relay := relay } := by
  obtain ⟨c, key, message, pc⟩ := task
  cases pc with
  | enqueue => cases hpc
  | count | relieve | hasSession | tryDeliver | accepted | failed => simp only [note, ht]

variable {now : Timestamp} {id : String} {accepts : Bool}

theorem Room.of_count (hroom : s.Room (.relay (.runForward t now id accepts)))
    (ht : s.relay.forwards t = some task) (hpc : task.pc = .count)
    (hcount : s.relay.queue.getPendingCount task.connectionId none < maxQueuePerConnection) :
    s.relay.queue.getPendingCount task.connectionId none + s.entering task.connectionId <
      maxQueuePerConnection := by
  obtain ⟨c, key, message, pc⟩ := task
  obtain rfl : pc = .count := hpc
  simp only [Room, ht] at hroom
  exact hroom hcount

theorem Room.of_relieve (hroom : s.Room (.relay (.runForward t now id accepts)))
    (ht : s.relay.forwards t = some task) (hpc : task.pc = .relieve)
    (hold : s.relay.queue.expiredIdsFor task.connectionId (now - forwardStaleReliefTtl) ≠ []) :
    (s.relay.queue.unexpired task.connectionId (now - forwardStaleReliefTtl)).length +
      s.entering task.connectionId < maxQueuePerConnection := by
  obtain ⟨c, key, message, pc⟩ := task
  obtain rfl : pc = .relieve := hpc
  simp only [Room, ht] at hroom
  exact hroom hold

theorem Counted.started_update (h : s.Counted) (ht : s.relay.forwards t = some task)
    (pc : ForwardPc) (u : ℕ) :
    u ∈ s.started ↔ (update s.relay.forwards t (some { task with pc := pc }) u).isSome = true := by
  rw [h.started u]
  by_cases hu : u = t
  · simp [hu, ht]
  · simp [hu]

section

variable {t : ℕ} {task : ForwardTask}

theorem Counted.entering_update (h : s.Counted) (ht : s.relay.forwards t = some task)
    (pc : ForwardPc) (c : String) :
    s.started.countP (isEntering (update s.relay.forwards t (some { task with pc := pc })) c) +
      (task.pc.entering && task.connectionId == c).toNat =
      s.entering c + (pc.entering && task.connectionId == c).toNat := by
  have hmem : t ∈ s.started := by
    rw [h.started t, ht]
    rfl
  have hmove := countP_update (p := isEntering s.relay.forwards c)
    (q := isEntering (update s.relay.forwards t (some { task with pc := pc })) c)
    h.nodup hmem fun u hu => by rw [isEntering, update_of_ne hu, isEntering]
  simpa [isEntering, ht, entering] using hmove

theorem Counted.entering_update_le_succ (h : s.Counted) (ht : s.relay.forwards t = some task)
    (pc : ForwardPc) (c : String) :
    s.started.countP (isEntering
      (update s.relay.forwards t (some { task with pc := pc })) c) ≤ s.entering c + 1 := by
  have hmove := h.entering_update ht pc c
  have hone := Bool.toNat_le (pc.entering && task.connectionId == c)
  omega

theorem Counted.entering_update_le (h : s.Counted) (ht : s.relay.forwards t = some task)
    {pc : ForwardPc} {c : String} (hpc : pc.entering = true → task.connectionId ≠ c) :
    s.started.countP (isEntering
      (update s.relay.forwards t (some { task with pc := pc })) c) ≤ s.entering c := by
  have hmove := h.entering_update ht pc c
  have hzero : (pc.entering && task.connectionId == c) = false := by
    cases hgo : pc.entering with
    | false => rfl
    | true => exact beq_false_of_ne (hpc hgo)
  rw [hzero] at hmove
  simp only [Bool.toNat_false] at hmove
  omega

theorem Counted.entering_update_of_enqueue (h : s.Counted)
    (ht : s.relay.forwards t = some task) (htask : task.pc = .enqueue) {pc : ForwardPc}
    (hpc : pc.entering = false) :
    s.started.countP (isEntering
      (update s.relay.forwards t (some { task with pc := pc })) task.connectionId) + 1 =
        s.entering task.connectionId := by
  have hmove := h.entering_update ht pc task.connectionId
  have htask' : task.pc.entering = true := by
    rw [htask]
    rfl
  simpa [htask', hpc] using hmove

theorem Counted.stepForward_within (h : s.Counted) {now : Timestamp} {id : String}
    {accepts : Bool} {relay : Relay} (ht : s.relay.forwards t = some task)
    (hroom : s.Room (.relay (.runForward t now id accepts)))
    (hstep : s.relay.stepForward strategy t task now id accepts = some relay) (c : String) :
    relay.queue.getPendingCount c none + s.started.countP (isEntering relay.forwards c) ≤
      maxQueuePerConnection := by
  obtain ⟨pc, hforwards, hcase⟩ := stepForward_queue hstep
  have hold := h.within c
  have hnext := h.entering_update_le_succ ht pc c
  rw [hforwards]
  rcases hcase with ⟨hqueue, -, -, hgo⟩ | ⟨hpc, -, hqueue, hgo⟩ | ⟨hpc, hfresh, -, hqueue, hdone⟩
  · -- the queue is as it was, and a forward that goes on has counted
    rw [hqueue]
    by_cases hc : pc.entering = true ∧ task.connectionId = c
    · obtain ⟨hcount, hlt⟩ := hgo hc.1
      have hspace := hroom.of_count ht hcount hlt
      rw [hc.2] at hspace
      omega
    · have hle := h.entering_update_le ht fun hpc hconnection => hc ⟨hpc, hconnection⟩
      omega
  · -- relief: a forward that goes on has room next to what is left
    by_cases hc : pc.entering = true ∧ task.connectionId = c
    · have hspace := hroom.of_relieve ht hpc (hgo hc.1)
      have hkept := h.valid.getPendingCount_deleteExpiredForConnection_le task.connectionId
        (now - forwardStaleReliefTtl)
      rw [← hqueue, hc.2] at hkept
      rw [hc.2] at hspace
      omega
    · have hle := h.entering_update_le ht fun hpc hconnection => hc ⟨hpc, hconnection⟩
      have hfewer := (h.valid.shrinks_deleteExpiredForConnection task.connectionId
        (now - forwardStaleReliefTtl)).getPendingCount_le h.valid c
      rw [← hqueue] at hfewer
      omega
  · -- the message takes the place that its forward has held
    have hadd : relay.queue.getPendingCount c none =
        s.relay.queue.getPendingCount c none + if c = task.connectionId then 1 else 0 := by
      rw [hqueue]
      exact h.valid.getPendingCount_addMessage (lookup_fresh h.stored hfresh) rfl c
    by_cases hc : c = task.connectionId
    · have hmove := h.entering_update_of_enqueue ht hpc hdone
      rw [hc] at hold hadd ⊢
      rw [if_pos rfl] at hadd
      omega
    · have hstays : pc.entering = true → task.connectionId ≠ c := by
        intro hgo
        rw [hdone] at hgo
        cases hgo
      have hle := h.entering_update_le ht hstays
      rw [if_neg hc] at hadd
      omega

end

theorem Counted.stepForward (h : s.Counted) {relay : Relay} (ht : s.relay.forwards t = some task)
    (hroom : s.Room (.relay (.runForward t now id accepts)))
    (hstep : s.relay.stepForward strategy t task now id accepts = some relay) :
    Counted (s.note relay (.runForward t now id accepts)) := by
  have hwithin := h.stepForward_within ht hroom hstep
  obtain ⟨pc, hforwards, hcase⟩ := stepForward_queue hstep
  have hstarted : ∀ u, u ∈ s.started ↔ (relay.forwards u).isSome = true := by
    rw [hforwards]
    exact h.started_update ht pc
  rcases hcase with ⟨hqueue, hqueued, hnot, -⟩ | ⟨hpc, hqueued, hqueue, -⟩ |
    ⟨hpc, hfresh, hqueued, hqueue, -⟩
  · rw [note_other ht hnot]
    refine ⟨hqueue ▸ h.valid, fun k m hm => ?_, hstarted, h.nodup, hwithin, h.counts⟩
    rw [hqueued]
    exact h.stored k m (hqueue ▸ hm)
  · have hshrinks := h.valid.shrinks_deleteExpiredForConnection task.connectionId
      (now - forwardStaleReliefTtl)
    rw [← hqueue] at hshrinks
    rw [note_other ht (by rw [hpc]; rfl)]
    refine ⟨hshrinks.valid, fun k m hm => ?_, hstarted, h.nodup, hwithin, h.counts⟩
    obtain ⟨m', hm', -⟩ := hshrinks.stored k m hm
    rw [hqueued]
    exact h.stored k m' hm'
  · rw [note_enqueue ht hpc]
    refine ⟨?_, fun k m hm => ?_, hstarted, h.nodup, hwithin, fun p hp => ?_⟩
    · show relay.queue.Valid
      rw [hqueue]
      exact h.valid.addMessage (lookup_fresh h.stored hfresh)
    · show k ∈ relay.queued.map Prod.fst
      rw [hqueue] at hm
      rw [hqueued]
      exact stored_addMessage h.stored k m hm
    · rcases mem_append.1 hp with hp | hp
      · exact h.counts p hp
      · rw [mem_singleton.1 hp]
        exact le_trans (Nat.le_add_right _ _) (hwithin task.connectionId)

/-! ## Runs -/

theorem Counted.stepRelay (h : s.Counted) {a : RelayStep} {relay : Relay}
    (hroom : s.Room (.relay a)) (hstep : s.relay.step strategy a = some relay) :
    Counted (s.note relay a) := by
  cases a with
  | forward t recipientKey encryptedMessage connection =>
    simp only [Relay.step] at hstep
    split at hstep
    · cases hstep
    · next hfree =>
      split at hstep
      · cases hstep
        exact h.arrive hfree rfl
      · split_ifs at hstep
        · cases hstep
          exact h.arrive hfree rfl
        · cases hstep
          exact h.arrive hfree rfl
  | runForward t now id accepts =>
    simp only [Relay.step] at hstep
    split at hstep
    · cases hstep
    · next task ht => exact h.stepForward ht hroom hstep
  | reconnect c u =>
    simp only [Relay.step] at hstep
    split at hstep
    · cases hstep
    · cases hstep
      exact h.shrink (.refl h.valid) rfl rfl
  | runFlush u frameId accepts =>
    simp only [Relay.step] at hstep
    split at hstep
    · cases hstep
    · next task hu =>
      obtain ⟨hqueue, hforwards, hqueued⟩ := Relay.stepFlush_queue h.valid hstep
      exact h.shrink hqueue hforwards hqueued
  | deliveryRequest c key limit =>
    cases hstep
    exact h.shrink (h.valid.shrinks_takeFromQueue c key limit) rfl rfl
  | messagesReceived ids =>
    simp only [Relay.step] at hstep
    split_ifs at hstep
    cases hstep
    exact h.shrink (h.valid.shrinks_removeMessages ids) rfl rfl
  | socketDrop c =>
    cases hstep
    exact h.shrink (.refl h.valid) rfl rfl
  | deleteExpired order cutoff =>
    cases hstep
    exact h.shrink (h.valid.shrinks_deleteExpired order cutoff) rfl rfl

theorem Counted.step (h : s.Counted) {a : MeteredStep} (hroom : s.Room a)
    (hstep : s.step strategy a = some s') : s'.Counted := by
  cases a with
  | relay a =>
    obtain ⟨relay, hrelay, rfl⟩ := map_eq_some_iff.1 hstep
    exact h.stepRelay hroom hrelay
  | removeMessages ids =>
    cases hstep
    exact h.shrink (h.valid.shrinks_removeMessages ids) rfl rfl
  | clearConnection c =>
    cases hstep
    exact h.shrink (h.valid.shrinks_clearConnection c) rfl rfl

/-- **The cap holds** in every run in which each forward that goes on to queue its message finds
room for it, next to the forwards that have gone on before it. -/
theorem capped_of_along {steps : List MeteredStep} (hroom : Along (step strategy) Room start steps)
    (hexec : exec (step strategy) start steps = some s) : s.Capped :=
  (exec_invariant_along (fun _ _ _ h hroom hstep => Counted.step h hroom hstep) counted_start
    hroom hexec).capped

/-- Two forwards count before either queues its message, and there is room for both. -/
theorem capped_of_along_overlapping : ∃ s,
    exec (step .queueAndLiveDelivery) start overlapping = some s ∧
      (messageId 1, 2) ∈ s.counts ∧ s.Capped := by
  have hroom : Along (step .queueAndLiveDelivery) Room start overlapping := by
    refine along_cons trivial rfl (along_cons trivial rfl ?_)
    refine along_cons (fun _ => (by decide)) rfl (along_cons (fun _ => (by decide)) rfl ?_)
    refine along_cons trivial rfl (along_cons trivial rfl ?_)
    exact along_cons trivial rfl (along_cons trivial rfl trivial)
  obtain ⟨s, hs, hcount⟩ : ∃ s,
      exec (step .queueAndLiveDelivery) start overlapping = some s ∧
        (messageId 1, 2) ∈ s.counts := ⟨_, rfl, by decide⟩
  exact ⟨s, hs, hcount, capped_of_along hroom hs⟩

/-! ## A queue that is filled -/

open Sample (forwardAt messageId)

/-- The connection has this many pending messages and no session, and the ids of the messages that
follow are fresh. -/
structure Holds (n : ℕ) (s : Metered) : Prop where
  valid : s.relay.queue.Valid
  stored : ∀ id m, s.relay.queue.messages.lookup id = some m → id ∈ s.relay.queued.map Prod.fst
  pending : s.relay.queue.getPendingCount "alice" none = n
  session : s.relay.sessions "alice" = none
  fresh : ∀ t, n ≤ t → messageId t ∉ s.relay.queued.map Prod.fst

theorem holds_start : Holds 0 start where
  valid := valid_new
  stored _ _ h := by simp [start, Relay.start, new] at h
  pending := rfl
  session := rfl
  fresh _ _ h := by cases h

section

variable (strategy) {n t : ℕ}

theorem Holds.arrive (h : s.Holds n) (hfree : s.relay.forwards t = none) :
    ∃ u, s.step strategy (Sample.arrive t) = some u ∧ u.Holds n ∧
      u.relay.forwards = update s.relay.forwards t (some (forwardAt .count)) := by
  have hsize : ¬ maxForwardedMessageSizeBytes < "sealed".utf8ByteSize := by decide
  have hstep : s.step strategy (Sample.arrive t) = some { s with
      relay := { s.relay with
        forwards := update s.relay.forwards t (some (forwardAt .count)) }
      started := s.started ++ [t] } := by
    simp only [Sample.arrive, step, Relay.step, hfree, if_neg hsize, map_some]
    rfl
  exact ⟨_, hstep, ⟨h.valid, h.stored, h.pending, h.session, h.fresh⟩, rfl⟩

theorem Holds.count (h : s.Holds n) (hn : n < maxQueuePerConnection)
    (ht : s.relay.forwards t = some (forwardAt .count)) :
    ∃ u, s.step strategy (goOn t) = some u ∧ u.Holds n ∧
      u.relay.forwards = update s.relay.forwards t (some (forwardAt .enqueue)) := by
  have hcount : ¬ maxQueuePerConnection ≤ s.relay.queue.getPendingCount "alice" none := by
    rw [h.pending]
    exact Nat.not_le.2 hn
  have hstep : s.step strategy (goOn t) = some { s with
      relay := { s.relay with
        forwards := update s.relay.forwards t (some (forwardAt .enqueue)) } } := by
    simp only [goOn, step, Relay.step, ht, forwardAt, Relay.stepForward, if_neg hcount,
      map_some, note]
  exact ⟨_, hstep, ⟨h.valid, h.stored, h.pending, h.session, h.fresh⟩, rfl⟩

theorem Holds.enqueue (h : s.Holds n) (ht : s.relay.forwards n = some (forwardAt .enqueue)) :
    ∃ u, s.step strategy (goOn n) = some u ∧ u.Holds (n + 1) ∧
      u.relay.forwards = update s.relay.forwards n (some (forwardAt (.hasSession (messageId n)))) ∧
      (messageId n, n + 1) ∈ u.counts := by
  have hfresh := h.fresh n le_rfl
  have hnew := Relay.lookup_fresh h.stored hfresh
  have hpending : (s.relay.queue.addMessage
      (.new (messageId n) "alice" ["key"] "sealed" 0)).getPendingCount "alice" none = n + 1 := by
    rw [h.valid.getPendingCount_addMessage hnew rfl, h.pending]
    rfl
  have hstep : s.step strategy (goOn n) = some { s with
      relay := { s.relay with
        queue := s.relay.queue.addMessage (.new (messageId n) "alice" ["key"] "sealed" 0)
        queued := s.relay.queued ++ [(messageId n, "alice")]
        forwards := update s.relay.forwards n (some (forwardAt (.hasSession (messageId n)))) }
      counts := s.counts ++ [(messageId n, n + 1)] } := by
    simp only [goOn, step, Relay.step, ht, forwardAt, Relay.stepForward, if_neg hfresh,
      map_some, note, hpending]
  refine ⟨_, hstep, ⟨h.valid.addMessage hnew, Relay.stored_addMessage h.stored, hpending,
    h.session, fun t ht hmem => ?_⟩, rfl, mem_append_right _ (mem_singleton_self _)⟩
  rw [map_append, mem_append] at hmem
  rcases hmem with hold | hlast
  · exact h.fresh t (by omega) hold
  · have heq := messageId_injective (mem_singleton.1 hlast)
    omega

theorem Holds.accept (h : s.Holds n) {id : String}
    (ht : s.relay.forwards t = some (forwardAt (.hasSession id))) :
    ∃ u, s.step strategy (goOn t) = some u ∧ u.Holds n ∧
      u.relay.forwards = update s.relay.forwards t (some (forwardAt (.accepted id))) ∧
      u.counts = s.counts ∧ (id, "alice") ∈ u.relay.accepted := by
  have hlive : ¬ (strategy = .queueAndLiveDelivery ∧ (s.relay.sessions "alice").isSome = true) := by
    rw [h.session]
    simp
  have hstep : s.step strategy (goOn t) = some { s with
      relay := { s.relay with
        accepted := s.relay.accepted ++ [(id, "alice")]
        forwards := update s.relay.forwards t (some (forwardAt (.accepted id))) } } := by
    simp only [goOn, step, Relay.step, ht, forwardAt, Relay.stepForward, if_neg hlive,
      map_some, note]
  exact ⟨_, hstep, ⟨h.valid, h.stored, h.pending, h.session, h.fresh⟩, rfl, rfl,
    mem_append_right _ (mem_singleton_self _)⟩

end

theorem exec_filled (strategy : ForwardingStrategy) (n : ℕ) (hn : n ≤ maxQueuePerConnection) :
    ∃ s, exec (step strategy) start (filled n) = some s ∧ s.Holds n ∧
      ∀ t, n ≤ t → s.relay.forwards t = none := by
  induction n with
  | zero => exact ⟨start, rfl, holds_start, fun _ _ => rfl⟩
  | succ n ih =>
    obtain ⟨s, hs, hholds, hfree⟩ := ih (Nat.le_of_succ_le hn)
    obtain ⟨s₁, hs₁, hholds₁, hforwards₁⟩ := hholds.arrive strategy (hfree n le_rfl)
    obtain ⟨s₂, hs₂, hholds₂, hforwards₂⟩ := hholds₁.count strategy hn
      (t := n) (by rw [hforwards₁, update_self])
    obtain ⟨s₃, hs₃, hholds₃, hforwards₃, -⟩ := hholds₂.enqueue strategy
      (by rw [hforwards₂, update_self])
    obtain ⟨s₄, hs₄, hholds₄, hforwards₄, -⟩ := hholds₃.accept strategy (t := n)
      (by rw [hforwards₃, update_self])
    refine ⟨s₄, exec_append_eq_some.2 ⟨s, hs, ?_⟩, hholds₄, fun t ht => ?_⟩
    · simp only [exec, hs₁, hs₂, hs₃, hs₄]
    · have hne : t ≠ n := by omega
      rw [hforwards₄, update_of_ne hne, hforwards₃, update_of_ne hne, hforwards₂,
        update_of_ne hne, hforwards₁, update_of_ne hne]
      exact hfree t (by omega)

/-- Two forwards count one after the other, and then both queue their messages: the second one is
accepted, and its connection has one message more than the cap. -/
theorem capped_fails : ∃ s, exec (step .queueAndLiveDelivery) start overfull = some s ∧
    ¬ s.Capped := by
  obtain ⟨s, hs, hholds, hfree⟩ := exec_filled .queueAndLiveDelivery 999 (by decide)
  have hne : (1000 : ℕ) ≠ 999 := by decide
  -- both arrive, and both count one message less than the cap
  obtain ⟨s₁, hs₁, hholds₁, hforwards₁⟩ := hholds.arrive .queueAndLiveDelivery (hfree 999 le_rfl)
  obtain ⟨s₂, hs₂, hholds₂, hforwards₂⟩ := hholds₁.arrive .queueAndLiveDelivery
    (t := 1000) (by rw [hforwards₁]; exact hfree 1000 (by decide))
  obtain ⟨s₃, hs₃, hholds₃, hforwards₃⟩ := hholds₂.count .queueAndLiveDelivery
    (t := 999) (by decide)
    (by rw [hforwards₂, update_of_ne hne.symm, hforwards₁, update_self])
  obtain ⟨s₄, hs₄, hholds₄, hforwards₄⟩ := hholds₃.count .queueAndLiveDelivery
    (t := 1000) (by decide)
    (by rw [hforwards₃, update_of_ne hne, hforwards₂, update_self])
  -- then both queue their messages
  obtain ⟨s₅, hs₅, hholds₅, hforwards₅, -⟩ := hholds₄.enqueue .queueAndLiveDelivery
    (by rw [hforwards₄, update_of_ne hne.symm, hforwards₃, update_self])
  obtain ⟨s₆, hs₆, hholds₆, hforwards₆, hcount⟩ := hholds₅.enqueue .queueAndLiveDelivery
    (by rw [hforwards₅, update_of_ne hne, hforwards₄, update_self])
  obtain ⟨s₇, hs₇, -, -, hcounts, haccepted⟩ := hholds₆.accept
    .queueAndLiveDelivery (t := 1000) (by rw [hforwards₆, update_self])
  refine ⟨s₇, exec_append_eq_some.2 ⟨s, hs, ?_⟩, fun hcapped => ?_⟩
  · simp only [exec, hs₁, hs₂, hs₃, hs₄, hs₅, hs₆, hs₇]
  · exact absurd (hcapped _ _ _ haccepted (hcounts ▸ hcount)) (by decide)

end Metered
end Idiom.Mediation
