import Idiom.Lib.Run
import Idiom.Pickup.StorageBacked

/-!
# The storage-backed queue against the in-memory one, call by call

Both repositories get the same calls. A restart of the first is matched by returning every
message in `Sending` to `Pending` in the second.
-/

namespace Idiom.Pickup

open StorageBacked QueuedMessage List QueueReply Finmap

variable {t t' : QueueTables} {order order' : IterOrder String}

namespace QueueTables

/-! ## Indexes after a call -/

theorem pendingFor_eq (t : QueueTables) (c : String) (key : Option String) :
    t.pendingFor c key = ((t.idsOf c).filterMap t.messages.lookup).filter fun m =>
      m.state = .pending && m.matchesRecipientKey key := by
  unfold pendingFor idsOf
  cases t.byConnection c <;> rfl

theorem Valid.idsOf_removeMessage (ht : t.Valid) (id c : String) :
    (t.removeMessage id).idsOf c = (t.idsOf c).filter (· ≠ id) := by
  have hsame : id ∉ t.idsOf c → t.idsOf c = (t.idsOf c).filter (· ≠ id) := by
    intro hnot
    refine (filter_eq_self.2 fun k hk => ?_).symm
    exact decide_eq_true fun heq => hnot (heq ▸ hk)
  unfold QueueTables.removeMessage
  cases h : t.messages.lookup id with
  | none =>
    refine hsame fun hmem => ?_
    obtain ⟨m, hm, -⟩ := (ht.indexed c id).1 hmem
    rw [h] at hm
    cases hm
  | some m =>
    simp only [idsOf_dropId]
    split
    · rfl
    · next hc =>
      exact hsame fun hmem =>
        hc (ht.connection_unique hmem ((ht.indexed m.connectionId id).2 ⟨m, h, rfl⟩))

theorem Valid.idsOf_removeMessages (ht : t.Valid) (ids : List String) (c : String) :
    (t.removeMessages ids).idsOf c = (t.idsOf c).filter (· ∉ ids) := by
  unfold QueueTables.removeMessages
  induction ids generalizing t with
  | nil => simp
  | cons id ids ih =>
    rw [foldl_cons, ih (ht.removeMessage id), ht.idsOf_removeMessage]
    simp [Bool.and_comm]

theorem idsOf_clearConnection (t : QueueTables) (c c' : String) :
    (t.clearConnection c).2.idsOf c' = if c' = c then [] else t.idsOf c' := by
  unfold clearConnection
  cases h : t.byConnection c with
  | none =>
    by_cases hc : c' = c
    · simp [idsOf, hc, h]
    · rw [if_neg hc]
  | some ids => exact idsOf_update t _ c c' none

theorem idsOf_deleteExpiredForConnection (t : QueueTables) (c c' : String) (cutoff : Timestamp) :
    (t.deleteExpiredForConnection c cutoff).2.idsOf c' =
      if c' = c then (t.idsOf c').filter (· ∉ t.expiredIdsFor c cutoff) else t.idsOf c' := by
  unfold deleteExpiredForConnection
  cases h : t.byConnection c with
  | none =>
    by_cases hc : c' = c
    · simp [idsOf, hc, h]
    · rw [if_neg hc]
  | some ids =>
    refine (idsOf_update t _ c c' _).trans ?_
    by_cases hc : c' = c
    · simp [idsOf, hc, h]
    · rw [if_neg hc, if_neg hc]

theorem lookup_clearConnection (t : QueueTables) (c id : String) :
    (t.clearConnection c).2.messages.lookup id =
      if id ∈ t.idsOf c then none else t.messages.lookup id := by
  unfold clearConnection idsOf
  cases t.byConnection c with
  | none => simp
  | some ids => exact lookup_foldl_erase t.messages ids id

theorem lookup_deleteExpiredForConnection (t : QueueTables) (c id : String) (cutoff : Timestamp) :
    (t.deleteExpiredForConnection c cutoff).2.messages.lookup id =
      if id ∈ t.expiredIdsFor c cutoff then none else t.messages.lookup id := by
  unfold deleteExpiredForConnection
  cases h : t.byConnection c with
  | none => simp [expiredIdsFor, h]
  | some ids => exact lookup_foldl_erase t.messages _ id

theorem clearConnection_count (t : QueueTables) (c : String) :
    (t.clearConnection c).1 = (t.idsOf c).length := by
  unfold clearConnection idsOf
  cases t.byConnection c <;> rfl

theorem deleteExpiredForConnection_count (t : QueueTables) (c : String) (cutoff : Timestamp) :
    (t.deleteExpiredForConnection c cutoff).1 = (t.expiredIdsFor c cutoff).length := by
  unfold deleteExpiredForConnection
  cases h : t.byConnection c with
  | none => simp [expiredIdsFor, h]
  | some ids => rfl

end QueueTables

open QueueTables

/-! ## Tables with the same messages -/

structure Alike (t t' : QueueTables) : Prop where
  left : t.Valid
  right : t'.Valid
  messages : t.messages = t'.messages

/-- No two messages pending for the connection were received at the same time. -/
def QueueTables.Untied (t : QueueTables) (c : String) (key : Option String) : Prop :=
  ∀ m ∈ t.pendingFor c key, ∀ m' ∈ t.pendingFor c key, m.receivedAt = m'.receivedAt → m = m'

/-- The indexes list the ids in the same order. -/
def SameOrder (t t' : QueueTables) : Prop := ∀ c, t.idsOf c = t'.idsOf c

theorem Alike.idsOf (h : Alike t t') (c : String) : (t.idsOf c).Perm (t'.idsOf c) := by
  refine (perm_ext_iff_of_nodup (h.left.nodup c) (h.right.nodup c)).2 fun id => ?_
  rw [h.left.indexed, h.right.indexed, h.messages]

theorem Alike.pendingFor (h : Alike t t') (c : String) (key : Option String) :
    (t.pendingFor c key).Perm (t'.pendingFor c key) := by
  rw [pendingFor_eq, pendingFor_eq, h.messages]
  exact ((h.idsOf c).filterMap _).filter _

theorem Alike.expiredIdsFor (h : Alike t t') (c : String) (cutoff : Timestamp) :
    (t.expiredIdsFor c cutoff).Perm (t'.expiredIdsFor c cutoff) := by
  unfold QueueTables.expiredIdsFor
  rw [h.messages]
  exact (((h.idsOf c).filterMap _).filter _).map _

theorem Alike.expired (h : Alike t t') (order order' : IterOrder String) (cutoff : Timestamp) :
    (t.expired order cutoff).Perm (t'.expired order' cutoff) := by
  unfold QueueTables.expired
  rw [h.messages]
  exact ((order.list_perm order' _).filterMap _).filter _

/-- A delivery takes the same messages if their order is determined. -/
theorem Alike.taken (h : Alike t t') {c : String} {key : Option String}
    (horder : SameOrder t t' ∨ t.Untied c key) (limit : ℕ) :
    t.taken c key limit = t'.taken c key limit := by
  unfold QueueTables.taken
  rcases horder with hsame | huntied
  · rw [pendingFor_eq, pendingFor_eq, h.messages, hsame c]
  · have hperm := h.pendingFor c key
    congr 1
    refine Perm.eq_of_pairwise (fun m m' hm hm' hle hge => ?_)
      (pairwise_insertionSort _ _) (pairwise_insertionSort _ _)
      (((perm_insertionSort _ _).trans hperm).trans (perm_insertionSort _ _).symm)
    exact huntied m ((mem_insertionSort _).1 hm) m'
      (hperm.mem_iff.2 ((mem_insertionSort _).1 hm')) (le_antisymm hle hge)

theorem min?_perm {l l' : List Timestamp} (h : l.Perm l') : l.min? = l'.min? := by
  cases hmin : l.min? with
  | none =>
    rw [min?_eq_none_iff] at hmin
    rw [hmin] at h
    exact (min?_eq_none_iff.2 h.nil_eq.symm).symm
  | some a =>
    obtain ⟨hmem, hle⟩ := min?_eq_some_iff.1 hmin
    exact (min?_eq_some_iff.2 ⟨h.mem_iff.1 hmem, fun b hb => hle b (h.mem_iff.2 hb)⟩).symm

/-- The choice a delivery makes is determined. -/
def Determined (t t' : QueueTables) : QueueCall → Prop
  | .takeFromQueue c key _ => SameOrder t t' ∨ t.Untied c key
  | _ => True

/-- **Tables with the same messages answer alike** and stay so, whatever the order of their
index and of their iterations. -/
theorem Alike.call (h : Alike t t') (order order' : IterOrder String) {c : QueueCall}
    (hfresh : t.Fresh c) (hc : Determined t t' c) :
    Alike (t.call order c).1 (t'.call order' c).1 ∧ (t.call order c).2 = (t'.call order' c).2 := by
  have hfresh' : t'.Fresh c := by
    cases c with
    | addMessage message => exact (h.messages ▸ hfresh : t'.messages.lookup message.id = none)
    | _ => trivial
  suffices hmessages : (t.call order c).1.messages = (t'.call order' c).1.messages ∧
      (t.call order c).2 = (t'.call order' c).2 from
    ⟨⟨h.left.call hfresh, h.right.call hfresh', hmessages.1⟩, hmessages.2⟩
  cases c with
  | addMessage message =>
    refine ⟨?_, rfl⟩
    show t.messages.insert message.id message = t'.messages.insert message.id message
    rw [h.messages]
  | getPendingCount c key =>
    exact ⟨h.messages, congrArg count (h.pendingFor c key).length_eq⟩
  | getTotalBytes c key =>
    exact ⟨h.messages, congrArg count ((h.pendingFor c key).map _).sum_eq⟩
  | getOldestMessageTime c key =>
    exact ⟨h.messages, congrArg time (min?_perm ((h.pendingFor c key).map _))⟩
  | takeFromQueue c key limit =>
    have htaken := h.taken hc limit
    simp only [QueueTables.call, QueueTables.takeFromQueue, htaken, h.messages, and_self]
  | removeMessages ids =>
    refine ⟨ext_lookup fun id => ?_, rfl⟩
    simp only [QueueTables.call, QueueTables.lookup_removeMessages, h.messages]
  | returnToPending ids =>
    refine ⟨ext_lookup fun id => ?_, rfl⟩
    simp only [QueueTables.call, QueueTables.lookup_returnToPending, h.messages]
  | findById id =>
    refine ⟨h.messages, ?_⟩
    simp only [QueueTables.call, QueueTables.findById, h.messages]
  | clearConnection c =>
    refine ⟨ext_lookup fun id => ?_, ?_⟩
    · simp only [QueueTables.call, QueueTables.lookup_clearConnection, h.messages,
        (h.idsOf c).mem_iff]
    · simp only [QueueTables.call, QueueTables.clearConnection_count, (h.idsOf c).length_eq]
  | deleteExpired cutoff =>
    have hperm := h.expired order order' cutoff
    refine ⟨ext_lookup fun id => ?_, ?_⟩
    · simp only [QueueTables.call, h.left.deleteExpired_eq, h.right.deleteExpired_eq,
        QueueTables.lookup_removeMessages, h.messages, (hperm.map QueuedMessage.id).mem_iff]
    · exact congrArg count hperm.length_eq
  | deleteExpiredForConnection c cutoff =>
    have hperm := h.expiredIdsFor c cutoff
    refine ⟨ext_lookup fun id => ?_, ?_⟩
    · simp only [QueueTables.call, QueueTables.lookup_deleteExpiredForConnection, h.messages,
        hperm.mem_iff]
    · simp only [QueueTables.call, QueueTables.deleteExpiredForConnection_count, hperm.length_eq]

theorem Alike.sameOrder_call (h : Alike t t') (hsame : SameOrder t t')
    (order order' : IterOrder String) (c : QueueCall) :
    SameOrder (t.call order c).1 (t'.call order' c).1 := by
  intro k
  cases c with
  | addMessage message =>
    simp only [QueueTables.call, QueueTables.idsOf_addMessage, hsame k]
  | takeFromQueue c key limit => exact hsame k
  | removeMessages ids =>
    simp only [QueueTables.call, h.left.idsOf_removeMessages, h.right.idsOf_removeMessages, hsame k]
  | returnToPending ids => exact hsame k
  | clearConnection c => simp only [QueueTables.call, QueueTables.idsOf_clearConnection, hsame k]
  | deleteExpired cutoff =>
    have hperm := h.expired order order' cutoff
    simp only [QueueTables.call, h.left.deleteExpired_eq, h.right.deleteExpired_eq,
      h.left.idsOf_removeMessages, h.right.idsOf_removeMessages, hsame k,
      (hperm.map QueuedMessage.id).mem_iff]
  | deleteExpiredForConnection c cutoff =>
    have hperm := h.expiredIdsFor c cutoff
    simp only [QueueTables.call, QueueTables.idsOf_deleteExpiredForConnection, hsame k,
      hperm.mem_iff]
  | getPendingCount | getTotalBytes | getOldestMessageTime | findById => exact hsame k

/-! ## Both repositories -/

inductive QueueStep where
  /-- A call, with the iteration orders of the two repositories. -/
  | call (memoryOrder storedOrder : IterOrder String) (c : QueueCall)
  | restart (memoryOrder : IterOrder String)

/-- The two repositories, whether there was a restart, and the replies so far. -/
structure Both where
  memory : QueueTables
  stored : StorageBacked
  restarted : Bool
  memoryReplies : List QueueReply
  storedReplies : List QueueReply

namespace Both

def start : Both := ⟨.new, .new, false, [], []⟩

/-- One step; a new message has a fresh id. -/
def step (b : Both) : QueueStep → Option Both
  | .call memoryOrder storedOrder c =>
    if b.memory.Fresh c then
      some { b with
        memory := (b.memory.call memoryOrder c).1
        stored := (b.stored.call storedOrder c).1
        memoryReplies := b.memoryReplies ++ [(b.memory.call memoryOrder c).2]
        storedReplies := b.storedReplies ++ [(b.stored.call storedOrder c).2] }
    else none
  | .restart memoryOrder => some { b with
      memory := b.memory.returnToPending (orphanIds memoryOrder b.memory)
      stored := b.stored.restart
      restarted := true }

/-- After a restart a delivery does not choose among messages received at the same time. -/
def Determinate (b : Both) : QueueStep → Prop
  | .call _ _ (.takeFromQueue c key _) => b.restarted = false ∨ b.memory.Untied c key
  | _ => True

/-- The storage holds the messages of the in-memory queue, up to their states; the first access
gives tables with these messages, and without a restart their index has the same order. -/
structure Invariant (b : Both) : Prop where
  key : ∀ id m, b.stored.storage.lookup id = some m → m.id = id
  storage : ∀ id, (b.stored.storage.lookup id).map markPending =
    (b.memory.messages.lookup id).map markPending
  loads : ∀ order, ∃ t, (b.stored.loaded order).Synced t ∧ Alike b.memory t ∧
    (b.restarted = false → SameOrder b.memory t)
  replies : b.storedReplies = b.memoryReplies

variable {b b' : Both} {a : QueueStep}

theorem alike_of_keyed {s : StorageBacked} (hs : s.Keyed) (ht : t.Valid)
    (h : ∀ id, (s.storage.lookup id).map markPending = t.messages.lookup id)
    (order : IterOrder String) : ∃ t', (s.loaded order).Synced t' ∧ Alike t t' := by
  obtain ⟨t', hsynced, hload, hlookup⟩ := hs.load order
  refine ⟨t', ⟨?_, hsynced.valid, ?_⟩, ht, hsynced.valid, ext_lookup fun id => ?_⟩
  · simp only [loaded, hload]
  · simp only [loaded, hload]
  · rw [hlookup, h]

theorem invariant_start : Invariant start where
  key := keyed_new.2
  storage _ := rfl
  loads order := by
    obtain ⟨t, hsynced, halike⟩ := alike_of_keyed keyed_new valid_new (fun id => rfl) order
    refine ⟨t, hsynced, halike, fun _ c => ?_⟩
    exact (halike.idsOf c).nil_eq
  replies := rfl

theorem Invariant.call (h : Invariant b) {memoryOrder storedOrder : IterOrder String}
    {c : QueueCall} (hfresh : b.memory.Fresh c)
    (hd : b.Determinate (.call memoryOrder storedOrder c))
    (hstep : b.step (.call memoryOrder storedOrder c) = some b') : Invariant b' := by
  obtain ⟨t, hsynced, halike, hsame⟩ := h.loads storedOrder
  have hdetermined : Determined b.memory t c := by
    cases c with
    | takeFromQueue c key limit => exact hd.imp hsame id
    | _ => trivial
  have hfresh' : t.Fresh c := by
    cases c with
    | addMessage message => exact (halike.messages ▸ hfresh : t.messages.lookup message.id = none)
    | _ => trivial
  obtain ⟨halike', hreply⟩ := halike.call memoryOrder storedOrder hfresh hdetermined
  obtain ⟨hsynced', hreply'⟩ := hsynced.call storedOrder hfresh'
  rw [call_loaded] at hsynced' hreply'
  simp only [step, if_pos hfresh, Option.some.injEq] at hstep
  subst hstep
  refine ⟨fun id m hm => ?_, fun id => ?_, fun order => ⟨_, ?_, halike', fun hrestarted => ?_⟩, ?_⟩
  · exact hsynced'.valid.key id m (hsynced'.storage ▸ hm)
  · rw [hsynced'.storage, halike'.messages]
  · rw [hsynced'.loaded_eq]
    exact hsynced'
  · exact halike.sameOrder_call (hsame hrestarted) memoryOrder storedOrder c
  · simp only [h.replies, hreply, hreply']

theorem Invariant.restart (h : Invariant b) {memoryOrder : IterOrder String}
    (hstep : b.step (.restart memoryOrder) = some b') : Invariant b' := by
  cases hstep
  obtain ⟨t, -, halike, -⟩ := h.loads memoryOrder
  have hpending : ∀ id, (b.memory.returnToPending
      (orphanIds memoryOrder b.memory)).messages.lookup id =
        (b.memory.messages.lookup id).map markPending :=
    lookup_returnOrphans b.memory
  have hkeyed : b.stored.restart.Keyed := ⟨rfl, h.key⟩
  refine ⟨h.key, fun id => ?_, fun order => ?_, h.replies⟩
  · rw [hpending, Option.map_map]
    exact h.storage id
  · obtain ⟨t', hsynced, halike'⟩ := alike_of_keyed hkeyed
      (halike.left.returnToPending (orphanIds memoryOrder b.memory))
      (fun id => (h.storage id).trans (hpending id).symm) order
    exact ⟨t', hsynced, halike', fun hfalse => by cases hfalse⟩

theorem Invariant.step (h : Invariant b) (hd : b.Determinate a) (hstep : b.step a = some b') :
    Invariant b' := by
  cases a with
  | call memoryOrder storedOrder c =>
    by_cases hfresh : b.memory.Fresh c
    · exact h.call hfresh hd hstep
    · simp [Both.step, hfresh] at hstep
  | restart memoryOrder => exact h.restart hstep

/-- **Both repositories give the same replies**, in every run. -/
theorem replies_eq {steps : List QueueStep} (hd : Run.Along Both.step Determinate start steps)
    (hexec : Run.exec Both.step start steps = some b) : b.storedReplies = b.memoryReplies :=
  (Run.exec_invariant_along (fun _ _ _ h hd hstep => Invariant.step h hd hstep)
    invariant_start hd hexec).replies

end Both

end Idiom.Pickup
