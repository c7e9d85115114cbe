import Idiom.Pickup.Refinement

/-!
# How many messages of a connection are pending
-/

namespace Idiom.Pickup
namespace QueueTables

open List

variable {t t' : QueueTables} {c id : String}

theorem Valid.mem_pending (ht : t.Valid) {m : QueuedMessage} :
    m ∈ t.pendingFor c none ↔
      t.messages.lookup m.id = some m ∧ m.connectionId = c ∧ m.state = .pending := by
  rw [mem_pendingFor]
  constructor
  · rintro ⟨⟨id, hid, hm⟩, hstate, -⟩
    obtain ⟨m', hm', hc⟩ := (ht.indexed c id).1 hid
    obtain rfl := Option.some.inj (hm.symm.trans hm')
    exact ⟨by rw [ht.key id m hm, hm], hc, hstate⟩
  · rintro ⟨hm, hc, hstate⟩
    exact ⟨⟨m.id, (ht.indexed c m.id).2 ⟨m, hm, hc⟩, hm⟩, hstate, rfl⟩

theorem Valid.nodup_pending (ht : t.Valid) (c : String) : (t.pendingFor c none).Nodup := by
  rw [pendingFor_eq]
  exact (Nodup.of_map _ (nodup_ids ht.key (ht.nodup c))).filter _

theorem Valid.getPendingCount_le (ht : t.Valid) {l : List QueuedMessage}
    (hl : ∀ m ∈ t.pendingFor c none, m ∈ l) : t.getPendingCount c none ≤ l.length :=
  (subperm_of_subset (ht.nodup_pending c) hl).length_le

/-! ## A new message -/

theorem Valid.pendingFor_addMessage (ht : t.Valid) {message : QueuedMessage}
    (hfresh : t.messages.lookup message.id = none) (hpending : message.state = .pending)
    (c : String) : (t.addMessage message).pendingFor c none =
      t.pendingFor c none ++ if c = message.connectionId then [message] else [] := by
  have hold : (t.idsOf c).filterMap (t.addMessage message).messages.lookup =
      (t.idsOf c).filterMap t.messages.lookup := by
    refine filterMap_congr fun id hid => ?_
    obtain ⟨m, hm, -⟩ := (ht.indexed c id).1 hid
    rw [lookup_addMessage, if_neg]
    rintro rfl
    rw [hfresh] at hm
    cases hm
  rw [pendingFor_eq, pendingFor_eq, idsOf_addMessage]
  split
  · have hnew : (t.addMessage message).messages.lookup message.id = some message := by
      rw [lookup_addMessage, if_pos rfl]
    rw [filterMap_append, hold]
    simp [hnew, hpending, QueuedMessage.matchesRecipientKey]
  · rw [hold, append_nil]

theorem Valid.getPendingCount_addMessage (ht : t.Valid) {message : QueuedMessage}
    (hfresh : t.messages.lookup message.id = none) (hpending : message.state = .pending)
    (c : String) : (t.addMessage message).getPendingCount c none =
      t.getPendingCount c none + if c = message.connectionId then 1 else 0 := by
  unfold getPendingCount
  rw [ht.pendingFor_addMessage hfresh hpending, length_append]
  split <;> rfl

/-! ## Operations that leave no more messages pending -/

/-- What is stored was stored before, and what is pending was pending before. -/
structure Shrinks (t t' : QueueTables) : Prop where
  valid : t'.Valid
  stored : ∀ id m, t'.messages.lookup id = some m →
    ∃ m', t.messages.lookup id = some m' ∧ m'.connectionId = m.connectionId
  pending : ∀ id m, t'.messages.lookup id = some m → m.state = .pending →
    t.messages.lookup id = some m

theorem Shrinks.refl (ht : t.Valid) : Shrinks t t :=
  ⟨ht, fun _ m h => ⟨m, h, rfl⟩, fun _ _ h _ => h⟩

theorem Shrinks.of_kept (ht : t'.Valid)
    (hkept : ∀ id m, t'.messages.lookup id = some m → t.messages.lookup id = some m) :
    Shrinks t t' :=
  ⟨ht, fun id m h => ⟨m, hkept id m h, rfl⟩, fun id m h _ => hkept id m h⟩

theorem Shrinks.getPendingCount_le (h : Shrinks t t') (ht : t.Valid) (c : String) :
    t'.getPendingCount c none ≤ t.getPendingCount c none := by
  refine h.valid.getPendingCount_le fun m hm => ?_
  obtain ⟨hlookup, hc, hstate⟩ := h.valid.mem_pending.1 hm
  exact ht.mem_pending.2 ⟨h.pending m.id m hlookup hstate, hc, hstate⟩

theorem Valid.shrinks_takeFromQueue (ht : t.Valid) (c : String) (key : Option String)
    (limit : ℕ) : Shrinks t (t.takeFromQueue c key limit).2 := by
  refine ⟨ht.takeFromQueue c key limit, fun id m h => ?_, fun id m h hstate => ?_⟩
  · rw [lookup_takeFromQueue] at h
    split at h
    · obtain ⟨m', hm', rfl⟩ := Option.map_eq_some_iff.1 h
      exact ⟨m', hm', rfl⟩
    · exact ⟨m, h, rfl⟩
  · rw [lookup_takeFromQueue] at h
    split at h
    · -- a message that is taken is marked as being sent
      obtain ⟨m', -, rfl⟩ := Option.map_eq_some_iff.1 h
      cases hstate
    · exact h

theorem Valid.shrinks_removeMessages (ht : t.Valid) (ids : List String) :
    Shrinks t (t.removeMessages ids) := by
  refine .of_kept (ht.removeMessages ids) fun id m h => ?_
  rw [lookup_removeMessages] at h
  split at h
  · cases h
  · exact h

theorem Valid.shrinks_deleteExpired (ht : t.Valid) (order : IterOrder String)
    (cutoff : Timestamp) : Shrinks t (t.deleteExpired order cutoff).2 := by
  rw [ht.deleteExpired_eq]
  exact ht.shrinks_removeMessages _

theorem Valid.shrinks_clearConnection (ht : t.Valid) (c : String) :
    Shrinks t (t.clearConnection c).2 := by
  refine .of_kept (ht.clearConnection c) fun id m h => ?_
  rw [lookup_clearConnection] at h
  split at h
  · cases h
  · exact h

theorem Valid.shrinks_deleteExpiredForConnection (ht : t.Valid) (c : String)
    (cutoff : Timestamp) : Shrinks t (t.deleteExpiredForConnection c cutoff).2 := by
  refine .of_kept (ht.deleteExpiredForConnection c cutoff) fun id m h => ?_
  rw [lookup_deleteExpiredForConnection] at h
  split at h
  · cases h
  · exact h

/-- The pending messages of a connection that an expiry with this cutoff keeps. -/
def unexpired (t : QueueTables) (c : String) (cutoff : Timestamp) : List QueuedMessage :=
  (t.pendingFor c none).filter fun m => cutoff ≤ m.receivedAt

theorem Valid.getPendingCount_deleteExpiredForConnection_le (ht : t.Valid) (c : String)
    (cutoff : Timestamp) :
    (t.deleteExpiredForConnection c cutoff).2.getPendingCount c none ≤
      (t.unexpired c cutoff).length := by
  have hvalid := ht.deleteExpiredForConnection c cutoff
  refine hvalid.getPendingCount_le fun m hm => ?_
  obtain ⟨hlookup, hc, hstate⟩ := hvalid.mem_pending.1 hm
  rw [lookup_deleteExpiredForConnection] at hlookup
  split at hlookup
  · cases hlookup
  · next hkept =>
    refine mem_filter.2 ⟨ht.mem_pending.2 ⟨hlookup, hc, hstate⟩, decide_eq_true ?_⟩
    by_contra hold
    exact hkept (ht.mem_expiredIdsFor.2 ⟨m, hlookup, hc, lt_of_not_ge hold⟩)

end QueueTables
end Idiom.Pickup
