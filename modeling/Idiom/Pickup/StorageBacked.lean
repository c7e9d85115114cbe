import Idiom.Pickup.Queue

/-!
# The storage-backed queue: `pickup/src/repository/storage_backed_message_queue.rs`

Every message is a record of the storage; the two tables are a cache, loaded on first access.
Here the calls run one after the other.
-/

namespace Idiom.Pickup

open QueueTables List Finmap

/-! ## Calls -/

inductive QueueCall where
  | addMessage (message : QueuedMessage)
  | getPendingCount (connectionId : String) (recipientKey : Option String)
  | getTotalBytes (connectionId : String) (recipientKey : Option String)
  | getOldestMessageTime (connectionId : String) (recipientKey : Option String)
  | takeFromQueue (connectionId : String) (recipientKey : Option String) (limit : ℕ)
  | removeMessages (messageIds : List String)
  | returnToPending (messageIds : List String)
  | findById (messageId : String)
  | clearConnection (connectionId : String)
  | deleteExpired (cutoff : Timestamp)
  | deleteExpiredForConnection (connectionId : String) (cutoff : Timestamp)

def QueueCall.adding : QueueCall → Option String
  | .addMessage message => some message.id
  | _ => none

inductive QueueReply where
  | id (messageId : String)
  | count (n : ℕ)
  | time (oldest : Option Timestamp)
  | messages (taken : List QueuedMessage)
  | message (found : Option QueuedMessage)
  | unit
  /-- The storage refused a record. -/
  | storageError

/-- A call of the in-memory repository. -/
def QueueTables.call (order : IterOrder String) (t : QueueTables) :
    QueueCall → QueueTables × QueueReply
  | .addMessage message => (t.addMessage message, .id message.id)
  | .getPendingCount c key => (t, .count (t.getPendingCount c key))
  | .getTotalBytes c key => (t, .count (t.getTotalBytes c key))
  | .getOldestMessageTime c key => (t, .time (t.getOldestMessageTime c key))
  | .takeFromQueue c key limit =>
    ((t.takeFromQueue c key limit).2, .messages (t.takeFromQueue c key limit).1)
  | .removeMessages ids => (t.removeMessages ids, .unit)
  | .returnToPending ids => (t.returnToPending ids, .unit)
  | .findById id => (t, .message (t.findById id))
  | .clearConnection c => ((t.clearConnection c).2, .count (t.clearConnection c).1)
  | .deleteExpired cutoff =>
    ((t.deleteExpired order cutoff).2, .count (t.deleteExpired order cutoff).1)
  | .deleteExpiredForConnection c cutoff =>
    ((t.deleteExpiredForConnection c cutoff).2, .count (t.deleteExpiredForConnection c cutoff).1)

def QueueTables.Fresh (t : QueueTables) : QueueCall → Prop
  | .addMessage message => t.messages.lookup message.id = none
  | _ => True

instance (t : QueueTables) : (c : QueueCall) → Decidable (t.Fresh c)
  | .addMessage message => inferInstanceAs (Decidable (t.messages.lookup message.id = none))
  | .getPendingCount _ _ => isTrue trivial
  | .getTotalBytes _ _ => isTrue trivial
  | .getOldestMessageTime _ _ => isTrue trivial
  | .takeFromQueue _ _ _ => isTrue trivial
  | .removeMessages _ => isTrue trivial
  | .returnToPending _ => isTrue trivial
  | .findById _ => isTrue trivial
  | .clearConnection _ => isTrue trivial
  | .deleteExpired _ => isTrue trivial
  | .deleteExpiredForConnection _ _ => isTrue trivial

theorem QueueTables.Valid.call {t : QueueTables} (ht : t.Valid) {order : IterOrder String}
    {c : QueueCall} (hc : t.Fresh c) : (t.call order c).1.Valid := by
  cases c with
  | addMessage message => exact ht.addMessage hc
  | takeFromQueue c key limit => exact ht.takeFromQueue c key limit
  | removeMessages ids => exact ht.removeMessages ids
  | returnToPending ids => exact ht.returnToPending ids
  | clearConnection c => exact ht.clearConnection c
  | deleteExpired cutoff => exact ht.deleteExpired order cutoff
  | deleteExpiredForConnection c cutoff => exact ht.deleteExpiredForConnection c cutoff
  | getPendingCount | getTotalBytes | getOldestMessageTime | findById => exact ht

/-! ## The storage -/

/-- The records of the category: `StorageProvider` with the name and the value of a record.
`save` refuses a name that is taken, `update` one that is not, and `delete` accepts both. -/
abbrev Storage := FMap String QueuedMessage

namespace Storage

def persist (storage : Storage) (m : QueuedMessage) : Option Storage :=
  if m.id ∈ storage then none else some (storage.insert m.id m)

/-- Update a message in storage; the error for a missing record is only logged. -/
def updateInStorage (storage : Storage) (m : QueuedMessage) : Storage :=
  storage.alter m.id (Option.map fun _ => m)

def deleteFromStorage (storage : Storage) (id : String) : Storage := storage.erase id

end Storage

open Storage

/-- The storage and, once it is loaded, the cache. -/
structure StorageBacked where
  storage : Storage
  cache : Option QueueTables

namespace StorageBacked

def new : StorageBacked := ⟨∅, none⟩

/-- The process stops and starts again. -/
def restart (s : StorageBacked) : StorageBacked := { s with cache := none }

/-- The tables of the records, in the order `find_all` returns them. -/
def loadTables (order : IterOrder String) (storage : Storage) : QueueTables :=
  ((order.list storage.keys).filterMap storage.lookup).foldl addMessage .new

/-- The messages that were being delivered when the process stopped. -/
def orphanIds (order : IterOrder String) (t : QueueTables) : List String :=
  (order.list t.messages.keys).filter fun id =>
    (t.messages.lookup id).any fun m => m.state = .sending

/-- Load all messages, reset those in `Sending`, and write them back. -/
def load (order : IterOrder String) (storage : Storage) : StorageBacked :=
  let loaded := loadTables order storage
  let orphans := orphanIds order loaded
  let reset := loaded.returnToPending orphans
  { storage := (orphans.filterMap reset.messages.lookup).foldl updateInStorage storage
    cache := some reset }

def ensureLoaded (order : IterOrder String) (s : StorageBacked) : Storage × QueueTables :=
  match s.cache with
  | some t => (s.storage, t)
  | none => ((load order s.storage).storage, (load order s.storage).cache.getD .new)

/-- A call once the cache is loaded. -/
def callLoaded (order : IterOrder String) (storage : Storage) (t : QueueTables) :
    QueueCall → StorageBacked × QueueReply
  | .addMessage message =>
    match storage.persist message with
    | none => (⟨storage, some t⟩, .storageError)
    | some storage => (⟨storage, some (t.addMessage message)⟩, .id message.id)
  | .takeFromQueue c key limit =>
    let result := t.takeFromQueue c key limit
    let toPersist := (result.1.map QueuedMessage.id).filterMap result.2.messages.lookup
    (⟨toPersist.foldl updateInStorage storage, some result.2⟩, .messages result.1)
  | .removeMessages ids =>
    (⟨ids.foldl deleteFromStorage storage, some (t.removeMessages ids)⟩, .unit)
  | .returnToPending ids =>
    let t := t.returnToPending ids
    (⟨(ids.filterMap t.messages.lookup).foldl updateInStorage storage, some t⟩, .unit)
  | .clearConnection c =>
    (⟨(t.idsOf c).foldl deleteFromStorage storage, some (t.clearConnection c).2⟩,
      .count (t.clearConnection c).1)
  | .deleteExpired cutoff =>
    let ids := (t.expired order cutoff).map QueuedMessage.id
    (⟨ids.foldl deleteFromStorage storage, some (t.removeMessages ids)⟩, .count ids.length)
  | .deleteExpiredForConnection c cutoff =>
    (⟨(t.expiredIdsFor c cutoff).foldl deleteFromStorage storage,
      some (t.deleteExpiredForConnection c cutoff).2⟩,
      .count (t.deleteExpiredForConnection c cutoff).1)
  -- the reads are those of the in-memory repository
  | .getPendingCount c key => (⟨storage, some t⟩, .count (t.getPendingCount c key))
  | .getTotalBytes c key => (⟨storage, some t⟩, .count (t.getTotalBytes c key))
  | .getOldestMessageTime c key => (⟨storage, some t⟩, .time (t.getOldestMessageTime c key))
  | .findById id => (⟨storage, some t⟩, .message (t.findById id))

def call (order : IterOrder String) (s : StorageBacked) (c : QueueCall) :
    StorageBacked × QueueReply :=
  callLoaded order (s.ensureLoaded order).1 (s.ensureLoaded order).2 c

/-! ## The storage follows the cache -/

variable {order : IterOrder String} {storage : Storage} {t : QueueTables}

theorem lookup_foldl_update {new : String → Option QueuedMessage}
    (hkey : ∀ id m, new id = some m → m.id = id) (storage : Storage) (ids : List String)
    (id : String) :
    ((ids.filterMap new).foldl updateInStorage storage).lookup id =
      if id ∈ ids then
        match new id with
        | none => storage.lookup id
        | some m => (storage.lookup id).map fun _ => m
      else storage.lookup id := by
  induction ids generalizing storage with
  | nil => rfl
  | cons k ids ih =>
    cases hk : new k with
    | none =>
      rw [filterMap_cons_none hk, ih]
      by_cases hid : id = k
      · subst hid
        simp [hk]
      · simp [hid]
    | some m =>
      have hm : m.id = k := hkey k m hk
      rw [filterMap_cons_some hk, foldl_cons, ih, updateInStorage, FMap.lookup_alter, hm]
      by_cases hid : id = k
      · subst hid
        cases storage.lookup id <;> simp [hk]
      · simp [hid]

theorem foldl_update_modifyEach {f : QueuedMessage → QueuedMessage} (hf : ∀ m, f (f m) = f m)
    (hid : ∀ m, (f m).id = m.id) {messages : FMap String QueuedMessage}
    (hkey : ∀ id m, messages.lookup id = some m → m.id = id) (ids : List String) :
    (ids.filterMap (modifyEach f messages ids).lookup).foldl updateInStorage
      messages = modifyEach f messages ids := by
  refine ext_lookup fun id => ?_
  have hnew : ∀ id m, (modifyEach f messages ids).lookup id = some m → m.id = id := by
    intro id m h
    rw [lookup_modifyEach hf] at h
    split at h
    · obtain ⟨m', hm', rfl⟩ := Option.map_eq_some_iff.1 h
      rw [hid, hkey id m' hm']
    · exact hkey id m h
  rw [lookup_foldl_update hnew]
  by_cases hmem : id ∈ ids
  · rw [if_pos hmem, lookup_modifyEach hf, if_pos hmem]
    cases messages.lookup id <;> rfl
  · rw [if_neg hmem, lookup_modifyEach hf, if_neg hmem]

theorem lookup_foldl_delete (storage : Storage) (ids : List String) (id : String) :
    (ids.foldl deleteFromStorage storage).lookup id =
      if id ∈ ids then none else storage.lookup id :=
  lookup_foldl_erase storage ids id

/-- The cache is loaded and valid, and the storage holds the same messages. -/
structure Synced (s : StorageBacked) (t : QueueTables) : Prop where
  cache : s.cache = some t
  valid : t.Valid
  storage : s.storage = t.messages

/-- **A call on a loaded repository answers as the in-memory one**, and leaves the storage
with the messages of the cache. -/
theorem callLoaded_eq (ht : t.Valid) {c : QueueCall} (hc : t.Fresh c) :
    callLoaded order t.messages t c =
      (⟨(t.call order c).1.messages, some (t.call order c).1⟩, (t.call order c).2) := by
  cases c with
  | addMessage message =>
    have hfresh : message.id ∉ t.messages := lookup_eq_none.1 hc
    simp only [callLoaded, persist, if_neg hfresh]
    rfl
  | takeFromQueue c key limit =>
    have hwrite := foldl_update_modifyEach QueueTables.markSending_idem (fun _ => rfl) ht.key
      ((t.taken c key limit).map QueuedMessage.id)
    simp only [callLoaded, QueueTables.call, QueueTables.takeFromQueue]
    rw [hwrite]
  | returnToPending ids =>
    have hwrite := foldl_update_modifyEach QueueTables.markPending_idem (fun _ => rfl) ht.key ids
    simp only [callLoaded, QueueTables.call, QueueTables.returnToPending]
    rw [hwrite]
  | removeMessages ids =>
    have hdelete : ids.foldl deleteFromStorage t.messages = (t.removeMessages ids).messages :=
      ext_lookup fun id => by rw [lookup_foldl_delete, QueueTables.lookup_removeMessages]
    simp only [callLoaded, QueueTables.call, hdelete]
  | clearConnection c =>
    have hdelete : (t.idsOf c).foldl deleteFromStorage t.messages =
        (t.clearConnection c).2.messages := by
      unfold QueueTables.clearConnection QueueTables.idsOf
      cases t.byConnection c <;> rfl
    simp only [callLoaded, QueueTables.call, hdelete]
  | deleteExpired cutoff =>
    have hdelete : ((t.expired order cutoff).map QueuedMessage.id).foldl deleteFromStorage
        t.messages = (t.deleteExpired order cutoff).2.messages := by
      rw [ht.deleteExpired_eq]
      exact ext_lookup fun id => by
        rw [lookup_foldl_delete, QueueTables.lookup_removeMessages]
    simp only [callLoaded, hdelete, ← ht.deleteExpired_eq, length_map]
    rfl
  | deleteExpiredForConnection c cutoff =>
    have hdelete : (t.expiredIdsFor c cutoff).foldl deleteFromStorage t.messages =
        (t.deleteExpiredForConnection c cutoff).2.messages := by
      unfold QueueTables.deleteExpiredForConnection
      cases h : t.byConnection c with
      | none =>
        simp only [QueueTables.expiredIdsFor, h, Option.getD_none, filterMap_nil,
          filter_nil, map_nil, foldl_nil]
      | some ids => rfl
    simp only [callLoaded, QueueTables.call, hdelete]
  | getPendingCount | getTotalBytes | getOldestMessageTime | findById => rfl

variable {s : StorageBacked}

theorem Synced.ensureLoaded (h : Synced s t) : s.ensureLoaded order = (t.messages, t) := by
  unfold StorageBacked.ensureLoaded
  rw [h.cache, h.storage]

theorem Synced.call (h : Synced s t) (order : IterOrder String) {c : QueueCall} (hc : t.Fresh c) :
    Synced (s.call order c).1 (t.call order c).1 ∧ (s.call order c).2 = (t.call order c).2 := by
  unfold StorageBacked.call
  rw [h.ensureLoaded, callLoaded_eq h.valid hc]
  exact ⟨⟨rfl, h.valid.call hc, rfl⟩, rfl⟩

/-! ## Loading -/

theorem foldl_addMessage {l : List QueuedMessage} (hl : (l.map QueuedMessage.id).Nodup)
    (ht : t.Valid) (hfresh : ∀ m ∈ l, t.messages.lookup m.id = none) :
    (l.foldl addMessage t).Valid ∧ ∀ id,
      (l.foldl addMessage t).messages.lookup id =
        (l.find? fun m => m.id = id).or (t.messages.lookup id) := by
  induction l generalizing t with
  | nil => exact ⟨ht, fun _ => rfl⟩
  | cons m l ih =>
    rw [map_cons, nodup_cons] at hl
    have hlater : ∀ m' ∈ l, (t.addMessage m).messages.lookup m'.id = none := by
      intro m' hm'
      have hne : m'.id ≠ m.id := fun heq => hl.1 (heq ▸ mem_map_of_mem hm')
      rw [lookup_addMessage, if_neg hne]
      exact hfresh m' (mem_cons_of_mem _ hm')
    obtain ⟨hvalid, hlookup⟩ := ih hl.2 (ht.addMessage (hfresh m (by simp))) hlater
    refine ⟨hvalid, fun id => ?_⟩
    rw [foldl_cons, hlookup, lookup_addMessage]
    by_cases hid : m.id = id
    · have hnone : (l.find? fun m' => m'.id = id) = none := by
        refine find?_eq_none.2 fun m' hm' heq => hl.1 ?_
        rw [hid, ← of_decide_eq_true heq]
        exact mem_map_of_mem hm'
      rw [hnone, if_pos hid.symm, find?_cons_of_pos (by simp [hid])]
      rfl
    · rw [if_neg (Ne.symm hid), find?_cons_of_neg (by simp [hid])]

theorem find?_filterMap_lookup (hkey : ∀ id m, storage.lookup id = some m → m.id = id)
    {l : List String} {id : String} (hl : ∀ k, k ∈ l ↔ k ∈ storage) :
    ((l.filterMap storage.lookup).find? fun m => m.id = id) = storage.lookup id := by
  cases hid : storage.lookup id with
  | none =>
    refine find?_eq_none.2 fun m hm heq => ?_
    obtain ⟨k, -, hk⟩ := mem_filterMap.1 hm
    rw [← hkey k m hk, of_decide_eq_true heq] at hk
    rw [hid] at hk
    cases hk
  | some m =>
    have hmem : m ∈ l.filterMap storage.lookup :=
      mem_filterMap.2 ⟨id, (hl id).2 (mem_iff.2 ⟨m, hid⟩), hid⟩
    cases hfind : (l.filterMap storage.lookup).find? fun m => m.id = id with
    | none => simpa [hkey id m hid] using find?_eq_none.1 hfind m hmem
    | some m' =>
      obtain ⟨k, -, hk⟩ := mem_filterMap.1 (mem_of_find?_eq_some hfind)
      have hid' : m'.id = id := by simpa using find?_some hfind
      rw [← hkey k m' hk, hid', hid] at hk
      rw [hk]

theorem loadTables_spec (order : IterOrder String)
    (hkey : ∀ id m, storage.lookup id = some m → m.id = id) :
    (loadTables order storage).Valid ∧ (loadTables order storage).messages = storage := by
  have hnodup := nodup_ids hkey (order.nodup_list storage.keys)
  obtain ⟨hvalid, hlookup⟩ := foldl_addMessage hnodup valid_new fun m _ => rfl
  refine ⟨hvalid, Finmap.ext_lookup fun id => ?_⟩
  have hall : ∀ k, k ∈ order.list storage.keys ↔ k ∈ storage := fun k => by
    rw [order.mem_list, Finmap.mem_keys]
  unfold loadTables
  rw [hlookup id, find?_filterMap_lookup hkey hall]
  cases storage.lookup id <;> rfl

theorem lookup_returnOrphans (t : QueueTables) (id : String) :
    (t.returnToPending (orphanIds order t)).messages.lookup id =
      (t.messages.lookup id).map QueuedMessage.markPending := by
  rw [lookup_returnToPending]
  split
  · rfl
  · next hnot =>
    cases hid : t.messages.lookup id with
    | none => rfl
    | some m =>
      have hkeys : id ∈ t.messages.keys := mem_keys.2 (mem_iff.2 ⟨m, hid⟩)
      have hstate : m.state ≠ .sending := fun hsending => hnot (by
        simp [orphanIds, hkeys, hid, hsending])
      obtain ⟨_, _, _, _, _, state⟩ := m
      cases state with
      | pending => rfl
      | sending => exact absurd rfl hstate

/-- A repository that is not loaded yet holds records under their ids. -/
def Keyed (s : StorageBacked) : Prop :=
  s.cache = none ∧ ∀ id m, s.storage.lookup id = some m → m.id = id

theorem Keyed.load (h : Keyed s) (order : IterOrder String) :
    ∃ t, Synced (load order s.storage) t ∧ s.ensureLoaded order = (t.messages, t) ∧
      ∀ id, t.messages.lookup id = (s.storage.lookup id).map QueuedMessage.markPending := by
  obtain ⟨hcache, hkey⟩ := h
  obtain ⟨hvalid, hmessages⟩ := loadTables_spec order hkey
  have hwrite := foldl_update_modifyEach markPending_idem (fun _ => rfl) hkey
    (orphanIds order (loadTables order s.storage))
  have hreset : (loadTables order s.storage).returnToPending
      (orphanIds order (loadTables order s.storage)) =
        ⟨modifyEach QueuedMessage.markPending s.storage
          (orphanIds order (loadTables order s.storage)),
          (loadTables order s.storage).byConnection⟩ := by
    unfold returnToPending
    rw [hmessages]
  refine ⟨(loadTables order s.storage).returnToPending
    (orphanIds order (loadTables order s.storage)),
    ⟨rfl, hvalid.returnToPending _, ?_⟩, ?_, fun id => ?_⟩
  · simp only [StorageBacked.load, hreset]
    exact hwrite
  · unfold StorageBacked.ensureLoaded
    simp only [hcache, StorageBacked.load, hreset, Option.getD_some]
    rw [hwrite]
  · rw [lookup_returnOrphans, hmessages]

theorem keyed_new : Keyed new := ⟨rfl, fun _ _ h => by simp [new] at h⟩

theorem Synced.restart (h : Synced s t) : Keyed s.restart :=
  ⟨rfl, fun id m hm => h.valid.key id m (h.storage ▸ hm)⟩

/-- The repository after its first access. -/
def loaded (order : IterOrder String) (s : StorageBacked) : StorageBacked :=
  ⟨(s.ensureLoaded order).1, some (s.ensureLoaded order).2⟩

theorem ensureLoaded_loaded (order : IterOrder String) (s : StorageBacked) :
    (s.loaded order).ensureLoaded order = s.ensureLoaded order := rfl

theorem call_loaded (order : IterOrder String) (s : StorageBacked) (c : QueueCall) :
    (s.loaded order).call order c = s.call order c := rfl

theorem Keyed.synced (h : Keyed s) (order : IterOrder String) : ∃ t, Synced (s.loaded order) t := by
  obtain ⟨t, hsynced, hload, -⟩ := h.load order
  refine ⟨t, ?_, hsynced.valid, ?_⟩
  · simp only [loaded, hload]
  · simp only [loaded, hload]

theorem Synced.loaded_eq (h : Synced s t) (order : IterOrder String) : s.loaded order = s := by
  obtain ⟨storage, cache⟩ := s
  obtain ⟨hcache, -, hstorage⟩ := h
  cases hcache
  rfl

end StorageBacked
end Idiom.Pickup
