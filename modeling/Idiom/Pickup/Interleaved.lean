import Idiom.Pickup.Refinement

/-!
# The storage-backed queue, one await point at a time

The two cached tables have a lock each. A call first makes sure they are loaded: a fast path
looks at the first table only, and the slow path publishes the first table, releases its lock
and then publishes the second. Storage calls are awaited, some of them with the locks held and
some without.
-/

namespace Idiom.Pickup

open Function Run QueueTables List Finmap

/-- What the calls share: the storage, the two cached tables, and who holds their write locks. -/
structure Shared where
  storage : Storage
  messages : Option (FMap String QueuedMessage)
  byConnection : Option (String → Option (List String))
  messagesHolder : Option ℕ
  indexHolder : Option ℕ

/-- A call that has started. -/
inductive QueueTask where
  /-- `ensure_loaded`, fast path. -/
  | checkLoaded (c : QueueCall)
  /-- `ensure_loaded`, slow path. -/
  | lockLoad (c : QueueCall)
  /-- `ensure_loaded`, with the index still to be published. -/
  | publishIndex (c : QueueCall) (index : String → Option (List String))
  /-- The call itself. -/
  | enter (c : QueueCall)
  /-- `add_message`, once the message is persisted. -/
  | insertMessage (message : QueuedMessage)
  /-- `take_from_queue`, after the locks are released. -/
  | writeBack (taken toPersist : List QueuedMessage)
  /-- Removal from both tables, both locks held. -/
  | removing (reply : QueueReply) (ids : List String)
  /-- Removal from the first table, both locks held; at the end the index drops the ids. -/
  | erasing (reply : QueueReply) (ids : List String) (connectionId : String)
    (expired : List String)
  /-- `return_to_pending`, the first lock held. -/
  | returning (ids : List String)
  /-- `delete_expired`, between the two lock scopes. -/
  | collected (ids : List String)
  /-- `delete_expired_for_connection`, between the two lock scopes. -/
  | collectedFor (connectionId : String) (ids : List String)
  | returned (reply : QueueReply)
  /-- An `unwrap` failed. -/
  | panicked

namespace Shared

variable (order : IterOrder String) (s : Shared) (t : ℕ)

/-- No one writes the first table. -/
def messagesFree : Bool := s.messagesHolder.isNone

/-- No one writes the second table. -/
def indexFree : Bool := s.indexHolder.isNone

def bothFree : Bool := s.messagesFree && s.indexFree

/-- Both tables, if both `unwrap`s succeed. -/
def tables : Option QueueTables :=
  match s.messages, s.byConnection with
  | some messages, some byConnection => some ⟨messages, byConnection⟩
  | _, _ => none

def setTables (tables : QueueTables) : Shared :=
  { s with messages := some tables.messages, byConnection := some tables.byConnection }

def lockBoth : Shared := { s with messagesHolder := some t, indexHolder := some t }

def unlock : Shared := { s with messagesHolder := none, indexHolder := none }

def read (reply : QueueTables → QueueReply) : Option (Shared × QueueTask) :=
  if s.bothFree then
    match s.tables with
    | none => some (s, .panicked)
    | some tables => some (s, .returned (reply tables))
  else none

/-- A section that takes both write locks and keeps them. -/
def lockTables (k : QueueTables → QueueTables × QueueTask) : Option (Shared × QueueTask) :=
  if s.bothFree then
    match s.tables with
    | none => some (s, .panicked)
    | some tables => some ((s.setTables (k tables).1).lockBoth t, (k tables).2)
  else none

/-- The first part of a call after `ensure_loaded`. -/
def enter : QueueCall → Option (Shared × QueueTask)
  | .addMessage message =>
    match s.storage.persist message with
    | none => some (s, .returned .storageError)
    | some storage => some ({ s with storage := storage }, .insertMessage message)
  | .getPendingCount c key => s.read fun tables => .count (tables.getPendingCount c key)
  | .getTotalBytes c key => s.read fun tables => .count (tables.getTotalBytes c key)
  | .getOldestMessageTime c key => s.read fun tables => .time (tables.getOldestMessageTime c key)
  | .takeFromQueue c key limit =>
    if s.bothFree then
      match s.tables with
      | none => some (s, .panicked)
      | some tables =>
        let result := tables.takeFromQueue c key limit
        some (s.setTables result.2,
          .writeBack result.1 ((result.1.map QueuedMessage.id).filterMap result.2.messages.lookup))
    else none
  | .removeMessages ids => s.lockTables t fun tables => (tables, .removing .unit ids)
  | .returnToPending ids =>
    if s.messagesFree then
      match s.messages with
      | none => some (s, .panicked)
      | some _ => some ({ s with messagesHolder := some t }, .returning ids)
    else none
  | .findById id =>
    if s.messagesFree then
      match s.messages with
      | none => some (s, .panicked)
      | some messages => some (s, .returned (.message (messages.lookup id)))
    else none
  | .clearConnection c => s.lockTables t fun tables =>
    ({ tables with byConnection := update tables.byConnection c none },
      .erasing (.count (tables.idsOf c).length) (tables.idsOf c) c [])
  | .deleteExpired cutoff =>
    if s.messagesFree then
      match s.messages with
      | none => some (s, .returned (.count 0))
      | some messages =>
        match (expired order ⟨messages, fun _ => none⟩ cutoff).map QueuedMessage.id with
        | [] => some (s, .returned (.count 0))
        | ids => some (s, .collected ids)
    else none
  | .deleteExpiredForConnection c cutoff =>
    if s.bothFree then
      match s.tables with
      | none => some (s, .returned (.count 0))
      | some tables =>
        match tables.expiredIdsFor c cutoff with
        | [] => some (s, .returned (.count 0))
        | ids => some (s, .collectedFor c ids)
    else none

def next : QueueTask → Option (Shared × QueueTask)
  | .checkLoaded c =>
    if s.messagesFree then
      if s.messages.isSome then some (s, .enter c) else some (s, .lockLoad c)
    else none
  | .lockLoad c =>
    -- the lock is held over `find_all`; no other call can be past `ensure_loaded` here
    if s.messagesFree then
      if s.messages.isSome then some (s, .enter c)
      else
        let loaded := (⟨s.storage, none⟩ : StorageBacked).ensureLoaded order
        some ({ s with storage := loaded.1, messages := some loaded.2.messages },
          .publishIndex c loaded.2.byConnection)
    else none
  | .publishIndex c index =>
    if s.indexFree then some ({ s with byConnection := some index }, .enter c) else none
  | .enter c => s.enter order t c
  | .insertMessage message =>
    if s.bothFree then
      match s.tables with
      | none => some (s, .panicked)
      | some tables => some (s.setTables (tables.addMessage message), .returned (.id message.id))
    else none
  | .writeBack taken [] => some (s, .returned (.messages taken))
  | .writeBack taken (m :: rest) =>
    some ({ s with storage := s.storage.updateInStorage m }, .writeBack taken rest)
  | .removing reply [] => some (s.unlock, .returned reply)
  | .removing reply (id :: ids) =>
    match s.tables with
    | none => some (s.unlock, .panicked)
    | some tables =>
      some ({ s.setTables (tables.removeMessage id) with
        storage := s.storage.deleteFromStorage id }, .removing reply ids)
  | .erasing reply [] c expired =>
    match s.tables with
    | none => some (s.unlock, .panicked)
    | some tables =>
      some ((s.setTables { tables with
        byConnection := update tables.byConnection c
          ((tables.byConnection c).map fun ids => ids.filter (· ∉ expired)) }).unlock,
        .returned reply)
  | .erasing reply (id :: ids) c expired =>
    match s.tables with
    | none => some (s.unlock, .panicked)
    | some tables =>
      some ({ s.setTables { tables with messages := tables.messages.erase id } with
        storage := s.storage.deleteFromStorage id }, .erasing reply ids c expired)
  | .returning [] => some ({ s with messagesHolder := none }, .returned .unit)
  | .returning (id :: ids) =>
    match s.messages with
    | none => some ({ s with messagesHolder := none }, .panicked)
    | some messages =>
      let messages := messages.alter id (Option.map QueuedMessage.markPending)
      some ({ s with
        messages := some messages
        storage := ((messages.lookup id).map s.storage.updateInStorage).getD s.storage },
        .returning ids)
  | .collected ids => s.lockTables t fun tables => (tables, .removing (.count ids.length) ids)
  | .collectedFor c ids => s.lockTables t fun tables =>
    (tables, .erasing (.count ids.length) ids c ids)
  | .returned _ => none
  | .panicked => none

end Shared

open Shared

/-! ## Runs -/

/-- The shared state, the calls, and the ids of all messages added so far. -/
structure QueueSystem where
  shared : Shared
  tasks : ℕ → Option QueueTask
  used : List String

inductive QueueAction where
  | call (t : ℕ) (c : QueueCall)
  | run (t : ℕ) (order : IterOrder String)
  | crash

/-- The ids a call removes by name. -/
def QueueCall.deleting : QueueCall → List String
  | .removeMessages ids => ids
  | _ => []

namespace QueueSystem

/-- No call has been made. -/
def start : QueueSystem := ⟨⟨∅, none, none, none, none⟩, fun _ => none, []⟩

/-- A call starts, with a fresh id for a new message; a call goes on; or the process crashes and
starts again with the storage it has. -/
def step (s : QueueSystem) : QueueAction → Option QueueSystem
  | .call t c =>
    match s.tasks t with
    | some _ => none
    | none =>
      if ∀ id ∈ c.adding, id ∉ s.used then
        some { s with
          tasks := update s.tasks t (some (.checkLoaded c))
          used := s.used ++ c.adding.toList }
      else none
  | .run t order =>
    match s.tasks t with
    | none => none
    | some task =>
      match s.shared.next order t task with
      | none => none
      | some (shared, task) =>
        some { s with shared := shared, tasks := update s.tasks t (some task) }
  | .crash => some { s with shared := ⟨s.shared.storage, none, none, none, none⟩, tasks :=
      fun _ => none }

end QueueSystem

open QueueSystem

namespace QueueTask

/-- Has the call not returned yet? -/
def active : QueueTask → Bool
  | .returned _ => false
  | .panicked => false
  | _ => true

/-- The call that is still before its first own section. -/
def waiting : QueueTask → Option QueueCall
  | .checkLoaded c => some c
  | .lockLoad c => some c
  | .publishIndex c _ => some c
  | .enter c => some c
  | _ => none

/-- The message that is in the storage and not yet in the cache. -/
def persisted : QueueTask → Option String
  | .insertMessage message => some message.id
  | _ => none

/-- The id of the message that is being added. -/
def adding (task : QueueTask) : Option String :=
  task.persisted.or (task.waiting.bind QueueCall.adding)

def deleting : QueueTask → List String
  | .removing _ ids => ids
  | .erasing _ ids _ _ => ids
  | .collected ids => ids
  | .collectedFor _ ids => ids
  | task => (task.waiting.map QueueCall.deleting).getD []

end QueueTask

def QueueTask.publishing : QueueTask → Bool
  | .publishIndex _ _ => true
  | _ => false

/-- The task is in `ensure_loaded`, before it has looked at the first table under its lock. -/
def QueueTask.checking : QueueTask → Bool
  | .checkLoaded _ => true
  | .lockLoad _ => true
  | _ => false

/-! ## Ids of the tables -/

/-- Messages are stored under their ids. -/
def KeyedById (messages : FMap String QueuedMessage) : Prop :=
  ∀ id m, messages.lookup id = some m → m.id = id

/-- The second table, once it is published, lists the id. -/
def Shared.Listed (s : Shared) (id : String) : Prop :=
  ∃ index, s.byConnection = some index ∧ ∃ c, id ∈ (index c).getD []

variable {index : String → Option (List String)} {id : String}

theorem listed_iff {s : Shared} (hi : s.byConnection = some index) :
    s.Listed id ↔ ∃ c, id ∈ (index c).getD [] := by
  unfold Listed
  simp [hi]

theorem mem_of_mem_update {c c' id : String} {ids : Option (List String)}
    (hids : ∀ k ∈ ids.getD [], k ∈ (index c).getD []) (h : id ∈ (update index c ids c').getD []) :
    id ∈ (index c').getD [] := by
  by_cases hc : c' = c
  · rw [hc, update_self] at h
    rw [hc]
    exact hids id h
  · rwa [update_of_ne hc] at h

theorem mem_of_mem_map_filter {ids : Option (List String)} {p : String → Bool}
    (h : id ∈ (ids.map fun l => l.filter p).getD []) : id ∈ ids.getD [] := by
  cases ids with
  | none => exact h
  | some l => exact (mem_filter.1 h).1

section

variable {messages : FMap String QueuedMessage}

theorem KeyedById.insert (h : KeyedById messages) (m : QueuedMessage) :
    KeyedById (messages.insert m.id m) := by
  intro id x hx
  rw [FMap.lookup_insert_ite] at hx
  split_ifs at hx with hid
  · rw [hid, ← Option.some.inj hx]
  · exact h id x hx

theorem KeyedById.erase (h : KeyedById messages) (k : String) : KeyedById (messages.erase k) := by
  intro id x hx
  rw [FMap.lookup_erase_ite] at hx
  split_ifs at hx
  exact h id x hx

theorem KeyedById.alter (h : KeyedById messages) {k : String}
    {f : Option QueuedMessage → Option QueuedMessage}
    (hf : ∀ x, f (messages.lookup k) = some x → x.id = k) : KeyedById (messages.alter k f) := by
  intro id x hx
  rw [FMap.lookup_alter] at hx
  split_ifs at hx with hid
  · rw [hid, hf x hx]
  · exact h id x hx

theorem KeyedById.alter_map (h : KeyedById messages) (k : String)
    {f : QueuedMessage → QueuedMessage} (hf : ∀ m, (f m).id = m.id) :
    KeyedById (messages.alter k (Option.map f)) := by
  refine h.alter fun x hx => ?_
  obtain ⟨m, hm, rfl⟩ := Option.map_eq_some_iff.1 hx
  rw [hf, h k m hm]

theorem KeyedById.modifyEach (h : KeyedById messages) {f : QueuedMessage → QueuedMessage}
    (hf : ∀ m, (f m).id = m.id) (ids : List String) : KeyedById (modifyEach f messages ids) := by
  induction ids generalizing messages with
  | nil => exact h
  | cons k ids ih => exact ih (h.alter_map k hf)

theorem KeyedById.updateInStorage {storage : Storage} (h : KeyedById storage) (m : QueuedMessage) :
    KeyedById (storage.updateInStorage m) := by
  refine KeyedById.alter h fun x hx => ?_
  obtain ⟨_, _, rfl⟩ := Option.map_eq_some_iff.1 hx
  rfl

theorem KeyedById.removeMessage {t : QueueTables} (h : KeyedById t.messages) (k : String) :
    KeyedById (t.removeMessage k).messages := by
  intro id x hx
  rw [lookup_removeMessage] at hx
  split_ifs at hx
  exact h id x hx

theorem mem_alter_map (m : FMap String QueuedMessage) (k id : String)
    (f : QueuedMessage → QueuedMessage) : id ∈ m.alter k (Option.map f) ↔ id ∈ m := by
  rw [mem_iff, mem_iff, FMap.lookup_alter]
  by_cases hid : id = k
  · subst hid
    cases m.lookup id <;> simp
  · simp [hid]

theorem mem_modifyEach (m : FMap String QueuedMessage) (f : QueuedMessage → QueuedMessage)
    (ids : List String) (id : String) : id ∈ modifyEach f m ids ↔ id ∈ m := by
  unfold modifyEach
  induction ids generalizing m with
  | nil => rfl
  | cons k ids ih => rw [foldl_cons, ih, mem_alter_map]

theorem mem_removeMessage (t : QueueTables) (k id : String) :
    id ∈ (t.removeMessage k).messages ↔ id ∈ t.messages ∧ id ≠ k := by
  rw [mem_iff, mem_iff, lookup_removeMessage]
  by_cases hid : id = k
  · simp [hid]
  · simp [hid]

theorem mem_erase_iff (m : FMap String QueuedMessage) (k id : String) :
    id ∈ m.erase k ↔ id ∈ m ∧ id ≠ k := by
  rw [mem_erase, and_comm]

theorem mem_insert_iff (m : FMap String QueuedMessage) (x : QueuedMessage) (id : String) :
    id ∈ m.insert x.id x ↔ id ∈ m ∨ id = x.id := by
  rw [mem_insert, or_comm]

theorem mem_idsOf_of_removeMessage {t : QueueTables} {k c id : String}
    (h : id ∈ (t.removeMessage k).idsOf c) : id ∈ t.idsOf c := by
  unfold removeMessage at h
  cases hk : t.messages.lookup k with
  | none => simpa only [hk] using h
  | some m =>
    simp only [hk, idsOf_dropId] at h
    split_ifs at h
    · exact (mem_filter.1 h).1
    · exact h

theorem mem_of_mem_expired {order : IterOrder String} {cutoff : Timestamp}
    (hkey : KeyedById messages)
    (h : id ∈ (expired order ⟨messages, index⟩ cutoff).map QueuedMessage.id) : id ∈ messages := by
  obtain ⟨m, hm, rfl⟩ := mem_map.1 h
  obtain ⟨k, -, hk⟩ := mem_filterMap.1 (mem_filter.1 hm).1
  exact mem_iff.2 ⟨m, by rw [hkey k m hk, hk]⟩

theorem mem_of_mem_expiredIdsFor {c id : String} {cutoff : Timestamp} (hkey : KeyedById messages)
    (h : id ∈ expiredIdsFor ⟨messages, index⟩ c cutoff) : id ∈ messages := by
  obtain ⟨m, hm, rfl⟩ := mem_map.1 h
  obtain ⟨k, -, hk⟩ := mem_filterMap.1 (mem_filter.1 hm).1
  exact mem_iff.2 ⟨m, by rw [hkey k m hk, hk]⟩

end

/-! ## What a part of a call does -/

/-- The ids of the storage and of the cache, before and after: they stay, an id is persisted, a
persisted id is cached, or an id is deleted from both. -/
inductive Effect (storage messages : FMap String QueuedMessage) (task : QueueTask)
    (storage' messages' : FMap String QueuedMessage) (task' : QueueTask) : Prop
  | quiet (hstorage : ∀ k, k ∈ storage' ↔ k ∈ storage)
      (hmessages : ∀ k, k ∈ messages' ↔ k ∈ messages)
      (hpersisted : task.persisted = none) (hpersisted' : task'.persisted = none)
  | persist (id : String) (hstorage : ∀ k, k ∈ storage' ↔ k ∈ storage ∨ k = id)
      (hmessages : ∀ k, k ∈ messages' ↔ k ∈ messages) (hadding : task.adding = some id)
      (hpersisted : task.persisted = none) (hpersisted' : task'.persisted = some id)
  | cache (id : String) (hstorage : ∀ k, k ∈ storage' ↔ k ∈ storage)
      (hmessages : ∀ k, k ∈ messages' ↔ k ∈ messages ∨ k = id)
      (hpersisted : task.persisted = some id) (hadding' : task'.adding = none)
  | delete (id : String) (hstorage : ∀ k, k ∈ storage' ↔ k ∈ storage ∧ k ≠ id)
      (hmessages : ∀ k, k ∈ messages' ↔ k ∈ messages ∧ k ≠ id) (hid : id ∈ task.deleting)
      (hpersisted : task.persisted = none) (hpersisted' : task'.persisted = none)

/-- A part of a call that finds both tables and leaves both. -/
structure Warm (s : Shared) (messages : FMap String QueuedMessage) (task : QueueTask) (s' : Shared)
    (messages' : FMap String QueuedMessage) (task' : QueueTask) : Prop where
  cached : s'.messages = some messages'
  published : s'.byConnection.isSome = true ∧ task'.publishing = false
  keyed : KeyedById s'.storage ∧ KeyedById messages'
  alive : task' ≠ .panicked
  listed : ∀ id, s'.Listed id → s.Listed id ∨ task.persisted = some id
  adding : ∀ id, task'.adding = some id → task.adding = some id
  deleting : ∀ id ∈ task'.deleting, id ∈ task.deleting ∨ id ∈ messages ∨ s.Listed id
  effect : Effect s.storage messages task s'.storage messages' task'

section

variable {task task' : QueueTask} {storage messages storage' messages' : FMap String QueuedMessage}

theorem persisted_active (h : task.persisted = some id) :
    task.active = true ∧ task.adding = some id := by
  cases task with
  | insertMessage m => exact ⟨rfl, h⟩
  | _ => cases h

theorem Effect.ids_subset (heffect : Effect storage messages task storage' messages' task')
    (id : String) :
    (id ∈ storage' → id ∈ storage ∨ task.adding = some id) ∧
      (id ∈ messages' → id ∈ messages ∨ (task.adding = some id ∧ task'.adding = none)) := by
  cases heffect with
  | quiet hstorage hmessages hpersisted hpersisted' =>
    exact ⟨fun h => .inl ((hstorage id).1 h), fun h => .inl ((hmessages id).1 h)⟩
  | persist k hstorage hmessages hadding hpersisted hpersisted' =>
    refine ⟨fun h => ((hstorage id).1 h).imp_right ?_, fun h => .inl ((hmessages id).1 h)⟩
    rintro rfl
    exact hadding
  | cache k hstorage hmessages hpersisted hadding' =>
    refine ⟨fun h => .inl ((hstorage id).1 h), fun h => ((hmessages id).1 h).imp_right ?_⟩
    rintro rfl
    exact ⟨(persisted_active hpersisted).2, hadding'⟩
  | delete k hstorage hmessages hid hpersisted hpersisted' =>
    exact ⟨fun h => .inl ((hstorage id).1 h).1, fun h => .inl ((hmessages id).1 h).1⟩

theorem Effect.adding_of_persisted (heffect : Effect storage messages task storage' messages' task')
    (h : task.persisted = some id) : task.adding = some id ∧ task'.adding = none := by
  refine ⟨(persisted_active h).2, ?_⟩
  cases heffect with
  | cache k hstorage hmessages hpersisted hadding' => exact hadding'
  | quiet _ _ hpersisted | persist _ _ _ _ hpersisted | delete _ _ _ _ hpersisted =>
    rw [hpersisted] at h
    cases h

end

section

variable {s s' : Shared} {messages : FMap String QueuedMessage}
  {index : String → Option (List String)} {task task' : QueueTask} {order : IterOrder String}
    {t : ℕ}
  (hm : s.messages = some messages) (hi : s.byConnection = some index)
  (hkeyed : KeyedById s.storage ∧ KeyedById messages)

include hm hi

theorem tables_eq : s.tables = some ⟨messages, index⟩ := by
  unfold tables
  rw [hm, hi]

include hkeyed

variable {index' : String → Option (List String)}

section

variable (hstorage : s'.storage = s.storage) (hpersisted : task.persisted = none)
  (hpersisted' : task'.persisted = none)
  (hadding : ∀ id, task'.adding = some id → task.adding = some id)
  (hdeleting : ∀ id ∈ task'.deleting, id ∈ task.deleting ∨ id ∈ messages ∨ s.Listed id)
  (hpublishing : task'.publishing = false) (halive : task' ≠ .panicked)
include hstorage hpersisted hpersisted' hadding hdeleting hpublishing halive

omit hm in
theorem warm_of_index (hmessages : s'.messages = some messages)
    (hindex : s'.byConnection = some index')
    (hlisted : ∀ c, ∀ id ∈ (index' c).getD [], id ∈ (index c).getD []) :
    Warm s messages task s' messages task' where
  cached := hmessages
  published := ⟨by rw [hindex]; rfl, hpublishing⟩
  keyed := ⟨hstorage ▸ hkeyed.1, hkeyed.2⟩
  alive := halive
  listed id hid := by
    obtain ⟨c, hc⟩ := (listed_iff hindex).1 hid
    exact .inl ((listed_iff hi).2 ⟨c, hlisted c id hc⟩)
  adding := hadding
  deleting := hdeleting
  effect := .quiet (fun _ => by rw [hstorage]) (fun _ => Iff.rfl) hpersisted hpersisted'

theorem warm_of_look (hmessages : s'.messages = s.messages)
    (hindex : s'.byConnection = s.byConnection) : Warm s messages task s' messages task' :=
  warm_of_index hi hkeyed hstorage hpersisted hpersisted' hadding hdeleting hpublishing halive
    (hmessages.trans hm) (hindex.trans hi) fun _ _ h => h

end

theorem warm_returned {reply : QueueReply} (hstorage : s'.storage = s.storage)
    (hmessages : s'.messages = s.messages) (hindex : s'.byConnection = s.byConnection)
    (hpersisted : task.persisted = none) : Warm s messages task s' messages (.returned reply) :=
  warm_of_look hm hi hkeyed hstorage hpersisted rfl (fun _ h => by cases h)
    (fun _ h => by cases h) rfl (by simp) hmessages hindex

theorem warm_read {reply : QueueTables → QueueReply} (hpersisted : task.persisted = none)
    (h : s.read reply = some (s', task')) : ∃ messages',
      Warm s messages task s' messages' task' := by
  unfold Shared.read at h
  rw [tables_eq hm hi] at h
  split_ifs at h
  cases h
  exact ⟨_, warm_returned hm hi hkeyed rfl rfl rfl hpersisted⟩

theorem warm_lockTables {k : QueueTables → QueueTables × QueueTask}
    (hk : (k ⟨messages, index⟩).1 = ⟨messages, index'⟩)
    (hlisted : ∀ c, ∀ id ∈ (index' c).getD [], id ∈ (index c).getD [])
    (hpersisted : task.persisted = none) (hpersisted' : (k ⟨messages, index⟩).2.persisted = none)
    (hadding : (k ⟨messages, index⟩).2.adding = none)
    (hdeleting : ∀ id ∈ (k ⟨messages, index⟩).2.deleting, id ∈ task.deleting ∨ id ∈ messages ∨
      s.Listed id)
    (hpublishing : (k ⟨messages, index⟩).2.publishing = false)
    (halive : (k ⟨messages, index⟩).2 ≠ .panicked) (h : s.lockTables t k = some (s', task')) :
    ∃ messages', Warm s messages task s' messages' task' := by
  unfold lockTables at h
  rw [tables_eq hm hi] at h
  split_ifs at h
  cases h
  refine ⟨messages, warm_of_index hi hkeyed rfl hpersisted hpersisted' (fun id hid => ?_) hdeleting
    hpublishing halive ?_ ?_ hlisted⟩
  rotate_left
  · simp only [lockBoth, setTables, hk]
  · simp only [lockBoth, setTables, hk]
  · rw [hadding] at hid
    cases hid

theorem warm_of_storage {storage : Storage} (hids : ∀ k, k ∈ storage ↔ k ∈ s.storage)
    (hstorage : KeyedById storage) (hpersisted : task.persisted = none)
    (hpersisted' : task'.persisted = none) (hadding : task'.adding = none)
    (hdeleting : task'.deleting = []) (hpublishing : task'.publishing = false)
    (halive : task' ≠ .panicked) :
    Warm s messages task { s with storage := storage } messages task' where
  cached := hm
  published := ⟨by simp only [hi, Option.isSome_some], hpublishing⟩
  keyed := ⟨hstorage, hkeyed.2⟩
  alive := halive
  listed _ h := .inl h
  adding id h := by
    rw [hadding] at h
    cases h
  deleting id h := by
    rw [hdeleting] at h
    cases h
  effect := .quiet hids (fun _ => Iff.rfl) hpersisted hpersisted'

theorem warm_enter {c : QueueCall} (h : s.enter order t c = some (s', task')) :
    ∃ messages', Warm s messages (.enter c) s' messages' task' := by
  cases c with
  | addMessage m =>
    by_cases hmem : m.id ∈ s.storage
    · simp only [enter, Storage.persist, if_pos hmem] at h
      cases h
      exact ⟨_, warm_returned hm hi hkeyed rfl rfl rfl rfl⟩
    · simp only [enter, Storage.persist, if_neg hmem] at h
      cases h
      refine ⟨messages, hm, ⟨by simp only [hi, Option.isSome_some], rfl⟩,
        ⟨hkeyed.1.insert m, hkeyed.2⟩, by simp, fun _ h => .inl h, fun _ h => h,
        fun _ h => (by cases h), ?_⟩
      exact .persist m.id (mem_insert_iff _ m) (fun _ => Iff.rfl) rfl rfl rfl
  | getPendingCount c key | getTotalBytes c key
  | getOldestMessageTime c key => exact warm_read hm hi hkeyed rfl h
  | takeFromQueue c key limit =>
    simp only [enter, tables_eq hm hi] at h
    split_ifs at h
    cases h
    refine ⟨_, rfl, ⟨rfl, rfl⟩, ⟨hkeyed.1, ?_⟩, by simp, fun id h => .inl ?_,
      fun _ h => (by cases h), fun _ h => (by cases h), ?_⟩
    · exact hkeyed.2.modifyEach (f := QueuedMessage.markSending) (fun _ => rfl) _
    · exact (listed_iff hi).2 ((listed_iff rfl).1 h)
    · exact .quiet (fun _ => Iff.rfl) (mem_modifyEach _ _ _) rfl rfl
  | removeMessages ids =>
    exact warm_lockTables hm hi hkeyed rfl (fun _ _ h => h) rfl rfl rfl (fun _ h => .inl h) rfl
      (by simp) h
  | returnToPending ids =>
    simp only [enter, hm] at h
    split_ifs at h
    cases h
    exact ⟨_, warm_of_look hm hi hkeyed rfl rfl rfl (fun _ h => by cases h)
      (fun _ h => by cases h) rfl (by simp) hm.symm rfl⟩
  | findById id =>
    simp only [enter, hm] at h
    split_ifs at h
    cases h
    exact ⟨_, warm_returned hm hi hkeyed rfl rfl rfl rfl⟩
  | clearConnection c =>
    refine warm_lockTables hm hi hkeyed rfl (fun c' id hid => ?_) rfl rfl rfl (fun id hid => ?_) rfl
      (by simp) h
    · exact mem_of_mem_update (fun k hk => by cases hk) hid
    · exact .inr (.inr ⟨index, hi, c, hid⟩)
  | deleteExpired cutoff =>
    simp only [enter, hm] at h
    split_ifs at h
    split at h
    · cases h
      exact ⟨_, warm_returned hm hi hkeyed rfl rfl rfl rfl⟩
    · cases h
      exact ⟨_, warm_of_look hm hi hkeyed rfl rfl rfl (fun _ h => by cases h)
        (fun id hid => .inr (.inl (mem_of_mem_expired hkeyed.2 hid))) rfl (by simp) rfl rfl⟩
  | deleteExpiredForConnection c cutoff =>
    simp only [enter, tables_eq hm hi] at h
    split_ifs at h
    split at h
    · cases h
      exact ⟨_, warm_returned hm hi hkeyed rfl rfl rfl rfl⟩
    · cases h
      exact ⟨_, warm_of_look hm hi hkeyed rfl rfl rfl (fun _ h => by cases h)
        (fun id hid => .inr (.inl (mem_of_mem_expiredIdsFor hkeyed.2 hid))) rfl (by simp) rfl rfl⟩

omit hm in
theorem warm_of_delete {tables : QueueTables}
    (hmessages : ∀ k, k ∈ tables.messages ↔ k ∈ messages ∧ k ≠ id)
    (hkeyed' : KeyedById tables.messages)
    (hlisted : ∀ c, ∀ k ∈ tables.idsOf c, k ∈ (index c).getD []) (hid : id ∈ task.deleting)
    (hpersisted : task.persisted = none) (hpersisted' : task'.persisted = none)
    (hadding : task'.adding = none) (hdeleting : ∀ k ∈ task'.deleting, k ∈ task.deleting)
    (hpublishing : task'.publishing = false) (halive : task' ≠ .panicked) :
    Warm s messages task
      { s.setTables tables with storage := s.storage.deleteFromStorage id } tables.messages task'
        where
  cached := rfl
  published := ⟨rfl, hpublishing⟩
  keyed := ⟨hkeyed.1.erase id, hkeyed'⟩
  alive := halive
  listed k hk := by
    obtain ⟨c, hc⟩ := (listed_iff rfl).1 hk
    exact .inl ((listed_iff hi).2 ⟨c, hlisted c k hc⟩)
  adding k hk := by
    rw [hadding] at hk
    cases hk
  deleting k hk := .inl (hdeleting k hk)
  effect := .delete id (mem_erase_iff _ _) hmessages hid hpersisted hpersisted'

theorem warm_next (hpublishing : task.publishing = false)
    (h : s.next order t task = some (s', task')) :
    ∃ messages', Warm s messages task s' messages' task' := by
  cases task with
  | checkLoaded c | lockLoad c =>
    simp only [Shared.next, hm, Option.isSome_some] at h
    split_ifs at h
    cases h
    exact ⟨_, warm_of_look hm hi hkeyed rfl rfl rfl (fun _ h => h) (fun _ h => .inl h) rfl (by simp)
      rfl rfl⟩
  | publishIndex c index => cases hpublishing
  | enter c => exact warm_enter hm hi hkeyed h
  | insertMessage m =>
    simp only [Shared.next, tables_eq hm hi] at h
    split_ifs at h
    cases h
    refine ⟨_, rfl, ⟨rfl, rfl⟩, ⟨hkeyed.1, hkeyed.2.insert m⟩, by simp, fun id hid => ?_,
      fun _ h => (by cases h), fun _ h => (by cases h), ?_⟩
    · obtain ⟨c, hc⟩ := (listed_iff rfl).1 hid
      have hmem : id ∈ (addMessage ⟨messages, index⟩ m).idsOf c := hc
      rw [idsOf_addMessage] at hmem
      split_ifs at hmem with hconn
      · rcases mem_append.1 hmem with hold | hnew
        · exact .inl ((listed_iff hi).2 ⟨c, hold⟩)
        · exact .inr (congrArg some (mem_singleton.1 hnew).symm)
      · exact .inl ((listed_iff hi).2 ⟨c, hmem⟩)
    · exact .cache m.id (fun _ => Iff.rfl) (mem_insert_iff _ m) rfl rfl
  | writeBack taken toPersist =>
    cases toPersist with
    | nil =>
      cases h
      exact ⟨_, warm_returned hm hi hkeyed rfl rfl rfl rfl⟩
    | cons m rest =>
      cases h
      exact ⟨_, warm_of_storage hm hi hkeyed (mem_alter_map _ _ · _) (hkeyed.1.updateInStorage m)
        rfl rfl rfl rfl rfl (by simp)⟩
  | removing reply ids =>
    cases ids with
    | nil =>
      cases h
      exact ⟨_, warm_returned hm hi hkeyed rfl rfl rfl rfl⟩
    | cons id ids =>
      simp only [Shared.next, tables_eq hm hi] at h
      cases h
      exact ⟨_, warm_of_delete hi hkeyed (mem_removeMessage _ _) (hkeyed.2.removeMessage id)
        (fun c k hk => mem_idsOf_of_removeMessage hk) (by simp [QueueTask.deleting]) rfl rfl rfl
        (fun k hk => mem_cons_of_mem _ hk) rfl (by simp)⟩
  | erasing reply ids c expired =>
    cases ids with
    | nil =>
      simp only [Shared.next, tables_eq hm hi] at h
      cases h
      exact ⟨_, warm_of_index hi hkeyed rfl rfl rfl (fun _ h => by cases h)
        (fun _ h => by cases h) rfl (by simp) rfl rfl
        fun c' id hid => mem_of_mem_update (fun k hk => mem_of_mem_map_filter hk) hid⟩
    | cons id ids =>
      simp only [Shared.next, tables_eq hm hi] at h
      cases h
      exact ⟨_, warm_of_delete hi hkeyed (mem_erase_iff _ _) (hkeyed.2.erase id)
        (fun c k hk => hk) (by simp [QueueTask.deleting]) rfl rfl rfl
        (fun k hk => mem_cons_of_mem _ hk) rfl (by simp)⟩
  | returning ids =>
    cases ids with
    | nil =>
      cases h
      exact ⟨_, warm_returned hm hi hkeyed rfl rfl rfl rfl⟩
    | cons id ids =>
      simp only [Shared.next, hm] at h
      cases h
      refine ⟨_, rfl, ⟨by simp only [hi, Option.isSome_some], rfl⟩,
        ⟨?_, hkeyed.2.alter_map id (fun _ => rfl)⟩, by simp, fun _ h => .inl h,
        fun _ h => (by cases h), fun _ h => (by cases h), ?_⟩
      · cases (messages.alter id (Option.map QueuedMessage.markPending)).lookup id with
        | none => exact hkeyed.1
        | some m => exact hkeyed.1.updateInStorage m
      · refine .quiet (fun k => ?_) (mem_alter_map _ _ · _) rfl rfl
        cases (messages.alter id (Option.map QueuedMessage.markPending)).lookup id with
        | none => rfl
        | some m => exact mem_alter_map _ _ _ _
  | collected ids | collectedFor c ids =>
    exact warm_lockTables hm hi hkeyed rfl (fun _ _ h => h) rfl rfl rfl (fun _ h => .inl h) rfl
      (by simp) h
  | returned reply | panicked => cases h

end

/-! ## Adds and removals of unfinished calls -/

/-- The tasks add ids that are in use, each of them only one, and no other task deletes it. -/
structure Ordered (tasks : ℕ → Option QueueTask) (used : List String) : Prop where
  alive : ∀ t, tasks t ≠ some .panicked
  adding : ∀ t task id, tasks t = some task → task.adding = some id → id ∈ used
  unique : ∀ t t' task task' id, tasks t = some task → tasks t' = some task' →
    task.adding = some id → task'.adding = some id → t = t'
  apart : ∀ t t' task task' id, tasks t = some task → tasks t' = some task' →
    task.adding = some id → id ∉ task'.deleting

section

variable {tasks : ℕ → Option QueueTask} {used : List String} {t : ℕ} {task task' : QueueTask}

theorem Ordered.update (h : Ordered tasks used) (ht : tasks t = some task)
    (halive : task' ≠ .panicked) (hadding : ∀ id, task'.adding = some id → task.adding = some id)
    (hdeleting : ∀ id ∈ task'.deleting, id ∈ task.deleting ∨
      ∀ u x, tasks u = some x → x.adding ≠ some id) :
    Ordered (Function.update tasks t (some task')) used := by
  -- the add of a task after the step is one before it
  have hold : ∀ u x id, Function.update tasks t (some task') u = some x → x.adding = some id →
      ∃ y, tasks u = some y ∧ y.adding = some id := by
    intro u x id hu hx
    rcases update_eq_some hu with ⟨rfl, rfl⟩ | ⟨-, hu⟩
    · exact ⟨task, ht, hadding id hx⟩
    · exact ⟨x, hu, hx⟩
  refine ⟨fun u hu => ?_, fun u x id hu hx => ?_, fun u u' x x' id hu hu' hx hx' => ?_,
    fun u u' x x' id hu hu' hx hmem => ?_⟩
  · rcases update_eq_some hu with ⟨-, hx⟩ | ⟨-, hu⟩
    · exact halive hx.symm
    · exact h.alive u hu
  · obtain ⟨y, hy, hadd⟩ := hold u x id hu hx
    exact h.adding u y id hy hadd
  · obtain ⟨y, hy, hadd⟩ := hold u x id hu hx
    obtain ⟨y', hy', hadd'⟩ := hold u' x' id hu' hx'
    exact h.unique u u' y y' id hy hy' hadd hadd'
  · obtain ⟨y, hy, hadd⟩ := hold u x id hu hx
    rcases update_eq_some hu' with ⟨-, rfl⟩ | ⟨-, hu'⟩
    · rcases hdeleting id hmem with hmem | hnone
      · exact h.apart u t y task id hy ht hadd hmem
      · exact hnone u y hy hadd
    · exact h.apart u u' y x' id hy hu' hadd hmem

theorem QueueCall.adding_deleting {c : QueueCall} (h : c.adding = some id) : id ∉ c.deleting := by
  cases c with
  | addMessage m => simp [QueueCall.deleting]
  | _ => cases h

theorem Ordered.call (h : Ordered tasks used) {c : QueueCall} (hfresh : ∀ id ∈ c.adding, id ∉ used)
    (hadding : ∀ id, c.adding = some id → ∀ u x, tasks u = some x → id ∉ x.deleting)
    (hdeleting : ∀ id ∈ c.deleting, ∀ u x, tasks u = some x → x.adding ≠ some id) :
    Ordered (Function.update tasks t (some (.checkLoaded c))) (used ++ c.adding.toList) := by
  -- no task adds the id yet
  have hnew : ∀ id, c.adding = some id → ∀ u x, tasks u = some x → x.adding ≠ some id :=
    fun id hid u x hu hx => hfresh id hid (h.adding u x id hu hx)
  refine ⟨fun u hu => ?_, fun u x id hu hx => ?_, fun u u' x x' id hu hu' hx hx' => ?_,
    fun u u' x x' id hu hu' hx hmem => ?_⟩
  · rcases update_eq_some hu with ⟨-, hx⟩ | ⟨-, hu⟩
    · cases hx
    · exact h.alive u hu
  · rcases update_eq_some hu with ⟨-, rfl⟩ | ⟨-, hu⟩
    · exact mem_append_right _ (Option.mem_toList.2 hx)
    · exact mem_append_left _ (h.adding u x id hu hx)
  · rcases update_eq_some hu with ⟨heq, rfl⟩ | ⟨-, hu⟩ <;>
      rcases update_eq_some hu' with ⟨heq', rfl⟩ | ⟨-, hu'⟩
    · exact heq.trans heq'.symm
    · exact absurd hx' (hnew id hx u' x' hu')
    · exact absurd hx (hnew id hx' u x hu)
    · exact h.unique u u' x x' id hu hu' hx hx'
  · rcases update_eq_some hu with ⟨-, rfl⟩ | ⟨-, hu⟩ <;>
      rcases update_eq_some hu' with ⟨-, rfl⟩ | ⟨-, hu'⟩
    · exact QueueCall.adding_deleting hx hmem
    · exact hadding id hx u' x' hu' hmem
    · exact hdeleting id hmem u x hu hx
    · exact h.apart u u' x x' id hu hu' hx hmem

end

/-! ## The invariant -/

namespace QueueSystem

/-- A call starts while nobody adds what it deletes or deletes what it adds; and no call finds
the first table published and the second not. -/
def Keeps (s : QueueSystem) : QueueAction → Prop
  | .call _ c =>
    (∀ id, c.adding = some id → ∀ t task, s.tasks t = some task → id ∉ task.deleting) ∧
      ∀ id ∈ c.deleting, ∀ t task, s.tasks t = some task → task.adding ≠ some id
  | .run t _ => ∀ task, s.tasks t = some task → task.checking = true →
      s.shared.messages.isSome = true → s.shared.byConnection.isSome = true
  | .crash => True

/-- Nothing is loaded; all calls are at the start of `ensure_loaded`. -/
structure Cold (s : QueueSystem) : Prop where
  messages_eq : s.shared.messages = none
  byConnection_eq : s.shared.byConnection = none
  checking : ∀ t task, s.tasks t = some task → task.checking = true
  fresh : ∀ t task id, s.tasks t = some task → task.adding = some id → id ∉ s.shared.storage

/-- One call has published the first table; all others are at the start of `ensure_loaded`. -/
structure Half (s : QueueSystem) (t : ℕ) (c : QueueCall)
    (messages : FMap String QueuedMessage) (index : String → Option (List String)) : Prop where
  messages_eq : s.shared.messages = some messages
  byConnection_eq : s.shared.byConnection = none
  keyed : KeyedById messages
  ids : ∀ id, id ∈ s.shared.storage ↔ id ∈ messages
  indexed : ∀ c, ∀ id ∈ (index c).getD [], id ∈ s.shared.storage
  publishing : s.tasks t = some (.publishIndex c index)
  checking : ∀ u task, s.tasks u = some task → u ≠ t → task.checking = true
  fresh : ∀ u task id, s.tasks u = some task → task.adding = some id → id ∉ s.shared.storage

/-- Both tables are published: the storage has the ids of the first and those that are persisted
and not yet cached. -/
structure Loaded (s : QueueSystem) (messages : FMap String QueuedMessage)
    (index : String → Option (List String)) : Prop where
  messages_eq : s.shared.messages = some messages
  byConnection_eq : s.shared.byConnection = some index
  keyed : KeyedById messages
  published : ∀ t task, s.tasks t = some task → task.publishing = false
  ids : ∀ id, id ∈ s.shared.storage ↔
    id ∈ messages ∨ ∃ t task, s.tasks t = some task ∧ task.persisted = some id
  fresh : ∀ t task id, s.tasks t = some task → task.adding = some id →
    id ∉ messages ∧ ¬ s.shared.Listed id
  cached : ∀ id ∈ messages, id ∈ s.used
  listed : ∀ id, s.shared.Listed id → id ∈ s.used

structure Safe (s : QueueSystem) : Prop where
  keyed : KeyedById s.shared.storage
  stored : ∀ id ∈ s.shared.storage, id ∈ s.used
  ordered : Ordered s.tasks s.used
  phase : Cold s ∨ (∃ t c messages index, Half s t c messages index) ∨
    ∃ messages index, Loaded s messages index

/-- No `unwrap` has failed, and when all calls have returned, the cache and the storage hold the
same ids. -/
def Sound (s : QueueSystem) : Prop :=
  (∀ t, s.tasks t ≠ some .panicked) ∧
    ((∀ t task, s.tasks t = some task → task.active = false) →
      ∀ messages, s.shared.messages = some messages → ∀ id, id ∈ s.shared.storage ↔ id ∈ messages)

variable {s s' : QueueSystem}

theorem safe_idle {storage : Storage} {used : List String} (hkeyed : KeyedById storage)
    (hstored : ∀ id ∈ storage, id ∈ used) :
    Safe ⟨⟨storage, none, none, none, none⟩, fun _ => none, used⟩ where
  keyed := hkeyed
  stored := hstored
  ordered := {
    alive := fun _ h => by cases h
    adding := fun _ _ _ h => by cases h
    unique := fun _ _ _ _ _ h => by cases h
    apart := fun _ _ _ _ _ h => by cases h }
  phase := .inl {
    messages_eq := rfl
    byConnection_eq := rfl
    checking := fun _ _ h => by cases h
    fresh := fun _ _ _ h => by cases h }

theorem safe_start : Safe start :=
  safe_idle (fun _ _ h => by simp at h) (fun _ h => absurd h (notMem_empty))

theorem Safe.sound (h : Safe s) : Sound s := by
  refine ⟨h.ordered.alive, fun hdone messages hmessages id => ?_⟩
  rcases h.phase with hcold | ⟨t, c, messages', index, hhalf⟩ | ⟨messages', index, hloaded⟩
  · rw [hcold.messages_eq] at hmessages
    cases hmessages
  · have hactive := hdone t _ hhalf.publishing
    cases hactive
  · obtain rfl := Option.some.inj (hloaded.messages_eq.symm.trans hmessages)
    refine (hloaded.ids id).trans (or_iff_left ?_)
    rintro ⟨t, task, ht, hpersisted⟩
    have hactive := hdone t task ht
    rw [(persisted_active hpersisted).1] at hactive
    cases hactive

theorem Safe.crash (h : Safe s) (hstep : s.step .crash = some s') : Safe s' := by
  cases hstep
  exact safe_idle h.keyed h.stored

theorem Safe.call (h : Safe s) {t : ℕ} {c : QueueCall} (hk : s.Keeps (.call t c))
    (hstep : s.step (.call t c) = some s') : Safe s' := by
  simp only [step] at hstep
  split at hstep
  · cases hstep
  · next hfree =>
    split_ifs at hstep with hfresh
    cases hstep
    have hstored : ∀ id ∈ s.shared.storage, id ∈ s.used ++ c.adding.toList :=
      fun id hid => mem_append_left _ (h.stored id hid)
    -- an add of the new call is not stored
    have hnew : ∀ id, c.adding = some id → id ∉ s.shared.storage :=
      fun id hid hmem => hfresh id hid (h.stored id hmem)
    refine ⟨h.keyed, hstored, h.ordered.call hfresh hk.1 hk.2, ?_⟩
    rcases h.phase with hcold | ⟨u, c', messages, index, hhalf⟩ | ⟨messages, index, hloaded⟩
    · refine .inl ⟨hcold.messages_eq, hcold.byConnection_eq, fun u x hu => ?_,
        fun u x id hu hx => ?_⟩
      · rcases update_eq_some hu with ⟨-, rfl⟩ | ⟨-, hu⟩
        · rfl
        · exact hcold.checking u x hu
      · rcases update_eq_some hu with ⟨-, rfl⟩ | ⟨-, hu⟩
        · exact hnew id hx
        · exact hcold.fresh u x id hu hx
    · refine .inr (.inl ⟨u, c', messages, index, hhalf.messages_eq, hhalf.byConnection_eq,
        hhalf.keyed,
        hhalf.ids, hhalf.indexed, ?_, fun v x hv hne => ?_, fun v x id hv hx => ?_⟩)
      · have hne : u ≠ t := fun heq => by
          rw [← heq, hhalf.publishing] at hfree
          cases hfree
        exact (update_of_ne hne _ _).trans hhalf.publishing
      · rcases update_eq_some hv with ⟨-, rfl⟩ | ⟨-, hv⟩
        · rfl
        · exact hhalf.checking v x hv hne
      · rcases update_eq_some hv with ⟨-, rfl⟩ | ⟨-, hv⟩
        · exact hnew id hx
        · exact hhalf.fresh v x id hv hx
    · refine .inr (.inr ⟨messages, index, hloaded.messages_eq, hloaded.byConnection_eq,
        hloaded.keyed,
        fun v x hv => ?_, fun id => ?_, fun v x id hv hx => ?_,
        fun id hid => mem_append_left _ (hloaded.cached id hid),
        fun id hid => mem_append_left _ (hloaded.listed id hid)⟩)
      · rcases update_eq_some hv with ⟨-, rfl⟩ | ⟨-, hv⟩
        · rfl
        · exact hloaded.published v x hv
      · rw [hloaded.ids id]
        refine or_congr_right ⟨?_, ?_⟩
        · rintro ⟨v, x, hv, hx⟩
          have hne : v ≠ t := fun heq => by
            rw [← heq, hv] at hfree
            cases hfree
          exact ⟨v, x, (update_of_ne hne _ _).trans hv, hx⟩
        · rintro ⟨v, x, hv, hx⟩
          rcases update_eq_some hv with ⟨-, rfl⟩ | ⟨-, hv⟩
          · cases hx
          · exact ⟨v, x, hv, hx⟩
      · rcases update_eq_some hv with ⟨-, rfl⟩ | ⟨-, hv⟩
        · exact ⟨fun hmem => hfresh id hx (hloaded.cached id hmem),
            fun hmem => hfresh id hx (hloaded.listed id hmem)⟩
        · exact hloaded.fresh v x id hv hx

section

variable {t : ℕ} {order : IterOrder String} {task task' : QueueTask} {shared : Shared}

/-- A first access looks at the tables, or loads and publishes the first. -/
theorem Cold.run (hcold : Cold s) (h : Safe s) (ht : s.tasks t = some task)
    (hnext : s.shared.next order t task = some (shared, task')) :
    Safe { s with shared := shared, tasks := update s.tasks t (some task') } := by
  cases task with
  | checkLoaded c =>
    simp only [Shared.next, hcold.messages_eq, Option.isSome_none, Bool.false_eq_true, if_false]
      at hnext
    split_ifs at hnext
    cases hnext
    refine ⟨h.keyed, h.stored, h.ordered.update ht (by simp) (fun _ h => h) (fun _ h => .inl h),
      .inl ⟨hcold.messages_eq, hcold.byConnection_eq, fun u x hu => ?_, fun u x id hu hx => ?_⟩⟩
    · rcases update_eq_some hu with ⟨-, rfl⟩ | ⟨-, hu⟩
      · rfl
      · exact hcold.checking u x hu
    · rcases update_eq_some hu with ⟨-, rfl⟩ | ⟨-, hu⟩
      · exact hcold.fresh t _ id ht hx
      · exact hcold.fresh u x id hu hx
  | lockLoad c =>
    have hkeyed : StorageBacked.Keyed ⟨s.shared.storage, none⟩ := ⟨rfl, h.keyed⟩
    obtain ⟨tables, hsynced, hload, hlookup⟩ := hkeyed.load order
    have hids : ∀ id, id ∈ tables.messages ↔ id ∈ s.shared.storage := by
      intro id
      rw [mem_iff, mem_iff, hlookup]
      simp
    simp only [Shared.next, hcold.messages_eq, Option.isSome_none, Bool.false_eq_true, if_false,
      hload] at hnext
    split_ifs at hnext
    cases hnext
    refine ⟨hsynced.valid.key, fun id hid => h.stored id ((hids id).1 hid),
      h.ordered.update ht (by simp) (fun _ h => h) (fun _ h => .inl h), .inr (.inl ⟨t, c,
        tables.messages, tables.byConnection, rfl, hcold.byConnection_eq, hsynced.valid.key,
        fun _ => Iff.rfl, fun c id hid => ?_, update_self _ _ _, fun u x hu hne => ?_,
        fun u x id hu hx hmem => ?_⟩)⟩
    · obtain ⟨m, hm, -⟩ := (hsynced.valid.indexed c id).1 hid
      exact mem_iff.2 ⟨m, hm⟩
    · rcases update_eq_some hu with ⟨heq, -⟩ | ⟨-, hu⟩
      · exact absurd heq hne
      · exact hcold.checking u x hu
    · rcases update_eq_some hu with ⟨-, rfl⟩ | ⟨-, hu⟩
      · exact hcold.fresh t _ id ht hx ((hids id).1 hmem)
      · exact hcold.fresh u x id hu hx ((hids id).1 hmem)
  | _ => cases hcold.checking t _ ht

theorem checking_persisted (h : task.checking = true) :
    task.persisted = none ∧ task.publishing = false := by
  cases task with
  | checkLoaded c | lockLoad c => exact ⟨rfl, rfl⟩
  | _ => cases h

/-- The second table is published before anyone looks at the first. -/
theorem Half.run {u : ℕ} {c : QueueCall} {messages : FMap String QueuedMessage}
    (hhalf : Half s u c messages index) (h : Safe s) (hk : s.Keeps (.run t order))
    (ht : s.tasks t = some task) (hnext : s.shared.next order t task = some (shared, task')) :
    Safe { s with shared := shared, tasks := update s.tasks t (some task') } := by
  have htu : t = u := by
    by_contra hne
    have hpublished := hk task ht (hhalf.checking t task ht hne) (by rw [hhalf.messages_eq]; rfl)
    rw [hhalf.byConnection_eq] at hpublished
    cases hpublished
  subst htu
  obtain rfl := Option.some.inj (ht.symm.trans hhalf.publishing)
  simp only [Shared.next] at hnext
  split_ifs at hnext
  cases hnext
  -- no task is past `ensure_loaded`
  have hbefore : ∀ v x, update s.tasks t (some (.enter c)) v = some x →
      x.persisted = none ∧ x.publishing = false := by
    intro v x hv
    rcases update_eq_some hv with ⟨-, rfl⟩ | ⟨hne, hv⟩
    · exact ⟨rfl, rfl⟩
    · exact checking_persisted (hhalf.checking v x hv hne)
  have hfresh : ∀ v x id, update s.tasks t (some (.enter c)) v = some x →
      x.adding = some id → id ∉ s.shared.storage := by
    intro v x id hv hx
    rcases update_eq_some hv with ⟨-, rfl⟩ | ⟨-, hv⟩
    · exact hhalf.fresh t _ id ht hx
    · exact hhalf.fresh v x id hv hx
  refine ⟨h.keyed, h.stored, h.ordered.update ht (by simp) (fun _ h => h) (fun _ h => .inl h),
    .inr (.inr ⟨messages, index, hhalf.messages_eq, rfl, hhalf.keyed, fun v x hv =>
      (hbefore v x hv).2,
      fun id => ?_, fun v x id hv hx => ⟨fun hmem => ?_, fun hlisted => ?_⟩,
      fun id hid => h.stored id ((hhalf.ids id).2 hid), fun id hid => ?_⟩)⟩
  · refine (hhalf.ids id).trans (or_iff_left ?_).symm
    rintro ⟨v, x, hv, hx⟩
    rw [(hbefore v x hv).1] at hx
    cases hx
  · exact hfresh v x id hv hx ((hhalf.ids id).2 hmem)
  · obtain ⟨c', hc'⟩ := (listed_iff rfl).1 hlisted
    exact hfresh v x id hv hx (hhalf.indexed c' id hc')
  · obtain ⟨c', hc'⟩ := (listed_iff rfl).1 hid
    exact h.stored id (hhalf.indexed c' id hc')

/-- Some task other than `t` has persisted the id. -/
def PersistedBeside (tasks : ℕ → Option QueueTask) (t : ℕ) (id : String) : Prop :=
  ∃ u x, u ≠ t ∧ tasks u = some x ∧ x.persisted = some id

theorem persisted_iff {tasks : ℕ → Option QueueTask} (ht : tasks t = some task) (id : String) :
    (∃ u x, tasks u = some x ∧ x.persisted = some id) ↔
      PersistedBeside tasks t id ∨ task.persisted = some id := by
  constructor
  · rintro ⟨u, x, hu, hx⟩
    by_cases hne : u = t
    · rw [hne, ht] at hu
      exact .inr (Option.some.inj hu ▸ hx)
    · exact .inl ⟨u, x, hne, hu, hx⟩
  · rintro (⟨u, x, -, hu, hx⟩ | hx)
    · exact ⟨u, x, hu, hx⟩
    · exact ⟨t, task, ht, hx⟩

theorem persistedBeside_update (tasks : ℕ → Option QueueTask) (t : ℕ) (x : Option QueueTask)
    (id : String) : PersistedBeside (update tasks t x) t id ↔ PersistedBeside tasks t id := by
  refine exists_congr fun u => exists_congr fun y => and_congr_right fun hne => ?_
  rw [update_of_ne hne]

theorem Loaded.effect_ids {messages messages' : FMap String QueuedMessage} {storage' : Storage}
    (hloaded : Loaded s messages index) (hordered : Ordered s.tasks s.used)
    (ht : s.tasks t = some task)
    (heffect : Effect s.shared.storage messages task storage' messages' task') (id : String) :
    id ∈ storage' ↔ id ∈ messages' ∨
      ∃ u x, update s.tasks t (some task') u = some x ∧ x.persisted = some id := by
  have hids := hloaded.ids id
  rw [persisted_iff ht] at hids
  rw [persisted_iff (update_self t (some task') s.tasks), persistedBeside_update]
  cases heffect with
  | quiet hstorage hmessages hpersisted hpersisted' =>
    rw [hstorage, hmessages, hids, hpersisted, hpersisted']
  | persist k hstorage hmessages hadding hpersisted hpersisted' =>
    rw [hstorage, hmessages, hids, hpersisted, hpersisted', or_assoc, eq_comm (a := id)]
    simp
  | cache k hstorage hmessages hpersisted hadding' =>
    have hpersisted' : task'.persisted ≠ some id := fun h => by
      rw [(persisted_active h).2] at hadding'
      cases hadding'
    rw [hstorage, hmessages, hids, hpersisted, Option.some.injEq, or_iff_left hpersisted',
      eq_comm (a := k), or_assoc, or_comm (a := id = k)]
  | delete k hstorage hmessages hid hpersisted hpersisted' =>
    -- what is persisted is not deleted
    have hne : PersistedBeside s.tasks t id → id ≠ k := by
      rintro ⟨u, x, -, hu, hx⟩ rfl
      exact hordered.apart u t x task id hu ht (persisted_active hx).2 hid
    rw [hstorage, hmessages, hids, hpersisted, hpersisted']
    tauto

theorem Loaded.run {messages : FMap String QueuedMessage} (hloaded : Loaded s messages index)
    (h : Safe s) (ht : s.tasks t = some task)
    (hnext : s.shared.next order t task = some (shared, task')) :
    Safe { s with shared := shared, tasks := update s.tasks t (some task') } := by
  obtain ⟨messages', hwarm⟩ := warm_next hloaded.messages_eq hloaded.byConnection_eq
    ⟨h.keyed, hloaded.keyed⟩ (hloaded.published t task ht) hnext
  obtain ⟨index', hindex'⟩ := Option.isSome_iff_exists.1 hwarm.published.1
  have hused : ∀ id, task.adding = some id → id ∈ s.used := fun id => h.ordered.adding t task id ht
  -- an id that only this task adds, and that it adds no longer, nobody adds
  have hdone : ∀ u x id, update s.tasks t (some task') u = some x → x.adding = some id →
      ¬ (task.adding = some id ∧ task'.adding = none) := by
    rintro u x id hu hx ⟨hadd, hnone⟩
    rcases update_eq_some hu with ⟨-, rfl⟩ | ⟨hne, hu⟩
    · rw [hnone] at hx
      cases hx
    · exact hne (h.ordered.unique u t x task id hu ht hx hadd)
  have hfresh : ∀ u x id, update s.tasks t (some task') u = some x → x.adding = some id →
      id ∉ messages ∧ ¬ s.shared.Listed id := by
    intro u x id hu hx
    rcases update_eq_some hu with ⟨-, rfl⟩ | ⟨-, hu⟩
    · exact hloaded.fresh t task id ht (hwarm.adding id hx)
    · exact hloaded.fresh u x id hu hx
  refine ⟨hwarm.keyed.1, fun id hid => ?_, h.ordered.update ht hwarm.alive hwarm.adding fun id
    hid => ?_,
    .inr (.inr ⟨messages', index', hwarm.cached, hindex', hwarm.keyed.2, fun u x hu => ?_,
      hloaded.effect_ids h.ordered ht hwarm.effect, fun u x id hu hx =>
        ⟨fun hmem => ?_, fun hmem => ?_⟩,
      fun id hid => ?_, fun id hid => ?_⟩)⟩
  · rcases (hwarm.effect.ids_subset id).1 hid with hold | hadd
    · exact h.stored id hold
    · exact hused id hadd
  · refine (hwarm.deleting id hid).imp_right fun hknown u x hu hx => ?_
    have := hloaded.fresh u x id hu hx
    tauto
  · rcases update_eq_some hu with ⟨-, rfl⟩ | ⟨-, hu⟩
    · exact hwarm.published.2
    · exact hloaded.published u x hu
  · rcases (hwarm.effect.ids_subset id).2 hmem with hold | hadd
    · exact (hfresh u x id hu hx).1 hold
    · exact hdone u x id hu hx hadd
  · rcases hwarm.listed id hmem with hold | hpersisted
    · exact (hfresh u x id hu hx).2 hold
    · exact hdone u x id hu hx (hwarm.effect.adding_of_persisted hpersisted)
  · rcases (hwarm.effect.ids_subset id).2 hid with hold | hadd
    · exact hloaded.cached id hold
    · exact hused id hadd.1
  · rcases hwarm.listed id hid with hold | hpersisted
    · exact hloaded.listed id hold
    · exact hused id (persisted_active hpersisted).2

end

theorem Safe.step (h : Safe s) {a : QueueAction} (hk : s.Keeps a) (hstep : s.step a = some s') :
    Safe s' := by
  cases a with
  | call t c => exact h.call hk hstep
  | crash => exact h.crash hstep
  | run t order =>
    simp only [QueueSystem.step] at hstep
    split at hstep
    · cases hstep
    · next task ht =>
      split at hstep
      · cases hstep
      · next shared task' hnext =>
        cases hstep
        rcases h.phase with hcold | ⟨u, c, messages, index, hhalf⟩ | ⟨messages, index, hloaded⟩
        · exact hcold.run h ht hnext
        · exact hhalf.run h hk ht hnext
        · exact hloaded.run h ht hnext

theorem sound_of_along {acts : List QueueAction} (hk : Along step Keeps start acts)
    (hexec : exec step start acts = some s) : Sound s :=
  (exec_invariant_along (fun _ _ _ h hk hstep => Safe.step h hk hstep) safe_start hk hexec).sound

end QueueSystem

/-! ## The storage-backed queue and the in-memory one -/

/-- **The storage-backed queue against the in-memory one.**  Run call by call it gives the same
replies, if after a restart no delivery chooses among messages received at the same time. Under
concurrent calls no `unwrap` fails and the cache and the storage end with the same ids, if no
call sees the first table without the second and no removal names a message that is still being
added. -/
theorem refines_of_along {steps : List QueueStep} {acts : List QueueAction} {b : Both}
    {s : QueueSystem} (hd : Along Both.step Both.Determinate Both.start steps)
    (hsteps : exec Both.step Both.start steps = some b) (hk : Along step Keeps start acts)
    (hacts : exec step start acts = some s) : b.storedReplies = b.memoryReplies ∧ s.Sound :=
  ⟨Both.replies_eq hd hsteps, sound_of_along hk hacts⟩

namespace Sample

def taken (order : IterOrder String) : List QueueStep :=
  [.call order order (.addMessage (.new "m1" "alice" ["key"] "sealed" 0)),
    .call order order (.takeFromQueue "alice" none 10), .restart order,
    .call order order (.getPendingCount "alice" none)]

/-- Two first accesses; the second waits for the first to load. -/
def counts (order : IterOrder String) : List QueueAction :=
  [.call 0 (.getPendingCount "alice" none), .call 1 (.getPendingCount "alice" none),
    .run 0 order, .run 1 order, .run 0 order, .run 0 order, .run 1 order, .run 1 order,
    .run 0 order]

/-- Two first accesses; the second looks while only the first table is there. -/
def racing (order : IterOrder String) : List QueueAction :=
  [.call 0 (.getPendingCount "alice" none), .call 1 (.getPendingCount "alice" none),
    .run 0 order, .run 0 order, .run 1 order, .run 1 order]

end Sample

open Sample

theorem refines_of_along_sample :
    ∃ b s, exec Both.step Both.start (taken .some) = some b ∧
      exec step start (counts .some) = some s ∧
      b.storedReplies = b.memoryReplies ∧ s.Sound := by
  have hd : Along Both.step Both.Determinate Both.start (taken .some) := by
    refine along_cons trivial rfl ?_
    refine along_cons (.inl rfl) rfl ?_
    refine along_cons trivial rfl ?_
    exact along_cons trivial rfl trivial
  have hk : Along step Keeps start (counts .some) := by
    refine along_cons ⟨fun _ h => (by cases h), fun _ h => (by cases h)⟩ rfl ?_
    refine along_cons ⟨fun _ h => (by cases h), fun _ h => (by cases h)⟩ rfl ?_
    -- nothing is published
    refine along_cons (fun _ _ _ h => by cases h) rfl ?_
    refine along_cons (fun _ _ _ h => by cases h) rfl ?_
    refine along_cons (fun _ _ _ h => by cases h) rfl ?_
    -- the first call publishes the second table
    refine along_cons (fun _ h hc _ => by cases h; cases hc) rfl ?_
    refine along_cons (fun _ _ _ _ => rfl) rfl ?_
    refine along_cons (fun _ _ _ _ => rfl) rfl ?_
    exact along_cons (fun _ _ _ _ => rfl) rfl trivial
  obtain ⟨b, hb⟩ : ∃ b, exec Both.step Both.start (taken .some) = some b := ⟨_, rfl⟩
  obtain ⟨s, hs⟩ : ∃ s, exec step start (counts .some) = some s := ⟨_, rfl⟩
  exact ⟨b, s, hb, hs, refines_of_along hd hb hk hs⟩

/-- Two first accesses: the second passes the fast path before the index is published, and its
`unwrap` fails. -/
theorem refines_fails_racing :
    ∃ s, exec step start (racing .some) = some s ∧ s.tasks 1 = some .panicked ∧ ¬ s.Sound :=
  ⟨_, rfl, rfl, fun h => h.1 1 rfl⟩

end Idiom.Pickup
