import Idiom.Lib.FiniteMap
import Idiom.Lib.IterOrder
import Mathlib.Algebra.GroupWithZero.Nat
import Mathlib.Data.List.Sort

/-!
# The message queue of a mediator: `pickup/src/repository/message_queue.rs`

Messages are stored by id, with an index of the ids of each connection. The storage-backed
repository keeps the same two tables as a cache.
-/

namespace Idiom.Pickup

open List Function FMap

/-- `DateTime<Utc>`. -/
abbrev Timestamp := ℤ

/-! ## Messages (`domain/queued_message.rs`) -/

inductive QueuedMessageState where
  | pending
  | sending
  deriving DecidableEq

/-- A message queued at the mediator for later pickup. -/
structure QueuedMessage where
  id : String
  connectionId : String
  recipientKeys : List String
  encryptedMessage : String
  receivedAt : Timestamp
  state : QueuedMessageState
  deriving DecidableEq

namespace QueuedMessage

/-- A new message; the id is a fresh UUID and the time comes from the clock. -/
def new (id connectionId : String) (recipientKeys : List String) (encryptedMessage : String)
    (now : Timestamp) : QueuedMessage :=
  ⟨id, connectionId, recipientKeys, encryptedMessage, now, .pending⟩

def markSending (m : QueuedMessage) : QueuedMessage := { m with state := .sending }

def markPending (m : QueuedMessage) : QueuedMessage := { m with state := .pending }

def matchesRecipientKey (m : QueuedMessage) : Option String → Bool
  | some k => m.recipientKeys.any (· == k)
  | none => true

/-- The order messages are taken in. -/
def NotAfter (a b : QueuedMessage) : Prop := a.receivedAt ≤ b.receivedAt

instance : DecidableRel NotAfter :=
  fun a b => inferInstanceAs (Decidable (a.receivedAt ≤ b.receivedAt))

instance : IsTrans QueuedMessage NotAfter := ⟨fun _ _ _ hab hbc => Int.le_trans hab hbc⟩

instance : Std.Total NotAfter := ⟨fun a b => le_total a.receivedAt b.receivedAt⟩

def byteSize (m : QueuedMessage) : ℕ := m.encryptedMessage.utf8ByteSize

end QueuedMessage

open QueuedMessage

/-! ## The tables -/

/-- Messages by id, and the ids of each connection. -/
structure QueueTables where
  messages : FMap String QueuedMessage
  byConnection : String → Option (List String)

namespace QueueTables

def new : QueueTables := ⟨∅, fun _ => none⟩

def addMessage (t : QueueTables) (message : QueuedMessage) : QueueTables where
  messages := t.messages.insert message.id message
  byConnection := update t.byConnection message.connectionId
    (some ((t.byConnection message.connectionId).getD [] ++ [message.id]))

/-- The pending messages of a connection that pass the filter, in the order of the index. -/
def pendingFor (t : QueueTables) (connectionId : String) (recipientKey : Option String) :
    List QueuedMessage :=
  match t.byConnection connectionId with
  | none => []
  | some ids => (ids.filterMap t.messages.lookup).filter fun m =>
    m.state = .pending && m.matchesRecipientKey recipientKey

def getPendingCount (t : QueueTables) (connectionId : String) (recipientKey : Option String) : ℕ :=
  (t.pendingFor connectionId recipientKey).length

/-- Total byte count of pending messages. -/
def getTotalBytes (t : QueueTables) (connectionId : String) (recipientKey : Option String) : ℕ :=
  ((t.pendingFor connectionId recipientKey).map byteSize).sum

def getOldestMessageTime (t : QueueTables) (connectionId : String)
    (recipientKey : Option String) : Option Timestamp :=
  ((t.pendingFor connectionId recipientKey).map receivedAt).min?

/-- Change the messages of a list of ids, where they are stored. -/
def modifyEach (f : QueuedMessage → QueuedMessage) (messages : FMap String QueuedMessage)
    (ids : List String) : FMap String QueuedMessage :=
  ids.foldl (fun messages id => messages.alter id (Option.map f)) messages

/-- The messages a delivery takes: oldest first, up to `limit`. The sort is stable. -/
def taken (t : QueueTables) (connectionId : String) (recipientKey : Option String) (limit : ℕ) :
    List QueuedMessage :=
  ((t.pendingFor connectionId recipientKey).insertionSort NotAfter).take limit

def takeFromQueue (t : QueueTables) (connectionId : String) (recipientKey : Option String)
    (limit : ℕ) : List QueuedMessage × QueueTables :=
  let taken := t.taken connectionId recipientKey limit
  (taken, { t with
    messages := modifyEach QueuedMessage.markSending t.messages (taken.map QueuedMessage.id) })

/-- Remove an id from both tables, given the connection it was queued for. -/
def dropId (t : QueueTables) (id connectionId : String) : QueueTables where
  messages := t.messages.erase id
  byConnection := update t.byConnection connectionId
    ((t.byConnection connectionId).map fun ids => ids.filter (· ≠ id))

def removeMessage (t : QueueTables) (id : String) : QueueTables :=
  match t.messages.lookup id with
  | none => t
  | some msg => t.dropId id msg.connectionId

/-- Remove messages from the queue (after successful acknowledgment). -/
def removeMessages (t : QueueTables) (messageIds : List String) : QueueTables :=
  messageIds.foldl removeMessage t

/-- Return messages to pending state (delivery failed). -/
def returnToPending (t : QueueTables) (messageIds : List String) : QueueTables :=
  { t with messages := modifyEach markPending t.messages messageIds }

def findById (t : QueueTables) (messageId : String) : Option QueuedMessage :=
  t.messages.lookup messageId

def clearConnection (t : QueueTables) (connectionId : String) : ℕ × QueueTables :=
  match t.byConnection connectionId with
  | none => (0, t)
  | some ids =>
    (ids.length,
      { messages := ids.foldl (fun messages id => messages.erase id) t.messages
        byConnection := update t.byConnection connectionId none })

def expired (order : IterOrder String) (t : QueueTables) (cutoff : Timestamp) :
    List QueuedMessage :=
  ((order.list t.messages.keys).filterMap t.messages.lookup).filter fun m => m.receivedAt < cutoff

/-- Delete messages older than the cutoff, across all connections. -/
def deleteExpired (order : IterOrder String) (t : QueueTables) (cutoff : Timestamp) :
    ℕ × QueueTables :=
  let expired := t.expired order cutoff
  (expired.length, expired.foldl (fun t m => t.dropId m.id m.connectionId) t)

def expiredIdsFor (t : QueueTables) (connectionId : String) (cutoff : Timestamp) : List String :=
  ((((t.byConnection connectionId).getD []).filterMap t.messages.lookup).filter
    fun m => m.receivedAt < cutoff).map QueuedMessage.id

def deleteExpiredForConnection (t : QueueTables) (connectionId : String) (cutoff : Timestamp) :
    ℕ × QueueTables :=
  match t.byConnection connectionId with
  | none => (0, t)
  | some ids =>
    let expired := t.expiredIdsFor connectionId cutoff
    (expired.length,
      { messages := expired.foldl (fun messages id => messages.erase id) t.messages
        byConnection := update t.byConnection connectionId
          (some (ids.filter fun id => id ∉ expired)) })

/-! ## What an operation does to a message -/

variable {t : QueueTables} {id connectionId : String}

theorem lookup_modifyEach {f : QueuedMessage → QueuedMessage} (hf : ∀ m, f (f m) = f m)
    (messages : FMap String QueuedMessage) (ids : List String) (id : String) :
    (modifyEach f messages ids).lookup id =
      if id ∈ ids then (messages.lookup id).map f else messages.lookup id := by
  unfold modifyEach
  induction ids generalizing messages with
  | nil => simp
  | cons k ids ih =>
    rw [foldl_cons, ih, lookup_alter]
    by_cases hk : id = k
    · subst hk
      cases messages.lookup id <;> simp [hf]
    · simp [hk]

theorem markSending_idem (m : QueuedMessage) : m.markSending.markSending = m.markSending := rfl

theorem markPending_idem (m : QueuedMessage) : m.markPending.markPending = m.markPending := rfl

theorem lookup_addMessage (t : QueueTables) (message : QueuedMessage) (id : String) :
    (t.addMessage message).messages.lookup id =
      if id = message.id then some message else t.messages.lookup id :=
  lookup_insert_ite t.messages message.id id message

theorem lookup_takeFromQueue (t : QueueTables) (connectionId : String)
    (recipientKey : Option String) (limit : ℕ) (id : String) :
    (t.takeFromQueue connectionId recipientKey limit).2.messages.lookup id =
      if id ∈ (t.taken connectionId recipientKey limit).map QueuedMessage.id then
        (t.messages.lookup id).map QueuedMessage.markSending
      else t.messages.lookup id :=
  lookup_modifyEach markSending_idem _ _ _

theorem lookup_returnToPending (t : QueueTables) (messageIds : List String) (id : String) :
    (t.returnToPending messageIds).messages.lookup id =
      if id ∈ messageIds then (t.messages.lookup id).map markPending
      else t.messages.lookup id :=
  lookup_modifyEach markPending_idem _ _ _

theorem lookup_removeMessage (t : QueueTables) (k id : String) :
    (t.removeMessage k).messages.lookup id = if id = k then none else t.messages.lookup id := by
  unfold removeMessage
  cases hk : t.messages.lookup k with
  | none =>
    by_cases hid : id = k
    · rw [if_pos hid, hid, hk]
    · rw [if_neg hid]
  | some msg => exact lookup_erase_ite t.messages k id

theorem lookup_removeMessages (t : QueueTables) (messageIds : List String) (id : String) :
    (t.removeMessages messageIds).messages.lookup id =
      if id ∈ messageIds then none else t.messages.lookup id := by
  unfold removeMessages
  induction messageIds generalizing t with
  | nil => simp
  | cons k ids ih =>
    rw [foldl_cons, ih, lookup_removeMessage]
    by_cases hk : id = k
    · simp [hk]
    · simp [hk]

theorem lookup_foldl_erase (messages : FMap String QueuedMessage) (ids : List String)
    (id : String) :
    (ids.foldl (fun messages id => messages.erase id) messages).lookup id =
      if id ∈ ids then none else messages.lookup id := by
  induction ids generalizing messages with
  | nil => simp
  | cons k ids ih =>
    rw [foldl_cons, ih, lookup_erase_ite]
    by_cases hk : id = k
    · simp [hk]
    · simp [hk]

/-! ## The index -/

def idsOf (t : QueueTables) (connectionId : String) : List String :=
  (t.byConnection connectionId).getD []

/-- A message is stored under its id, and the index lists the messages of a connection, each
once. -/
structure Valid (t : QueueTables) : Prop where
  key : ∀ id m, t.messages.lookup id = some m → m.id = id
  indexed : ∀ connectionId id, id ∈ t.idsOf connectionId ↔
    ∃ m, t.messages.lookup id = some m ∧ m.connectionId = connectionId
  nodup : ∀ connectionId, (t.idsOf connectionId).Nodup

theorem valid_new : Valid new where
  key _ _ h := by simp [new] at h
  indexed _ _ := by simp [new, idsOf]
  nodup _ := nodup_nil

variable {m : QueuedMessage}

theorem mem_pendingFor {recipientKey : Option String} :
    m ∈ t.pendingFor connectionId recipientKey ↔
      (∃ id ∈ t.idsOf connectionId, t.messages.lookup id = some m) ∧ m.state = .pending ∧
        m.matchesRecipientKey recipientKey = true := by
  unfold pendingFor idsOf
  cases t.byConnection connectionId with
  | none => simp
  | some ids => simp [mem_filter]

theorem Valid.of_mem_taken (ht : t.Valid) {recipientKey : Option String} {limit : ℕ}
    (h : m ∈ t.taken connectionId recipientKey limit) :
    t.messages.lookup m.id = some m ∧ m.connectionId = connectionId ∧ m.state = .pending := by
  have hmem := (mem_insertionSort _).1 (mem_of_mem_take h)
  obtain ⟨⟨id, hid, hlookup⟩, hstate, -⟩ := mem_pendingFor.1 hmem
  obtain ⟨m', hm', hconn⟩ := (ht.indexed connectionId id).1 hid
  rw [hlookup] at hm'
  obtain rfl := Option.some.inj hm'
  exact ⟨by rw [ht.key id m hlookup, hlookup], hconn, hstate⟩

theorem idsOf_update (t : QueueTables) (messages : FMap String QueuedMessage) (c c' : String)
    (ids : Option (List String)) :
    idsOf ⟨messages, update t.byConnection c ids⟩ c' =
      if c' = c then ids.getD [] else t.idsOf c' := by
  simp only [idsOf]
  by_cases hc : c' = c
  · rw [if_pos hc, hc, update_self]
  · rw [if_neg hc, update_of_ne hc]

theorem idsOf_addMessage (t : QueueTables) (message : QueuedMessage) (c : String) :
    (t.addMessage message).idsOf c =
      if c = message.connectionId then t.idsOf c ++ [message.id] else t.idsOf c := by
  refine (idsOf_update t _ _ c _).trans ?_
  by_cases hc : c = message.connectionId
  · rw [if_pos hc, if_pos hc, hc]
    rfl
  · rw [if_neg hc, if_neg hc]

theorem Valid.addMessage (ht : t.Valid) {message : QueuedMessage}
    (hfresh : t.messages.lookup message.id = none) : (t.addMessage message).Valid := by
  have hnew : ∀ c, message.id ∉ t.idsOf c := by
    intro c hmem
    obtain ⟨m, hm, -⟩ := (ht.indexed c _).1 hmem
    rw [hfresh] at hm
    cases hm
  refine ⟨fun id m h => ?_, fun c id => ?_, fun c => ?_⟩
  · rw [lookup_addMessage] at h
    split at h
    · next hid =>
      rw [← Option.some.inj h, hid]
    · exact ht.key id m h
  · rw [idsOf_addMessage, lookup_addMessage]
    by_cases hid : id = message.id
    · subst hid
      by_cases hc : c = message.connectionId
      · simp [hc]
      · simp [hc, hnew c, Ne.symm hc]
    · have hold := ht.indexed c id
      by_cases hc : c = message.connectionId
      · simpa [hc, hid] using hc ▸ hold
      · simpa [hc, hid] using hold
  · rw [idsOf_addMessage]
    split
    · exact (ht.nodup c).append (nodup_singleton _) (disjoint_singleton.2 (hnew c))
    · exact ht.nodup c

theorem Valid.modifyEach (ht : t.Valid) {f : QueuedMessage → QueuedMessage}
    (hf : ∀ m, f (f m) = f m) (hid : ∀ m, (f m).id = m.id)
    (hconn : ∀ m, (f m).connectionId = m.connectionId) (ids : List String) :
    Valid { t with messages := QueueTables.modifyEach f t.messages ids } := by
  refine ⟨fun id m h => ?_, fun c id => ?_, ht.nodup⟩
  · simp only [lookup_modifyEach hf] at h
    split at h
    · obtain ⟨m', hm', rfl⟩ := Option.map_eq_some_iff.1 h
      rw [hid, ht.key id m' hm']
    · exact ht.key id m h
  · refine (ht.indexed c id).trans ?_
    simp only [lookup_modifyEach hf]
    split
    · simp [hconn]
    · rfl

theorem Valid.takeFromQueue (ht : t.Valid) (connectionId : String)
    (recipientKey : Option String) (limit : ℕ) :
    (t.takeFromQueue connectionId recipientKey limit).2.Valid :=
  ht.modifyEach markSending_idem (fun _ => rfl) (fun _ => rfl) _

theorem Valid.returnToPending (ht : t.Valid) (messageIds : List String) :
    (t.returnToPending messageIds).Valid :=
  ht.modifyEach markPending_idem (fun _ => rfl) (fun _ => rfl) _

theorem Valid.of_removed (ht : t.Valid) {t' : QueueTables} {gone : String → Prop}
    (hgone : ∀ id, gone id → t'.messages.lookup id = none)
    (hkept : ∀ id, ¬ gone id → t'.messages.lookup id = t.messages.lookup id)
    (hindex : ∀ c id, id ∈ t'.idsOf c ↔ id ∈ t.idsOf c ∧ ¬ gone id)
    (hnodup : ∀ c, (t'.idsOf c).Nodup) : t'.Valid := by
  refine ⟨fun id m h => ?_, fun c id => ?_, hnodup⟩
  · by_cases hid : gone id
    · rw [hgone id hid] at h
      cases h
    · rw [hkept id hid] at h
      exact ht.key id m h
  · rw [hindex, ht.indexed]
    by_cases hid : gone id
    · simp [hid, hgone id hid]
    · simp [hid, hkept id hid]

theorem idsOf_dropId (t : QueueTables) (id c c' : String) :
    (t.dropId id c).idsOf c' = if c' = c then (t.idsOf c').filter (· ≠ id) else t.idsOf c' := by
  refine (idsOf_update t _ c c' _).trans ?_
  by_cases hc : c' = c
  · rw [if_pos hc, if_pos hc, hc]
    unfold idsOf
    cases t.byConnection c <;> rfl
  · rw [if_neg hc, if_neg hc]

theorem Valid.connection_unique (ht : t.Valid) {c c' : String} (h : id ∈ t.idsOf c)
    (h' : id ∈ t.idsOf c') : c = c' := by
  obtain ⟨m, hm, hc⟩ := (ht.indexed c id).1 h
  obtain ⟨m', hm', hc'⟩ := (ht.indexed c' id).1 h'
  rw [hm] at hm'
  rw [← hc, ← hc', Option.some.inj hm']

theorem Valid.dropId (ht : t.Valid) (h : t.messages.lookup id = some m) :
    (t.dropId id m.connectionId).Valid := by
  have hmem : id ∈ t.idsOf m.connectionId := (ht.indexed _ _).2 ⟨m, h, rfl⟩
  refine ht.of_removed (fun k (hk : k = id) => ?_) (fun k hk => ?_) (fun c k => ?_) fun c => ?_
  · exact (lookup_erase_ite t.messages id k).trans (if_pos hk)
  · exact (lookup_erase_ite t.messages id k).trans (if_neg hk)
  · rw [idsOf_dropId]
    split
    · simp [mem_filter]
    · next hc =>
      refine ⟨fun hk => ⟨hk, ?_⟩, fun hk => hk.1⟩
      rintro rfl
      exact hc (ht.connection_unique hk hmem)
  · rw [idsOf_dropId]
    split
    · exact (ht.nodup c).filter _
    · exact ht.nodup c

theorem Valid.removeMessage (ht : t.Valid) (id : String) : (t.removeMessage id).Valid := by
  unfold QueueTables.removeMessage
  cases h : t.messages.lookup id with
  | none => exact ht
  | some m => exact ht.dropId h

theorem Valid.removeMessages (ht : t.Valid) (messageIds : List String) :
    (t.removeMessages messageIds).Valid := by
  induction messageIds generalizing t with
  | nil => exact ht
  | cons id ids ih => exact ih (ht.removeMessage id)

theorem Valid.clearConnection (ht : t.Valid) (connectionId : String) :
    (t.clearConnection connectionId).2.Valid := by
  unfold QueueTables.clearConnection
  cases h : t.byConnection connectionId with
  | none => exact ht
  | some ids =>
    have hids : t.idsOf connectionId = ids := by simp [idsOf, h]
    refine ht.of_removed (fun k (hk : k ∈ ids) => ?_) (fun k hk => ?_) (fun c k => ?_) fun c => ?_
    · exact (lookup_foldl_erase t.messages ids k).trans (if_pos hk)
    · exact (lookup_foldl_erase t.messages ids k).trans (if_neg hk)
    · rw [idsOf_update]
      split
      · next hc => simp [hc, hids]
      · next hc =>
        refine ⟨fun hk => ⟨hk, fun hk' => ?_⟩, fun hk => hk.1⟩
        exact hc (ht.connection_unique hk (hids ▸ hk'))
    · rw [idsOf_update]
      split
      · exact nodup_nil
      · exact ht.nodup c

theorem Valid.mem_expiredIdsFor (ht : t.Valid) {cutoff : Timestamp} :
    id ∈ t.expiredIdsFor connectionId cutoff ↔
      ∃ m, t.messages.lookup id = some m ∧ m.connectionId = connectionId ∧
        m.receivedAt < cutoff := by
  unfold expiredIdsFor
  simp only [mem_map, mem_filter, mem_filterMap, decide_eq_true_eq]
  constructor
  · rintro ⟨m, ⟨⟨k, hk, hm⟩, hlt⟩, rfl⟩
    obtain ⟨m', hm', hconn⟩ := (ht.indexed connectionId k).1 hk
    rw [hm] at hm'
    obtain rfl := Option.some.inj hm'
    exact ⟨m, by rw [ht.key k m hm, hm], hconn, hlt⟩
  · rintro ⟨m, hm, hconn, hlt⟩
    exact ⟨m, ⟨⟨id, (ht.indexed connectionId id).2 ⟨m, hm, hconn⟩, hm⟩, hlt⟩, ht.key id m hm⟩

theorem Valid.deleteExpiredForConnection (ht : t.Valid) (connectionId : String)
    (cutoff : Timestamp) : (t.deleteExpiredForConnection connectionId cutoff).2.Valid := by
  unfold QueueTables.deleteExpiredForConnection
  cases h : t.byConnection connectionId with
  | none => exact ht
  | some ids =>
    have hids : t.idsOf connectionId = ids := by simp [idsOf, h]
    refine ht.of_removed (fun k (hk : k ∈ t.expiredIdsFor connectionId cutoff) => ?_)
      (fun k hk => ?_) (fun c k => ?_) fun c => ?_
    · exact (lookup_foldl_erase t.messages _ k).trans (if_pos hk)
    · exact (lookup_foldl_erase t.messages _ k).trans (if_neg hk)
    · rw [idsOf_update]
      split
      · next hc => simp [hc, hids]
      · next hc =>
        refine ⟨fun hk => ⟨hk, fun hk' => ?_⟩, fun hk => hk.1⟩
        obtain ⟨m, hm, hconn, -⟩ := ht.mem_expiredIdsFor.1 hk'
        exact hc (ht.connection_unique hk ((ht.indexed connectionId k).2 ⟨m, hm, hconn⟩))
    · rw [idsOf_update]
      split
      · exact ((hids ▸ ht.nodup connectionId).filter _)
      · exact ht.nodup c

/-! ## Expiry over all connections -/

theorem Valid.of_mem_expired (ht : t.Valid) {order : IterOrder String} {cutoff : Timestamp}
    (h : m ∈ t.expired order cutoff) : t.messages.lookup m.id = some m := by
  obtain ⟨k, -, hm⟩ := mem_filterMap.1 (mem_filter.1 h).1
  rw [ht.key k m hm, hm]

theorem nodup_ids {messages : FMap String QueuedMessage}
    (hkey : ∀ id m, messages.lookup id = some m → m.id = id) {l : List String} (hl : l.Nodup) :
    ((l.filterMap messages.lookup).map QueuedMessage.id).Nodup := by
  have hids : ((l.filterMap messages.lookup).map QueuedMessage.id).Sublist l := by
    clear hl
    induction l with
    | nil => exact Sublist.slnil
    | cons k l ih =>
      cases hm : messages.lookup k with
      | none =>
        simp only [filterMap_cons, hm]
        exact ih.cons k
      | some m =>
        simp only [filterMap_cons, hm, map_cons, hkey k m hm]
        exact ih.cons_cons k
  exact hids.nodup hl

theorem Valid.nodup_expired (ht : t.Valid) (order : IterOrder String) (cutoff : Timestamp) :
    ((t.expired order cutoff).map QueuedMessage.id).Nodup :=
  (filter_sublist.map _).nodup (nodup_ids ht.key (order.nodup_list _))

theorem foldl_dropId_eq {l : List QueuedMessage} (hnodup : (l.map QueuedMessage.id).Nodup)
    (hl : ∀ m ∈ l, t.messages.lookup m.id = some m) :
    l.foldl (fun t m => t.dropId m.id m.connectionId) t =
      t.removeMessages (l.map QueuedMessage.id) := by
  induction l generalizing t with
  | nil => rfl
  | cons m l ih =>
    rw [map_cons, nodup_cons] at hnodup
    have hm : t.removeMessage m.id = t.dropId m.id m.connectionId := by
      unfold removeMessage
      rw [hl m (by simp)]
    show l.foldl _ (t.dropId m.id m.connectionId) = (t.removeMessage m.id).removeMessages _
    rw [hm]
    refine ih hnodup.2 fun m' hm' => ?_
    have hne : m'.id ≠ m.id := fun heq => hnodup.1 (heq ▸ mem_map_of_mem hm')
    rw [← hm, lookup_removeMessage, if_neg hne]
    exact hl m' (mem_cons_of_mem _ hm')

theorem Valid.deleteExpired_eq (ht : t.Valid) (order : IterOrder String) (cutoff : Timestamp) :
    (t.deleteExpired order cutoff).2 =
      t.removeMessages ((t.expired order cutoff).map QueuedMessage.id) :=
  foldl_dropId_eq (ht.nodup_expired order cutoff) fun _ h => ht.of_mem_expired h

theorem Valid.deleteExpired (ht : t.Valid) (order : IterOrder String) (cutoff : Timestamp) :
    (t.deleteExpired order cutoff).2.Valid := by
  rw [ht.deleteExpired_eq]
  exact ht.removeMessages _

end QueueTables
end Idiom.Pickup
