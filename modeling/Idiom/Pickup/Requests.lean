import Idiom.Pickup.StorageBacked

/-!
# Pickup requests: `pickup/src/services/pickup_mediator.rs`

The service answers a status request, hands out messages and removes acknowledged ones, over
any repository.
-/

namespace Idiom.Pickup

open IterOrder List

/-! ## Messages -/

structure StatusRequestMessage where
  id : String
  recipientKey : Option String
  deriving DecidableEq

structure DeliveryRequestMessage where
  id : String
  recipientKey : Option String
  limit : ℕ
  deriving DecidableEq

structure MessagesReceivedMessage where
  id : String
  threadId : Option String
  messageIdList : List String
  deriving DecidableEq

structure StatusMessage where
  threadId : String
  messageCount : ℕ
  recipientKey : Option String
  longestWaitedSeconds : Option ℕ
  totalBytes : Option ℕ

/-- A queued message as an attachment; the data is the base64 of the encrypted message. -/
structure Attachment where
  id : Option String
  mediaType : Option String
  byteCount : Option ℕ
  base64Of : String

structure MessageDeliveryMessage where
  threadId : String
  recipientKey : Option String
  attachments : List Attachment

inductive PickupRequest where
  | status (request : StatusRequestMessage)
  | delivery (request : DeliveryRequestMessage)
  | received (ack : MessagesReceivedMessage)
  deriving DecidableEq

inductive PickupResponse where
  | status (response : StatusMessage)
  | delivery (response : MessageDeliveryMessage)

/-! ## The service -/

/-- A repository, as a state and its calls. -/
structure Repository (σ : Type*) where
  call : σ → QueueCall → σ × QueueReply

def QueueReply.toCount : QueueReply → ℕ
  | .count n => n
  | _ => 0

def QueueReply.toTime : QueueReply → Option Timestamp
  | .time oldest => oldest
  | _ => none

def QueueReply.toMessages : QueueReply → List QueuedMessage
  | .messages taken => taken
  | _ => []

section

variable {σ : Type*} (repository : Repository σ)

/-- Nanoseconds in a second; a `Timestamp` counts nanoseconds. -/
def nanosPerSecond : ℤ := 1000000000

def processStatusRequest (s : σ) (request : StatusRequestMessage) (connectionId : String)
    (now : Timestamp) : σ × StatusMessage :=
  let key := request.recipientKey
  let (s, count) := repository.call s (.getPendingCount connectionId key)
  let (s, bytes) := repository.call s (.getTotalBytes connectionId key)
  let (s, oldest) := repository.call s (.getOldestMessageTime connectionId key)
  (s,
    { threadId := request.id
      messageCount := count.toCount
      recipientKey := key
      longestWaitedSeconds := oldest.toTime.map fun t => ((now - t) / nanosPerSecond).toNat
      totalBytes := if bytes.toCount > 0 then some bytes.toCount else none })

def attachmentOf (m : QueuedMessage) : Attachment where
  id := some m.id
  mediaType := some "application/didcomm-encrypted+json"
  byteCount := some m.byteSize
  base64Of := m.encryptedMessage

def processDeliveryRequest (s : σ) (request : DeliveryRequestMessage) (connectionId : String) :
    σ × MessageDeliveryMessage :=
  let (s, reply) :=
    repository.call s (.takeFromQueue connectionId request.recipientKey request.limit)
  (s,
    { threadId := request.id
      recipientKey := request.recipientKey
      attachments := reply.toMessages.map attachmentOf })

/-- Process a messages-received acknowledgment. The ids are not checked against the
connection. -/
def processMessagesReceived (s : σ) (ack : MessagesReceivedMessage) (connectionId : String) :
    σ × StatusMessage :=
  let (s, _) := repository.call s (.removeMessages ack.messageIdList)
  let (s, count) := repository.call s (.getPendingCount connectionId none)
  (s,
    { threadId := ack.threadId.getD ack.id
      messageCount := count.toCount
      recipientKey := none
      longestWaitedSeconds := none
      totalBytes := none })

/-- One request, with the clock reading of its processing. -/
def process (s : σ) (connectionId : String) : PickupRequest × Timestamp → σ × PickupResponse
  | (.status request, now) =>
    let (s, response) := processStatusRequest repository s request connectionId now
    (s, .status response)
  | (.delivery request, _) =>
    let (s, response) := processDeliveryRequest repository s request connectionId
    (s, .delivery response)
  | (.received ack, _) =>
    let (s, response) := processMessagesReceived repository s ack connectionId
    (s, .status response)

def processAll (s : σ) (connectionId : String) (requests : List (PickupRequest × Timestamp)) : σ :=
  requests.foldl (fun s request => (process repository s connectionId request).1) s

end

/-! ## The two repositories -/

def inMemory (order : IterOrder String) : Repository QueueTables := ⟨QueueTables.call order⟩

def storageBacked (order : IterOrder String) : Repository StorageBacked :=
    ⟨StorageBacked.call order⟩

variable {order : IterOrder String} {t : QueueTables} {s : StorageBacked} {connectionId : String}
  {request : PickupRequest × Timestamp}

def requested (t : QueueTables) (connectionId : String) : PickupRequest → QueueTables
  | .status _ => t
  | .delivery request => (t.takeFromQueue connectionId request.recipientKey request.limit).2
  | .received ack => t.removeMessages ack.messageIdList

theorem process_inMemory (order : IterOrder String) (t : QueueTables) (connectionId : String)
    (request : PickupRequest × Timestamp) :
    (process (inMemory order) t connectionId request).1 = requested t connectionId request.1 := by
  obtain ⟨request | request | ack, now⟩ := request <;> rfl

theorem requested_valid (ht : t.Valid) (request : PickupRequest) :
    (requested t connectionId request).Valid := by
  cases request with
  | status request => exact ht
  | delivery request => exact ht.takeFromQueue _ _ _
  | received ack => exact ht.removeMessages _

theorem process_storageBacked (h : s.Synced t) (request : PickupRequest × Timestamp) :
    (process (storageBacked order) s connectionId request).1.Synced
      (requested t connectionId request.1) := by
  obtain ⟨request | request | ack, now⟩ := request
  · have hcount : t.Fresh (.getPendingCount connectionId request.recipientKey) := trivial
    have hbytes : t.Fresh (.getTotalBytes connectionId request.recipientKey) := trivial
    have holdest : t.Fresh (.getOldestMessageTime connectionId request.recipientKey) := trivial
    exact (((h.call order hcount).1.call order hbytes).1.call order holdest).1
  · have htake : t.Fresh (.takeFromQueue connectionId request.recipientKey request.limit) := trivial
    exact (h.call order htake).1
  · have hremove : t.Fresh (.removeMessages ack.messageIdList) := trivial
    have hcount : (t.removeMessages ack.messageIdList).Fresh (.getPendingCount connectionId none) :=
      trivial
    exact ((h.call order hremove).1.call order hcount).1

/-! ## Isolation -/

/-- The messages of other connections keep their presence, state and content. -/
def Isolated (connectionId : String) (before after : FMap String QueuedMessage) : Prop :=
  ∀ id m, before.lookup id = some m → m.connectionId ≠ connectionId → after.lookup id = some m

/-- Every queued message that an acknowledgment names belongs to the connection. -/
def OwnAcks (connectionId : String) (messages : FMap String QueuedMessage)
    (requests : List (PickupRequest × Timestamp)) : Prop :=
  ∀ ack now, (PickupRequest.received ack, now) ∈ requests → ∀ id ∈ ack.messageIdList,
    ∀ m, messages.lookup id = some m → m.connectionId = connectionId

theorem lookup_requested {request : PickupRequest} {id : String} {m : QueuedMessage}
    (h : (requested t connectionId request).messages.lookup id = some m) :
    ∃ m', t.messages.lookup id = some m' ∧ m'.connectionId = m.connectionId := by
  cases request with
  | status request => exact ⟨m, h, rfl⟩
  | delivery request =>
    rw [requested, QueueTables.lookup_takeFromQueue] at h
    split at h
    · obtain ⟨m', hm', rfl⟩ := Option.map_eq_some_iff.1 h
      exact ⟨m', hm', rfl⟩
    · exact ⟨m, h, rfl⟩
  | received ack =>
    rw [requested, QueueTables.lookup_removeMessages] at h
    split at h
    · cases h
    · exact ⟨m, h, rfl⟩

theorem isolated_requested (ht : t.Valid) (request : PickupRequest)
    (hown : ∀ ack, request = .received ack → ∀ id ∈ ack.messageIdList,
      ∀ m, t.messages.lookup id = some m → m.connectionId = connectionId) :
    Isolated connectionId t.messages (requested t connectionId request).messages := by
  intro id m hm hne
  cases request with
  | status request => exact hm
  | delivery request =>
    rw [requested, QueueTables.lookup_takeFromQueue, if_neg, hm]
    intro hmem
    obtain ⟨m', hm', rfl⟩ := mem_map.1 hmem
    obtain ⟨hlookup, hconn, -⟩ := ht.of_mem_taken hm'
    rw [hlookup] at hm
    exact hne (Option.some.inj hm ▸ hconn)
  | received ack =>
    rw [requested, QueueTables.lookup_removeMessages, if_neg, hm]
    exact fun hmem => hne (hown ack rfl id hmem m hm)

/-- The tables after a sequence of requests. -/
def requestedAll (t : QueueTables) (connectionId : String)
    (requests : List (PickupRequest × Timestamp)) : QueueTables :=
  requests.foldl (fun t request => requested t connectionId request.1) t

theorem requestedAll_none {id : String} (h : t.messages.lookup id = none)
    (requests : List (PickupRequest × Timestamp)) :
    (requestedAll t connectionId requests).messages.lookup id = none := by
  induction requests generalizing t with
  | nil => exact h
  | cons request requests ih =>
    refine ih ?_
    cases hid : (requested t connectionId request.1).messages.lookup id with
    | none => rfl
    | some m =>
      obtain ⟨m', hm', -⟩ := lookup_requested hid
      rw [h] at hm'
      cases hm'

theorem requestedAll_acked {requests : List (PickupRequest × Timestamp)}
    {ack : MessagesReceivedMessage} {now : Timestamp} (hack : (.received ack, now) ∈ requests)
    {id : String} (hid : id ∈ ack.messageIdList) :
    (requestedAll t connectionId requests).messages.lookup id = none := by
  induction requests generalizing t with
  | nil => cases hack
  | cons request requests ih =>
    rcases mem_cons.1 hack with rfl | hlater
    · refine requestedAll_none ?_ requests
      show (t.removeMessages ack.messageIdList).messages.lookup id = none
      rw [QueueTables.lookup_removeMessages, if_pos hid]
    · exact ih hlater

theorem isolated_requestedAll_iff (ht : t.Valid) (requests : List (PickupRequest × Timestamp)) :
    Isolated connectionId t.messages (requestedAll t connectionId requests).messages ↔
      OwnAcks connectionId t.messages requests := by
  constructor
  · intro h ack now hack id hid m hm
    by_contra hne
    have hkept := h id m hm hne
    rw [requestedAll_acked hack hid] at hkept
    cases hkept
  · induction requests generalizing t with
    | nil => exact fun _ id m hm _ => hm
    | cons request requests ih =>
      intro hown id m hm hne
      have hstep := isolated_requested ht request.1 (fun ack heq id' hid' m' hm' =>
        hown ack request.2 (by rw [← heq]; exact mem_cons_self) id' hid' m' hm')
      refine ih (requested_valid ht request.1) (fun ack now hack id' hid' m' hm' => ?_) id m
        (hstep id m hm hne) hne
      obtain ⟨m₀, hm₀, hconn⟩ := lookup_requested hm'
      rw [← hconn]
      exact hown ack now (mem_cons_of_mem _ hack) id' hid' m₀ hm₀

theorem processAll_inMemory (order : IterOrder String) (t : QueueTables) (connectionId : String)
    (requests : List (PickupRequest × Timestamp)) :
    processAll (inMemory order) t connectionId requests = requestedAll t connectionId requests := by
  unfold processAll requestedAll
  congr 1
  funext t request
  exact process_inMemory order t connectionId request

theorem processAll_storageBacked (h : s.Synced t) (requests : List (PickupRequest × Timestamp)) :
    (processAll (storageBacked order) s connectionId requests).Synced
      (requestedAll t connectionId requests) := by
  induction requests generalizing s t with
  | nil => exact h
  | cons request requests ih => exact ih (process_storageBacked h request)

/-! ## Queue contents -/

/-- The in-memory queue after some calls, each new message with a fresh id. -/
inductive QueueTables.Reached : QueueTables → Prop
  | new : Reached .new
  | call {t : QueueTables} {c : QueueCall} (order : IterOrder String) : Reached t → t.Fresh c →
    Reached (t.call order c).1

/-- The storage-backed queue after some calls and restarts, each new message with a fresh id. -/
inductive StorageBacked.Reached : StorageBacked → Prop
  | new : Reached .new
  | restart {s : StorageBacked} : Reached s → Reached s.restart
  | call {s : StorageBacked} {c : QueueCall} (order : IterOrder String) : Reached s →
    (s.ensureLoaded order).2.Fresh c → Reached (s.call order c).1

theorem QueueTables.Reached.valid (h : t.Reached) : t.Valid := by
  induction h with
  | new => exact QueueTables.valid_new
  | call order _ hfresh ih => exact ih.call hfresh

namespace StorageBacked

theorem Reached.keyed_or_synced (h : s.Reached) : Keyed s ∨ ∃ t, Synced s t := by
  induction h with
  | new => exact .inl keyed_new
  | restart _ ih =>
    rcases ih with hkeyed | ⟨t, hsynced⟩
    · exact .inl ⟨rfl, hkeyed.2⟩
    · exact .inl hsynced.restart
  | @call s c order _ hfresh ih =>
    have hloaded : ∃ t, Synced (s.loaded order) t := by
      rcases ih with hkeyed | ⟨t, hsynced⟩
      · exact hkeyed.synced order
      · exact ⟨t, by rwa [hsynced.loaded_eq order]⟩
    obtain ⟨t, hsynced⟩ := hloaded
    have htables : (s.ensureLoaded order).2 = t := Option.some.inj hsynced.cache
    rw [htables] at hfresh
    exact .inr ⟨_, (hsynced.call order hfresh).1⟩

theorem Reached.synced (h : s.Reached) (order : IterOrder String) :
    ∃ t, Synced (s.loaded order) t := by
  rcases h.keyed_or_synced with hkeyed | ⟨t, hsynced⟩
  · exact hkeyed.synced order
  · exact ⟨t, by rwa [hsynced.loaded_eq order]⟩

end StorageBacked

open StorageBacked

theorem process_loaded (order : IterOrder String) (s : StorageBacked) (connectionId : String)
    (request : PickupRequest × Timestamp) :
    (process (storageBacked order) (s.loaded order) connectionId request) =
      process (storageBacked order) s connectionId request := by
  obtain ⟨request | request | ack, now⟩ := request <;> rfl

theorem ensureLoaded_processAll (order : IterOrder String) (s : StorageBacked)
    (connectionId : String) (requests : List (PickupRequest × Timestamp)) :
    (processAll (storageBacked order) (s.loaded order) connectionId requests).ensureLoaded order =
      (processAll (storageBacked order) s connectionId requests).ensureLoaded order := by
  cases requests with
  | nil => rfl
  | cons request requests =>
    unfold processAll
    rw [foldl_cons, foldl_cons, process_loaded]

/-- **Requests of a connection leave the messages of all others alone exactly when no
acknowledgment names one of them**, in both repositories. -/
theorem isolated_iff (order : IterOrder String) (connectionId : String)
    (requests : List (PickupRequest × Timestamp)) :
    (∀ t : QueueTables, t.Reached →
      (Isolated connectionId t.messages
          (processAll (inMemory order) t connectionId requests).messages ↔
        OwnAcks connectionId t.messages requests)) ∧
    ∀ s : StorageBacked, s.Reached →
      let before := s.ensureLoaded order
      let after := (processAll (storageBacked order) s connectionId requests).ensureLoaded order
      (Isolated connectionId before.2.messages after.2.messages ∧
          Isolated connectionId before.1 after.1 ↔
        OwnAcks connectionId before.2.messages requests) := by
  refine ⟨fun t ht => ?_, ?_⟩
  · rw [processAll_inMemory]
    exact isolated_requestedAll_iff ht.valid requests
  · intro s hs before after
    obtain ⟨t, hsynced⟩ := hs.synced order
    have hbefore : before = (t.messages, t) := by
      show s.ensureLoaded order = _
      rw [← ensureLoaded_loaded, hsynced.ensureLoaded]
    have hafter : after = ((requestedAll t connectionId requests).messages,
        requestedAll t connectionId requests) := by
      show (processAll (storageBacked order) s connectionId requests).ensureLoaded order = _
      rw [← ensureLoaded_processAll, (processAll_storageBacked hsynced requests).ensureLoaded]
    rw [hbefore, hafter, and_self]
    exact isolated_requestedAll_iff hsynced.valid requests

def Sample.message : QueuedMessage :=
  .new "2f1e6b5c-7d3a-4a52-9a41-0c6f4e1d8b90" "conn-victim" ["key-1"] "ciphertext" 0

open Sample

/-- An acknowledgment of it on another connection. -/
def Sample.foreignAck : List (PickupRequest × Timestamp) :=
  [(.received ⟨"ack-1", none, [message.id]⟩, 1)]

/-- The acknowledgment removes the other wallet's message, from both repositories. -/
theorem isolated_fails_foreignAck :
    (∃ t : QueueTables, t.Reached ∧
      ¬ Isolated "conn-mallory" t.messages
        (processAll (inMemory some) t "conn-mallory" foreignAck).messages) ∧
    ∃ s : StorageBacked, s.Reached ∧
      ¬ Isolated "conn-mallory" (s.ensureLoaded some).2.messages
        ((processAll (storageBacked some) s "conn-mallory"
          foreignAck).ensureLoaded some).2.messages := by
  have hacked : (PickupRequest.received ⟨"ack-1", none, [message.id]⟩, (1 : Timestamp)) ∈
      foreignAck := mem_singleton.2 rfl
  have hfails : ∀ t : QueueTables, t.messages.lookup message.id = some message →
      ¬ Isolated "conn-mallory" t.messages
        (requestedAll t "conn-mallory" foreignAck).messages := by
    intro t hlookup hisolated
    have hkept := hisolated message.id message hlookup (by decide)
    rw [requestedAll_acked hacked (mem_singleton.2 rfl)] at hkept
    cases hkept
  have hadded : ∀ t : QueueTables, (t.addMessage message).messages.lookup
      message.id = some message := fun t => by
    rw [QueueTables.lookup_addMessage, if_pos rfl]
  refine ⟨⟨_, .call some .new (c := .addMessage message) rfl, ?_⟩, ?_⟩
  · exact hfails _ (hadded _)
  · obtain ⟨t, hsynced, hload, hempty⟩ := keyed_new.load some
    have hfresh : t.Fresh (.addMessage message) := hempty _
    have hreached : (new.call some (.addMessage message)).1.Reached :=
      .call some .new (by rw [hload]; exact hfresh)
    have hstart : (new.call some (.addMessage message)).1.Synced
        (t.addMessage message) := by
      unfold call
      rw [hload]
      rw [callLoaded_eq hsynced.valid hfresh]
      exact ⟨rfl, hsynced.valid.addMessage hfresh, rfl⟩
    refine ⟨_, hreached, ?_⟩
    rw [hstart.ensureLoaded, (processAll_storageBacked hstart _).ensureLoaded]
    exact hfails _ (hadded t)

end Idiom.Pickup
