import Idiom.Lib.Run
import Idiom.Pickup.Requests

/-!
# Forwarding and replay: `services/forward_service.rs`

A forwarded message is queued and then pushed on the live session of its connection. When a
client registers a session, a flush takes the pending messages of the connection in batches,
marks them as being sent and pushes each batch as one frame.
-/

namespace Idiom.Mediation

open Pickup Function Option List

inductive ForwardingStrategy where
  | queueOnly
  | queueAndLiveDelivery
  deriving DecidableEq

def maxForwardedMessageSizeBytes : ℕ := 512 * 1024

def maxQueuePerConnection : ℕ := 1000

/-- `FORWARD_STALE_RELIEF_TTL`: seven days. -/
def forwardStaleReliefTtl : ℤ := 7 * 86400 * nanosPerSecond

def reconnectReplayBatch : ℕ := 50

/-! ## Frames -/

/-- A `messagepickup/2.0/delivery` message. -/
structure DeliveryFrame where
  id : String
  attachments : List Attachment

/-- Each attachment carries its queue-entry ID. -/
def buildDeliveryFrame (deliveryId : String) (attachments : List Attachment) : DeliveryFrame :=
  ⟨deliveryId, attachments⟩

/-- The attachment of a queued message, built from its parts. -/
def encryptedToAttachment (messageId encryptedMessage : String) : Attachment where
  id := some messageId
  mediaType := some "application/didcomm-encrypted+json"
  byteCount := some encryptedMessage.utf8ByteSize
  base64Of := encryptedMessage

/-- The frame has the message. -/
def DeliveryFrame.Carries (frame : DeliveryFrame) (id : String) : Prop :=
  ∃ a ∈ frame.attachments, a.id = some id

/-! ## Calls -/

/-- Where a call of `process_forward` stands. -/
inductive ForwardPc where
  | count
  | relieve
  | enqueue
  | hasSession (id : String)
  | tryDeliver (id : String)
  | accepted (id : String)
  | failed

/-- The message that is queued, with the live push still to come. -/
def ForwardPc.waitingId : ForwardPc → Option String
  | .hasSession id => some id
  | .tryDeliver id => some id
  | _ => none

structure ForwardTask where
  connectionId : String
  recipientKey : String
  encryptedMessage : String
  pc : ForwardPc

/-- Where a call of `flush_queued_for_connection` stands. -/
inductive FlushPc where
  | take
  | lookup (batch : List QueuedMessage)
  | send (session : ℕ) (batch : List QueuedMessage)
  | completed
  | stopped

/-- A flush, with the session it was started for. -/
structure FlushTask where
  connectionId : String
  session : ℕ
  delivered : ℕ
  pc : FlushPc

/-- Has the flush not returned? -/
def FlushPc.running : FlushPc → Bool
  | .completed => false
  | .stopped => false
  | _ => true

/-- The messages the flush has taken and not pushed. -/
def FlushPc.batch : FlushPc → List QueuedMessage
  | .lookup batch => batch
  | .send _ batch => batch
  | _ => []

/-! ## The relay -/

/-- The queue, the live sessions and the calls; then what has happened: the frames pushed on
each session, the sessions that refused one, the messages queued, what was queued before a
session was registered, and which messages were accepted, handed out, acknowledged or
expired. -/
structure Relay where
  queue : QueueTables
  sessions : String → Option ℕ
  nextSession : ℕ
  forwards : ℕ → Option ForwardTask
  flushes : ℕ → Option FlushTask
  frames : List (ℕ × DeliveryFrame)
  refused : List ℕ
  queued : List (String × String)
  before : ℕ → List String
  accepted : List (String × String)
  delivered : List String
  acked : List String
  expired : List String

inductive RelayStep where
  /-- A forward arrives; the connection is that of the granted mediation of its recipient key. -/
  | forward (t : ℕ) (recipientKey encryptedMessage : String) (connection : Option String)
  /-- A forward goes on: the clock, a fresh id, and whether a live channel takes the frame. -/
  | runForward (t : ℕ) (now : Timestamp) (id : String) (accepts : Bool)
  /-- A client registers a session, and its flush starts. -/
  | reconnect (connectionId : String) (u : ℕ)
  /-- A flush goes on: a fresh frame id, and whether the live channel takes the frame. -/
  | runFlush (u : ℕ) (frameId : String) (accepts : Bool)
  | deliveryRequest (connectionId : String) (recipientKey : Option String) (limit : ℕ)
  /-- Ids that were handed out are acknowledged. -/
  | messagesReceived (ids : List String)
  | socketDrop (connectionId : String)
  /-- The periodic sweep. -/
  | deleteExpired (order : IterOrder String) (cutoff : Timestamp)

namespace Relay

def start : Relay where
  queue := .new
  sessions _ := none
  nextSession := 0
  forwards _ := none
  flushes _ := none
  frames := []
  refused := []
  queued := []
  before _ := []
  accepted := []
  delivered := []
  acked := []
  expired := []

variable (strategy : ForwardingStrategy)

/-- The next part of a forward. -/
def stepForward (s : Relay) (t : ℕ) (task : ForwardTask) (now : Timestamp) (id : String)
    (accepts : Bool) : Option Relay :=
  let goOn (s : Relay) (pc : ForwardPc) : Relay :=
    { s with forwards := update s.forwards t (some { task with pc := pc }) }
  let c := task.connectionId
  match task.pc with
  | .count =>
    if maxQueuePerConnection ≤ s.queue.getPendingCount c none then some (goOn s .relieve)
    else some (goOn s .enqueue)
  | .relieve =>
    let cutoff := now - forwardStaleReliefTtl
    let result := s.queue.deleteExpiredForConnection c cutoff
    let s := { s with queue := result.2, expired := s.expired ++ s.queue.expiredIdsFor c cutoff }
    if result.1 = 0 then some (goOn s .failed) else some (goOn s .enqueue)
  | .enqueue =>
    if id ∈ s.queued.map Prod.fst then none
    else
      let message := QueuedMessage.new id c [task.recipientKey] task.encryptedMessage now
      some (goOn { s with
        queue := s.queue.addMessage message, queued := s.queued ++ [(id, c)] } (.hasSession id))
  | .hasSession id =>
    if strategy = .queueAndLiveDelivery ∧ (s.sessions c).isSome then some (goOn s (.tryDeliver id))
    else some (goOn { s with accepted := s.accepted ++ [(id, c)] } (.accepted id))
  | .tryDeliver id =>
    let s' := { s with accepted := s.accepted ++ [(id, c)] }
    match s.sessions c, accepts with
    | none, _ => some (goOn s' (.accepted id))
    | some σ, false => some (goOn { s' with refused := s.refused ++ [σ] } (.accepted id))
    | some σ, true =>
      let frame := buildDeliveryFrame id [encryptedToAttachment id task.encryptedMessage]
      some (goOn { s' with
        frames := s.frames ++ [(σ, frame)], delivered := s.delivered ++ [id] } (.accepted id))
  | .accepted _ => none
  | .failed => none

/-- The next part of a flush. -/
def stepFlush (s : Relay) (u : ℕ) (task : FlushTask) (frameId : String) (accepts : Bool) :
    Option Relay :=
  let goOn (s : Relay) (delivered : ℕ) (pc : FlushPc) : Relay :=
    { s with
      flushes := update s.flushes u (some { task with delivered := delivered, pc := pc }) }
  match task.pc with
  | .take =>
    let result := s.queue.takeFromQueue task.connectionId none reconnectReplayBatch
    let s := { s with queue := result.2 }
    if result.1 = [] then some (goOn s task.delivered .completed)
    else some (goOn s task.delivered (.lookup result.1))
  | .lookup batch =>
    match s.sessions task.connectionId with
    | none => some (goOn s task.delivered .stopped)
    | some σ => some (goOn s task.delivered (.send σ batch))
  | .send σ batch =>
    if accepts then
      let s := { s with
        frames := s.frames ++ [(σ, buildDeliveryFrame frameId (batch.map attachmentOf))]
        delivered := s.delivered ++ batch.map QueuedMessage.id }
      let delivered := task.delivered + batch.length
      if batch.length < reconnectReplayBatch then some (goOn s delivered .completed)
      else some (goOn s delivered .take)
    else some (goOn { s with refused := s.refused ++ [σ] } task.delivered .stopped)
  | .completed => none
  | .stopped => none

def step (s : Relay) : RelayStep → Option Relay
  | .forward t recipientKey encryptedMessage connection =>
    match s.forwards t with
    | some _ => none
    | none =>
      let task (c : String) (pc : ForwardPc) : Relay := { s with
        forwards := update s.forwards t (some ⟨c, recipientKey, encryptedMessage, pc⟩) }
      match connection with
      | none => some (task "" .failed)
      | some c =>
        if maxForwardedMessageSizeBytes < encryptedMessage.utf8ByteSize then
          some (task c .failed)
        else some (task c .count)
  | .runForward t now id accepts =>
    match s.forwards t with
    | none => none
    | some task => s.stepForward strategy t task now id accepts
  | .reconnect c u =>
    match s.flushes u with
    | some _ => none
    | none => some { s with
        sessions := update s.sessions c (some s.nextSession)
        nextSession := s.nextSession + 1
        flushes := update s.flushes u (some ⟨c, s.nextSession, 0, .take⟩)
        before := update s.before s.nextSession (s.queued.map Prod.fst) }
  | .runFlush u frameId accepts =>
    match s.flushes u with
    | none => none
    | some task => s.stepFlush u task frameId accepts
  | .deliveryRequest c key limit =>
    let result := s.queue.takeFromQueue c key limit
    some { s with
      queue := result.2, delivered := s.delivered ++ result.1.map QueuedMessage.id }
  | .messagesReceived ids =>
    if ∀ id ∈ ids, id ∈ s.delivered then
      some { s with queue := s.queue.removeMessages ids, acked := s.acked ++ ids }
    else none
  | .socketDrop c => some { s with sessions := update s.sessions c none }
  | .deleteExpired order cutoff => some { s with
      queue := (s.queue.deleteExpired order cutoff).2
      expired := s.expired ++ (s.queue.expired order cutoff).map QueuedMessage.id }

/-- A frame with the message was pushed on the session. -/
def Pushed (s : Relay) (σ : ℕ) (id : String) : Prop :=
  ∃ p ∈ s.frames, p.1 = σ ∧ p.2.Carries id

/-- Once the flush of the current session is complete, and the session took every frame, every
accepted message that is neither acknowledged nor expired is in a frame pushed on it. With
`queueOnly` these are the messages queued before the session was registered. -/
def Replayed (s : Relay) : Prop :=
  ∀ c σ, s.sessions c = some σ → σ ∉ s.refused →
    (∃ u f, s.flushes u = some f ∧ f.connectionId = c ∧ f.session = σ ∧ f.pc = .completed) →
    ∀ id, (id, c) ∈ s.accepted → id ∉ s.acked → id ∉ s.expired →
      (strategy = .queueAndLiveDelivery ∨ id ∈ s.before σ) → s.Pushed σ id

/-- When a client reconnects, none of its messages is still marked as being sent and no earlier
flush of it is running; and a delivery request on a connection with a session takes only
messages that were pushed on it. -/
def Keeps (s : Relay) : RelayStep → Prop
  | .reconnect c _ =>
    (∀ id m, s.queue.messages.lookup id = some m → m.connectionId = c → m.state = .pending) ∧
      ∀ u f, s.flushes u = some f → f.connectionId = c → f.pc.running = false
  | .deliveryRequest c key limit =>
    ∀ σ, s.sessions c = some σ → ∀ m ∈ s.queue.taken c key limit, s.Pushed σ m.id
  | _ => True

/-! ## What a part of a forward does -/

variable {strategy} {s s' : Relay}

/-- A part of a forward only goes on; or it relieves the queue; or it queues the message; or it
ends, and has pushed the message on the live session, unless the session refused it. -/
theorem stepForward_cases {t : ℕ} {task : ForwardTask} {now : Timestamp} {id : String}
    {accepts : Bool} (hstep : s.stepForward strategy t task now id accepts = some s') :
    (∃ pc : ForwardPc, pc.waitingId = task.pc.waitingId ∧ s' = { s with
      forwards := update s.forwards t (some { task with pc := pc }) }) ∨
    (∃ pc : ForwardPc, task.pc = .relieve ∧ pc.waitingId = none ∧ s' = { s with
      queue := (s.queue.deleteExpiredForConnection task.connectionId
        (now - forwardStaleReliefTtl)).2
      expired := s.expired ++ s.queue.expiredIdsFor task.connectionId (now - forwardStaleReliefTtl)
      forwards := update s.forwards t (some { task with pc := pc }) }) ∨
    (task.pc = .enqueue ∧ id ∉ s.queued.map Prod.fst ∧ s' = { s with
      queue := s.queue.addMessage
        (QueuedMessage.new id task.connectionId [task.recipientKey] task.encryptedMessage now)
      queued := s.queued ++ [(id, task.connectionId)]
      forwards := update s.forwards t (some { task with pc := .hasSession id }) }) ∨
    ∃ k frames refused delivered, task.pc.waitingId = some k ∧ (∀ p ∈ s.frames, p ∈ frames) ∧
      (∀ σ ∈ s.refused, σ ∈ refused) ∧
      (∀ σ, s.sessions task.connectionId = some σ → σ ∉ refused →
        strategy ≠ .queueAndLiveDelivery ∨ ∃ p ∈ frames, p.1 = σ ∧ p.2.Carries k) ∧
      s' = { s with
        frames := frames
        refused := refused
        delivered := delivered
        accepted := s.accepted ++ [(k, task.connectionId)]
        forwards := update s.forwards t (some { task with pc := .accepted k }) } := by
  cases hpc : task.pc with
  | count =>
    simp only [stepForward, hpc] at hstep
    split_ifs at hstep
    · exact .inl ⟨.relieve, rfl, (some.inj hstep).symm⟩
    · exact .inl ⟨.enqueue, rfl, (some.inj hstep).symm⟩
  | relieve =>
    simp only [stepForward, hpc] at hstep
    split_ifs at hstep
    · exact .inr (.inl ⟨.failed, rfl, rfl, (some.inj hstep).symm⟩)
    · exact .inr (.inl ⟨.enqueue, rfl, rfl, (some.inj hstep).symm⟩)
  | enqueue =>
    simp only [stepForward, hpc] at hstep
    split_ifs at hstep with hfresh
    exact .inr (.inr (.inl ⟨rfl, hfresh, (some.inj hstep).symm⟩))
  | hasSession k =>
    simp only [stepForward, hpc] at hstep
    split_ifs at hstep with hlive
    · exact .inl ⟨.tryDeliver k, rfl, (some.inj hstep).symm⟩
    · refine .inr (.inr (.inr ⟨k, s.frames, s.refused, s.delivered, rfl, fun p hp => hp,
        fun σ hσ => hσ, fun σ hσ _ => ?_, (some.inj hstep).symm⟩))
      exact .inl fun hstrategy => hlive ⟨hstrategy, by rw [hσ]; rfl⟩
  | tryDeliver k =>
    cases hσ : s.sessions task.connectionId with
    | none =>
      simp only [stepForward, hpc, hσ] at hstep
      exact .inr (.inr (.inr ⟨k, s.frames, s.refused, s.delivered, rfl, fun p hp => hp,
        fun σ hσ => hσ, fun σ hσ' => (by cases hσ'), (some.inj hstep).symm⟩))
    | some τ =>
      cases accepts with
      | false =>
        simp only [stepForward, hpc, hσ] at hstep
        refine .inr (.inr (.inr ⟨k, s.frames, s.refused ++ [τ], s.delivered, rfl, fun p hp => hp,
          fun σ hσ => mem_append_left _ hσ, fun σ hσ' hopen => ?_,
          (some.inj hstep).symm⟩))
        obtain rfl := some.inj hσ'
        exact absurd (mem_append_right _ (mem_singleton_self _)) hopen
      | true =>
        simp only [stepForward, hpc, hσ] at hstep
        refine .inr (.inr (.inr ⟨k, _, s.refused, _, rfl, fun p hp => mem_append_left _ hp,
          fun σ hσ => hσ, fun σ hσ' _ => .inr ?_, (some.inj hstep).symm⟩))
        obtain rfl := some.inj hσ'
        refine ⟨_, mem_append_right _ (mem_singleton_self _), rfl, ?_⟩
        exact ⟨_, mem_singleton_self _, rfl⟩
  | accepted k | failed => simp [stepForward, hpc] at hstep

end Relay

end Idiom.Mediation
