import Idiom.Mediation.Socket

/-!
# The mediator server: HTTP requests and sockets

Every request runs against one table of live sessions and one queue. A session is a channel
registered under a connection id, or under a raw verkey; a flush pushes the queue of a connection
into its session.

* `Server.apply` — what an effect of a frame does to the sessions, the flushes and the queue.
* `Server.step` — sockets, HTTP requests, and the forwards and flushes they have started, in any
  order.
-/

namespace Idiom.Mediation

open Pickup Function

/-! ## Causes -/

/-- A request: the repositories as it finds them, its message, if the mediator unpacks it, and
whether an earlier request has carried the same envelope. -/
structure Cause where
  env : Env
  opened : Option (Message × UnpackMetadata)
  replayed : Bool

/-- The request carries a message that is authcrypt-verified as coming from the connection; a
key names its own connection. -/
def Cause.Verified (cause : Cause) (connectionId : String) : Prop :=
  ∃ message metadata raw, cause.opened = some (message, metadata) ∧
    metadata.authenticated = true ∧ metadata.sender = some raw ∧
    (connectionId = resolveSender cause.env raw ∨ connectionId = raw)

/-- The client has shown the keys of the connection: anyone can record a verified message and send
it again. -/
def Cause.Shows (cause : Cause) (connectionId : String) : Prop :=
  cause.Verified connectionId ∧ cause.replayed = false

/-- It carries no recorded message that is authcrypted. -/
def Cause.Fresh (cause : Cause) : Prop :=
  ∀ message metadata, cause.opened = some (message, metadata) → metadata.authenticated = true →
    cause.replayed = false

/-- The cause of what a frame does: a JWE that is forwarded unread carries no message. -/
def frameCause (env : Env) (replayed : Bool) : Envelope → Cause
  | .jwe header _ unpacked =>
    match Socket.directKid env header with
    | some _ => ⟨env, none, replayed⟩
    | none => ⟨env, unpacked, replayed⟩
  | .plaintext message => ⟨env, (Envelope.plaintext message).opened, replayed⟩

/-! ## State -/

/-- A socket, with its push channel and the requests it has carried. -/
structure OpenSocket where
  channel : ℕ
  socket : Socket
  history : List Cause

inductive HttpPc where
  | register (connectionId : String)
  | run
  | done

/-- A request over HTTP: the recipient and text of a JWE that is routed directly, and the
connection whose return-route session it holds. -/
structure HttpCall where
  cause : Cause
  direct : Option (String × String)
  session : Option String
  pc : HttpPc

/-- The relay has the sessions, the queue, the forwards and the flushes; `causes` has the request
that started each flush. The last three fields record every registration, every flush and every
envelope. -/
structure Server where
  relay : Relay
  sockets : ℕ → Option OpenSocket
  calls : ℕ → Option HttpCall
  nextTask : ℕ
  causes : ℕ → Option Cause
  registrations : List (Cause × String)
  flushed : List (Cause × String)
  carried : List Envelope

def grantedConnection (env : Env) (recipientKey : String) : Option String :=
  match forwardRow env.order env.rows recipientKey with
  | none => none
  | some r =>
    match env.mediations r.mediationId with
    | none => none
    | some m => if m.state = .granted then some m.connectionId else none

/-- The request that a pickup handler serves. -/
def pickupRequest (message : Message) : Option PickupRequest :=
  if containsText message.msgType "/messagepickup/" then message.pickup else none

/-- `LiveSessionManager::register_session_with_sender`: the last one to register wins. -/
def Relay.registerSessionWithSender (relay : Relay) (connectionId : String) (sender : ℕ) : Relay :=
  { relay with sessions := update relay.sessions connectionId (some sender) }

/-- `LiveSessionManager::remove_session`. -/
def Relay.removeSession (relay : Relay) (connectionId : String) : Relay :=
  { relay with sessions := update relay.sessions connectionId none }

/-- The cleanup of a socket or a request: the session it holds is removed, if it holds one. -/
def Relay.cleanup (relay : Relay) : Option String → Relay
  | none => relay
  | some connectionId => relay.removeSession connectionId

namespace Server

def start : Server := ⟨Relay.start, fun _ => none, fun _ => none, 0, fun _ => none, [], [], []⟩

/-- An earlier request has carried the envelope. -/
def replays (s : Server) (envelope : Envelope) : Bool := decide (envelope ∈ s.carried)

/-- A call of `process_forward` starts. -/
def startForward (s : Server) (recipientKey encryptedMessage : String)
    (connection : Option String) : Server :=
  let task (c : String) (pc : ForwardPc) : Server := { s with
    relay := { s.relay with
      forwards := update s.relay.forwards s.nextTask
        (some ⟨c, recipientKey, encryptedMessage, pc⟩) }
    nextTask := s.nextTask + 1 }
  match connection with
  | none => task "" .failed
  | some c =>
    if maxForwardedMessageSizeBytes < encryptedMessage.utf8ByteSize then task c .failed
    else task c .count

def apply (cause : Cause) (channel : ℕ) (s : Server) : Effect → Server
  | .forward recipientKey encryptedMessage =>
    s.startForward recipientKey encryptedMessage (grantedConnection cause.env recipientKey)
  | .register connectionId => { s with
      relay := s.relay.registerSessionWithSender connectionId channel
      registrations := s.registrations ++ [(cause, connectionId)] }
  | .flush connectionId => { s with
      relay := { s.relay with
        flushes := update s.relay.flushes s.nextTask (some ⟨connectionId, channel, 0, .take⟩) }
      nextTask := s.nextTask + 1
      causes := update s.causes s.nextTask (some cause)
      flushed := s.flushed ++ [(cause, connectionId)] }
  | .handle message context =>
    match context.connectionId, pickupRequest message with
    | some connectionId, some request => { s with
        relay := { s.relay with queue := requested s.relay.queue connectionId request } }
    | _, _ => s

/-! ## HTTP -/

/-- Where a request goes on: it registers a session only if there is none. -/
def httpPc (s : Server) : Option String → HttpPc
  | none => .run
  | some connectionId =>
    match s.relay.sessions connectionId with
    | some _ => .run
    | none => .register connectionId

/-- A message that was unpacked or parsed; the return route may stand beside it. -/
def openedCall (s : Server) (env : Env) (transport : Option String) (replayed : Bool) :
    Option (Message × UnpackMetadata) → Option HttpCall
  | none => none
  | some (message, metadata) =>
    let resolved := metadata.sender.map (resolveSender env)
    let route := if transport.or message.returnRoute = some "all" then resolved else none
    some ⟨⟨env, some (message, metadata), replayed⟩, none, none, s.httpPc route⟩

/-- The start of the handler, and of `direct_route_jwe`. -/
def httpCall (s : Server) (env : Env) (transport : Option String) (envelope : Envelope) :
    Option HttpCall :=
  let replayed := s.replays envelope
  match envelope with
  | .jwe header text unpacked =>
    match httpMatchedKid env.order env.rows (extractJweRecipientKids header) with
    | some kid =>
      let sender := (skidKey header).bind (resolveConnectionId env)
      some ⟨⟨env, none, replayed⟩, some (kid, text), none, s.httpPc sender⟩
    | none => s.openedCall env transport replayed unpacked
  | .plaintext message => s.openedCall env transport replayed (Envelope.plaintext message).opened

/-- The security gate and the dispatch of the HTTP handler. -/
def httpEffects (call : HttpCall) : List Effect :=
  match call.direct, call.cause.opened with
  | some (kid, text), _ => [.forward kid text]
  | none, none => []
  | none, some (message, metadata) =>
    if requiresAuthcrypt message.msgType ∧ metadata.authenticated = false then []
    else if call.cause.env.hasHandler message.msgType = false then []
    else
      [.handle message ⟨metadata.sender.map (resolveSender call.cause.env), metadata.encrypted,
        metadata.authenticated⟩]

end Server

/-! ## Runs -/

inductive ServerStep where
  | connect (u : ℕ)
  | frame (u : ℕ) (env : Env) (envelope : Envelope)
  | disconnect (u : ℕ)
  /-- A request arrives over HTTP, and looks whether there is a session. -/
  | post (t : ℕ) (env : Env) (transport : Option String) (envelope : Envelope)
  /-- It registers a return-route session. -/
  | register (t : ℕ)
  /-- It is dispatched or routed. -/
  | run (t : ℕ)
  /-- It ends. If its handler has panicked, the session stays. -/
  | finish (t : ℕ) (panicked : Bool)
  /-- The handler of a forward message calls `process_forward`. -/
  | forward (recipientKey encryptedMessage : String) (connection : Option String)
  | runForward (t : ℕ) (now : Timestamp) (id : String) (accepts : Bool)
  | runFlush (u : ℕ) (frameId : String) (accepts : Bool)
  /-- The periodic sweep. -/
  | deleteExpired (order : IterOrder String) (cutoff : Timestamp)

namespace Server

variable (strategy : ForwardingStrategy)

def step (s : Server) : ServerStep → Option Server
  | .connect u =>
    match s.sockets u with
    | some _ => none
    | none => some { s with
        relay := { s.relay with nextSession := s.relay.nextSession + 1 }
        sockets := update s.sockets u (some ⟨s.relay.nextSession, .start, []⟩) }
  | .frame u env envelope =>
    match s.sockets u with
    | none => none
    | some sock =>
      let cause := frameCause env (s.replays envelope) envelope
      let received := sock.socket.receive env envelope
      let s := received.2.foldl (apply cause sock.channel) s
      let sock := { sock with socket := received.1, history := sock.history ++ [cause] }
      some { s with
        sockets := update s.sockets u (some sock)
        carried := s.carried ++ [envelope] }
  | .disconnect u =>
    match s.sockets u with
    | none => none
    | some sock => some { s with
        relay := s.relay.cleanup sock.socket.connId
        sockets := update s.sockets u none }
  | .post t env transport envelope =>
    match s.calls t with
    | some _ => none
    | none => some { s with
        calls := update s.calls t (s.httpCall env transport envelope)
        carried := s.carried ++ [envelope] }
  | .register t =>
    match s.calls t with
    | some ⟨cause, direct, _, .register connectionId⟩ => some { s with
        relay := { s.relay.registerSessionWithSender connectionId s.relay.nextSession with
          nextSession := s.relay.nextSession + 1 }
        calls := update s.calls t (some ⟨cause, direct, some connectionId, .run⟩)
        registrations := s.registrations ++ [(cause, connectionId)] }
    | _ => none
  | .run t =>
    match s.calls t with
    | some ⟨cause, direct, session, .run⟩ =>
      let s := (httpEffects ⟨cause, direct, session, .run⟩).foldl (apply cause 0) s
      some { s with calls := update s.calls t (some ⟨cause, direct, session, .done⟩) }
    | _ => none
  | .finish t panicked =>
    match s.calls t with
    | some ⟨_, _, session, .done⟩ => some { s with
        relay := if panicked then s.relay else s.relay.cleanup session
        calls := update s.calls t none }
    | _ => none
  | .forward recipientKey encryptedMessage connection =>
    some (s.startForward recipientKey encryptedMessage connection)
  | .runForward t now id accepts =>
    match s.relay.forwards t with
    | none => none
    | some task => (s.relay.stepForward strategy t task now id accepts).map
        fun relay => { s with relay := relay }
  | .runFlush u frameId accepts =>
    match s.relay.flushes u with
    | none => none
    | some task => (s.relay.stepFlush u task frameId accepts).map
        fun relay => { s with relay := relay }
  | .deleteExpired order cutoff => some { s with
      relay := { s.relay with
        queue := (s.relay.queue.deleteExpired order cutoff).2
        expired := s.relay.expired ++ (s.relay.queue.expired order cutoff).map QueuedMessage.id } }

/-! ## The property -/

/-- Every session was registered, and every flush started, by a request that carries a message
verified as coming from that connection. -/
def Owned (s : Server) : Prop :=
  (∀ p ∈ s.registrations, p.1.Verified p.2) ∧ ∀ p ∈ s.flushed, p.1.Verified p.2

structure SameMail (victim : String) (s s' : Server) : Prop where
  channel : s'.relay.sessions victim = s.relay.sessions victim
  pending : ∀ id m, s.relay.queue.messages.lookup id = some m → m.connectionId = victim →
    m.state = .pending → s'.relay.queue.messages.lookup id = some m

/-- The step is not taken for a client that has shown the keys of the connection: its request
carries no message verified as coming from it, unless one that was recorded; its socket has carried
none but such, its flush was started by none but such. The periodic sweep is not taken for a
client. -/
def Foreign (victim : String) (s : Server) : ServerStep → Prop
  | .frame _ env envelope => ¬ (frameCause env (s.replays envelope) envelope).Shows victim
  | .disconnect u => ∀ sock, s.sockets u = some sock → ∀ cause ∈ sock.history,
      ¬ cause.Shows victim
  | .post _ env transport envelope => ∀ call, s.httpCall env transport envelope = some call →
      ¬ call.cause.Shows victim
  | .register t => ∀ call, s.calls t = some call → ¬ call.cause.Shows victim
  | .run t => ∀ call, s.calls t = some call → ¬ call.cause.Shows victim
  | .finish t _ => ∀ call, s.calls t = some call → ¬ call.cause.Shows victim
  | .runFlush u _ _ => ∀ cause, s.causes u = some cause → ¬ cause.Shows victim
  | .deleteExpired _ _ => False
  | _ => True

/-! ## The condition -/

/-- An acknowledgment names no message of another connection. -/
def OwnAck (s : Server) (connectionId : String) (message : Message) : Prop :=
  ∀ ack, pickupRequest message = some (.received ack) → ∀ id ∈ ack.messageIdList,
    ∀ m, s.relay.queue.messages.lookup id = some m → m.connectionId = connectionId

/-- A frame on a socket that is no one's yet names no connection unless it is authcrypted, and
gets no response that names one unless it has a sender; and a pickup request on a socket that is
someone's is that client's, as are the messages it acknowledges. -/
def KeepsFrame (s : Server) (socket : Socket) (env : Env) (envelope : Envelope) : Prop :=
  (∀ header text unpacked kid, envelope = .jwe header text unpacked →
    Socket.directKid env header = some kid → socket.localConnId = none →
      (skidKey header).bind (resolveConnectionId env) = none) ∧
  ∀ message metadata,
    (frameCause env (s.replays envelope) envelope).opened = some (message, metadata) →
    (socket.localConnId = none → metadata.sender ≠ none → metadata.authenticated = true) ∧
    (socket.connId = none → metadata.sender = none → env.response = none) ∧
    (metadata.authenticated = true → pickupRequest message ≠ none →
      (∀ c, socket.localConnId = some c → metadata.sender.map (resolveSender env) = some c) ∧
        ∀ raw, metadata.sender = some raw → s.OwnAck (resolveSender env raw) message)

/-- No request carries a recorded message that is authcrypted. A frame keeps to `KeepsFrame`; a
return-route session is registered for an authcrypted message only; an acknowledgment over HTTP
names no message of another connection; and a forward that finds the queue full finds no message
old enough to be dropped. -/
def Keeps (s : Server) : ServerStep → Prop
  | .frame u env envelope => (frameCause env (s.replays envelope) envelope).Fresh ∧
      ∀ sock, s.sockets u = some sock → s.KeepsFrame sock.socket env envelope
  | .post _ env transport envelope => ∀ call, s.httpCall env transport envelope = some call →
      call.cause.Fresh
  | .register t => ∀ call, s.calls t = some call → ∃ message metadata,
      call.cause.opened = some (message, metadata) ∧ metadata.authenticated = true
  | .run t => ∀ call message metadata raw, s.calls t = some call →
      call.cause.opened = some (message, metadata) → metadata.authenticated = true →
        metadata.sender = some raw → s.OwnAck (resolveSender call.cause.env raw) message
  | .runForward t now _ _ => ∀ task, s.relay.forwards t = some task → task.pc = .relieve →
      s.relay.queue.expiredIdsFor task.connectionId (now - forwardStaleReliefTtl) = []
  | _ => True

end Server

end Idiom.Mediation
