import Idiom.Mediation.Routing

/-!
# One mediator socket: `mediator_server/src/ws.rs`

The read loop of a socket learns which connection the client is, once, and keeps it for all
later frames. Three kinds of frames can teach it: a JWE for a mediated recipient, by its
`skid`; a JWE for the mediator, by the sender that unpacking gives; and a plaintext message, by
its `from`.
-/

namespace Idiom.Mediation

open Pickup List

/-! ## Messages -/

/-- A DIDComm message, as far as dispatch reads it: its type, `from`, `~transport.return_route`,
and the request that the pickup handler of its type parses. -/
structure Message where
  msgType : String
  sender : Option String
  returnRoute : Option String
  pickup : Option PickupRequest
  deriving DecidableEq

/-- What unpacking tells about a message. -/
structure UnpackMetadata where
  sender : Option String
  encrypted : Bool
  authenticated : Bool
  deriving DecidableEq

/-- A text that parses as JSON: a JWE, with what `EnvelopeService::unpack` makes of it, or
plaintext, if it is a message. -/
inductive Envelope where
  | jwe (header : Jwe) (text : String) (unpacked : Option (Message × UnpackMetadata))
  | plaintext (message : Option Message)
  deriving DecidableEq

/-- The message, or nothing where it cannot be read. A plaintext message names its sender
itself. -/
def Envelope.opened : Envelope → Option (Message × UnpackMetadata)
  | .jwe _ _ unpacked => unpacked
  | .plaintext none => none
  | .plaintext (some message) => some (message, ⟨message.sender, false, false⟩)

structure MessageContext where
  connectionId : Option String
  encrypted : Bool
  authenticated : Bool

/-- `str::contains`. -/
def containsText (s part : String) : Bool := decide (part.toList <:+: s.toList)

/-- Message types that must be authcrypted. -/
def requiresAuthcrypt (msgType : String) : Bool :=
  containsText msgType "/coordinate-mediation/" || containsText msgType "/messagepickup/" ||
    msgType == "https://didcomm.org/rooms/1.0/commit" ||
    msgType == "https://didcomm.org/rooms/1.0/msg"

/-! ## Senders -/

/-- The repositories as a frame finds them, the message types that have a handler, and the
connection id of the response of the handler, if it gives one. -/
structure Env where
  order : IterOrder KeylistRecord
  rows : Keylist
  mediations : String → Option MediationRecord
  findByAuthKey : String → Option String
  findByKaKey : String → Option String
  hasHandler : String → Bool
  response : Option String

/-- Resolve a sender verkey to a stable connection record ID. -/
def resolveConnectionId (env : Env) (senderKey : String) : Option String :=
  match env.findByAuthKey senderKey with
  | some id => some id
  | none => env.findByKaKey senderKey

/-- The connection of a sender, or its key where there is none. -/
def resolveSender (env : Env) (rawKey : String) : String :=
  (resolveConnectionId env rawKey).getD rawKey

def multibaseToBase58Verkey (multibase : String) : Option String :=
  match stripPrefix "z" multibase with
  | none => none
  | some body =>
    match Base58.decode body with
    | none => none
    | some decoded =>
      if decoded.length ≤ 2 then none else some (Base58.encode (decoded.drop 2))

/-- Convert a `did:key:z…` to its raw base58 verkey; a `#fragment` is dropped. -/
def didKeyToBase58Verkey (didKey : String) : Option String :=
  match stripPrefix "did:key:" (String.ofList (didKey.toList.takeWhile (· ≠ '#'))) with
  | none => none
  | some multibase => multibaseToBase58Verkey multibase

/-- The key in the `skid` of a JWE. Nothing proves that the sender has it. -/
def skidKey (header : Jwe) : Option String :=
  header.skid.map fun skid => (didKeyToBase58Verkey skid).getD skid

/-! ## The socket -/

/-- `local_conn_id`, and the `connection_id` that is cleaned up on disconnect. -/
structure Socket where
  localConnId : Option String
  connId : Option String

/-- What a frame does, besides to the socket itself. -/
inductive Effect where
  | forward (recipientKey encryptedMessage : String)
  | register (connectionId : String)
  | flush (connectionId : String)
  | handle (message : Message) (context : MessageContext)

namespace Socket

def start : Socket := ⟨none, none⟩

/-- The socket is now that of a connection: its channel is registered under the connection and
under the key, and both are flushed. -/
def identify (connectionId raw : String) : Socket × List Effect :=
  (⟨some connectionId, some connectionId⟩,
    if connectionId = raw then [.register connectionId, .flush connectionId]
    else [.register connectionId, .register raw, .flush connectionId, .flush raw])

/-- The fast path: a JWE for a mediated recipient is forwarded unread. -/
def fastPath (env : Env) (s : Socket) (header : Jwe) (text kid : String) : Socket × List Effect :=
  let known : Socket × List Effect :=
    match s.localConnId, skidKey header with
    | none, some raw =>
      match resolveConnectionId env raw with
      | some connectionId => identify connectionId raw
      | none => (s, [])
    | _, _ => (s, [])
  (known.1, .forward kid text :: known.2)

def slowPath (env : Env) (s : Socket) (metadata : UnpackMetadata) :
    (Socket × List Effect) × MessageContext :=
  let resolved := metadata.sender.map (resolveSender env)
  let known : Socket × List Effect :=
    match s.localConnId, metadata.sender with
    | none, some raw => identify (resolveSender env raw) raw
    | _, _ => (s, [])
  (known, ⟨known.1.localConnId.or resolved, metadata.encrypted, metadata.authenticated⟩)

/-- The security gate and the dispatch. A response may reveal the connection. -/
def dispatch (env : Env) (s : Socket) (message : Message) (context : MessageContext) :
    Socket × List Effect :=
  if requiresAuthcrypt message.msgType ∧ context.authenticated = false then (s, [])
  else if env.hasHandler message.msgType = false then (s, [])
  else
    match s.connId, env.response with
    | none, some connectionId =>
      ({ s with connId := some connectionId },
        [.handle message context, .register connectionId, .flush connectionId])
    | _, _ => (s, [.handle message context])

/-- The recipient of a JWE that is forwarded unread. -/
def directKid (env : Env) (header : Jwe) : Option String :=
  wsMatchedKid env.order env.rows (extractJweRecipientKids header)

/-- The slow path, with what comes after it. -/
def receiveOpened (env : Env) (s : Socket) : Option (Message × UnpackMetadata) →
    Socket × List Effect
  | none => (s, [])
  | some (message, metadata) =>
    let slow := slowPath env s metadata
    let dispatched := dispatch env slow.1.1 message slow.2
    (dispatched.1, slow.1.2 ++ dispatched.2)

/-- One frame. -/
def receive (env : Env) (s : Socket) (envelope : Envelope) : Socket × List Effect :=
  match envelope with
  | .jwe header text unpacked =>
    match directKid env header with
    | some kid => fastPath env s header text kid
    | none => receiveOpened env s unpacked
  | .plaintext message => receiveOpened env s (Envelope.plaintext message).opened

end Socket

open Socket

/-! ## Runs -/

structure HandlerRun where
  env : Env
  envelope : Envelope
  message : Message
  context : MessageContext

def handlerRuns (env : Env) (envelope : Envelope) (effects : List Effect) : List HandlerRun :=
  effects.filterMap fun
    | .handle message context => some ⟨env, envelope, message, context⟩
    | _ => none

/-- The read loop, as the handlers that run. A frame that ends the loop ends the list. -/
def Socket.run (s : Socket) : List (Env × Envelope) → List HandlerRun
  | [] => []
  | (env, envelope) :: frames =>
    let received := s.receive env envelope
    handlerRuns env envelope received.2 ++ run received.1 frames

def HandlerRun.Bound (r : HandlerRun) : Prop :=
  ∃ message metadata, r.envelope.opened = some (message, metadata) ∧ metadata.authenticated = true ∧
    r.context.connectionId = metadata.sender.map (resolveSender r.env)

/-- Every handler of a sensitive type is given the connection of the verified sender of its
message. -/
def PrincipalBound (frames : List (Env × Envelope)) : Prop :=
  ∀ r ∈ start.run frames, requiresAuthcrypt r.message.msgType = true → r.Bound

/-! ## The condition -/

/-- The connection that a frame names, verified or not. -/
def named (env : Env) : Envelope → Option String
  | .jwe header _ unpacked =>
    match directKid env header with
    | some _ => (skidKey header).bind (resolveConnectionId env)
    | none => unpacked.bind fun p => p.2.sender.map (resolveSender env)
  | .plaintext message => message.bind fun m => m.sender.map (resolveSender env)

/-- The frame is not forwarded unread. -/
def Socket.Unrouted (env : Env) (envelope : Envelope) : Prop :=
  ∀ header text unpacked, envelope = .jwe header text unpacked → directKid env header = none

/-- The frame is a sensitive message that goes to a handler. -/
def Sensitive (env : Env) (envelope : Envelope) (metadata : UnpackMetadata) : Prop :=
  Unrouted env envelope ∧
    ∃ message, envelope.opened = some (message, metadata) ∧ metadata.authenticated = true ∧
      requiresAuthcrypt message.msgType = true ∧ env.hasHandler message.msgType = true

/-- The first frame that names a connection names that of the sender of every sensitive message
after it. -/
def OneSender (frames : List (Env × Envelope)) : Prop :=
  ∀ before env envelope after metadata, frames = before ++ (env, envelope) :: after →
    Sensitive env envelope metadata →
    ∀ connectionId, (before.findSome? fun p => named p.1 p.2) = some connectionId →
      metadata.sender.map (resolveSender env) = some connectionId

/-! ## One frame -/

namespace Socket

variable {env : Env} {s : Socket} {envelope : Envelope}

theorem receive_of_unrouted (h : Unrouted env envelope) :
    s.receive env envelope = s.receiveOpened env envelope.opened := by
  cases envelope with
  | jwe header text unpacked =>
    simp only [receive, h header text unpacked rfl]
    rfl
  | plaintext message => rfl

theorem named_of_unrouted (h : Unrouted env envelope) :
    named env envelope = envelope.opened.bind fun p => p.2.sender.map (resolveSender env) := by
  cases envelope with
  | jwe header text unpacked =>
    simp only [named, h header text unpacked rfl]
    rfl
  | plaintext message => cases message <;> rfl

theorem unrouted_or_fastPath (env : Env) (envelope : Envelope) :
    Unrouted env envelope ∨ ∃ header text unpacked kid,
      envelope = .jwe header text unpacked ∧ directKid env header = some kid := by
  cases envelope with
  | jwe header text unpacked =>
    cases hkid : directKid env header with
    | none =>
      left
      rintro _ _ _ ⟨⟩
      exact hkid
    | some kid => exact .inr ⟨header, text, unpacked, kid, rfl, hkid⟩
  | plaintext message =>
    left
    rintro _ _ _ ⟨⟩

theorem slowPath_localConnId (env : Env) (s : Socket) (metadata : UnpackMetadata) :
    (slowPath env s metadata).1.1.localConnId =
      s.localConnId.or (metadata.sender.map (resolveSender env)) := by
  unfold slowPath
  cases hlocal : s.localConnId with
  | some c => simp [hlocal]
  | none => cases metadata.sender <;> simp [hlocal, identify]

theorem slowPath_context (env : Env) (s : Socket) (metadata : UnpackMetadata) :
    (slowPath env s metadata).2 =
      ⟨s.localConnId.or (metadata.sender.map (resolveSender env)), metadata.encrypted,
        metadata.authenticated⟩ := by
  have hlocal := slowPath_localConnId env s metadata
  change MessageContext.mk ((slowPath env s metadata).1.1.localConnId.or _) _ _ = _
  rw [hlocal, Option.or_assoc, Option.or_self]

theorem slowPath_cases (env : Env) (s : Socket) (metadata : UnpackMetadata) :
    ((slowPath env s metadata).1 = (s, []) ∧ (s.localConnId ≠ none ∨ metadata.sender = none)) ∨
      ∃ raw, s.localConnId = none ∧ metadata.sender = some raw ∧
        (slowPath env s metadata).1 = identify (resolveSender env raw) raw := by
  unfold slowPath
  cases hlocal : s.localConnId with
  | some c => exact .inl ⟨rfl, .inl (by simp)⟩
  | none =>
    cases hsender : metadata.sender with
    | none => exact .inl ⟨rfl, .inr rfl⟩
    | some raw => exact .inr ⟨raw, rfl, rfl, rfl⟩

@[simp] theorem dispatch_localConnId (message : Message) (context : MessageContext) :
    (s.dispatch env message context).1.localConnId = s.localConnId := by
  unfold dispatch
  split_ifs
  · rfl
  · rfl
  · split <;> rfl

theorem receive_localConnId (envelope : Envelope) :
    (s.receive env envelope).1.localConnId = s.localConnId.or (named env envelope) := by
  rcases unrouted_or_fastPath env envelope with h | ⟨header, text, unpacked, kid, rfl, hkid⟩
  · rw [receive_of_unrouted h, named_of_unrouted h]
    cases envelope.opened with
    | none => simp [receiveOpened]
    | some p =>
      simp only [receiveOpened, dispatch_localConnId]
      exact slowPath_localConnId env s p.2
  · simp only [receive, named, hkid, fastPath]
    cases hlocal : s.localConnId with
    | some c => simp [hlocal]
    | none =>
      cases hskid : skidKey header with
      | none => simp [hlocal]
      | some raw =>
        cases hresolve : resolveConnectionId env raw with
        | none => simp [hlocal, hresolve]
        | some c => simp [identify, hresolve]

/-- The frame carries a message that passes the gate and has a handler. -/
def Dispatched (env : Env) (envelope : Envelope) (message : Message)
    (metadata : UnpackMetadata) : Prop :=
  Unrouted env envelope ∧ envelope.opened = some (message, metadata) ∧
    ¬ (requiresAuthcrypt message.msgType ∧ metadata.authenticated = false) ∧
    env.hasHandler message.msgType = true

theorem handlerRuns_append (envelope : Envelope) (l l' : List Effect) :
    handlerRuns env envelope (l ++ l') = handlerRuns env envelope l ++
      handlerRuns env envelope l' := by
  unfold handlerRuns
  rw [filterMap_append]

theorem handlerRuns_identify (envelope : Envelope) (connectionId raw : String) :
    handlerRuns env envelope (identify connectionId raw).2 = [] := by
  unfold identify
  split_ifs <;> rfl

theorem handlerRuns_slowPath (envelope : Envelope) (metadata : UnpackMetadata) :
    handlerRuns env envelope (slowPath env s metadata).1.2 = [] := by
  unfold slowPath
  cases s.localConnId with
  | some c => rfl
  | none =>
    cases metadata.sender with
    | none => rfl
    | some raw => exact handlerRuns_identify envelope _ _

theorem handlerRuns_fastPath (envelope : Envelope) (header : Jwe) (text kid : String) :
    handlerRuns env envelope (fastPath env s header text kid).2 = [] := by
  unfold fastPath
  cases s.localConnId with
  | some c => rfl
  | none =>
    cases skidKey header with
    | none => rfl
    | some raw =>
      cases hresolve : resolveConnectionId env raw with
      | none => simp [handlerRuns, hresolve]
      | some c =>
        simp only [hresolve]
        exact handlerRuns_identify envelope c raw

theorem handlerRuns_dispatch (envelope : Envelope) (message : Message) (context : MessageContext) :
    handlerRuns env envelope (s.dispatch env message context).2 =
      if (requiresAuthcrypt message.msgType ∧ context.authenticated = false) ∨
        env.hasHandler message.msgType = false then []
      else [⟨env, envelope, message, context⟩] := by
  unfold dispatch
  by_cases hgate : requiresAuthcrypt message.msgType ∧ context.authenticated = false
  · rw [if_pos hgate, if_pos (.inl hgate)]
    rfl
  · by_cases hhandler : env.hasHandler message.msgType = false
    · rw [if_neg hgate, if_pos hhandler, if_pos (.inr hhandler)]
      rfl
    · rw [if_neg hgate, if_neg hhandler, if_neg (not_or.2 ⟨hgate, hhandler⟩)]
      split <;> rfl

theorem mem_handlerRuns_receive {r : HandlerRun} :
    r ∈ handlerRuns env envelope (s.receive env envelope).2 ↔
      ∃ message metadata, Dispatched env envelope message metadata ∧
        r = ⟨env, envelope, message, s.localConnId.or (metadata.sender.map (resolveSender env)),
          metadata.encrypted, metadata.authenticated⟩ := by
  rcases unrouted_or_fastPath env envelope with h | ⟨header, text, unpacked, kid, rfl, hkid⟩
  · rw [receive_of_unrouted h]
    cases hopened : envelope.opened with
    | none => simp [receiveOpened, handlerRuns, Dispatched, hopened]
    | some p =>
      obtain ⟨message, metadata⟩ := p
      simp only [receiveOpened, handlerRuns_append, handlerRuns_slowPath, handlerRuns_dispatch,
        slowPath_context, Dispatched, hopened]
      constructor
      · intro hr
        split_ifs at hr with hnot
        · cases hr
        · rw [not_or] at hnot
          exact ⟨message, metadata, ⟨h, rfl, hnot.1, by simpa using hnot.2⟩, mem_singleton.1 hr⟩
      · rintro ⟨message', metadata', ⟨-, heq, hgate, hhandler⟩, rfl⟩
        obtain ⟨rfl, rfl⟩ := Prod.mk.inj (Option.some.inj heq)
        rw [if_neg (by simp only [not_or]; exact ⟨hgate, by simp [hhandler]⟩)]
        exact mem_singleton_self _
  · have hfast : s.receive env (.jwe header text unpacked) = fastPath env s header text kid := by
      simp only [receive, hkid]
    rw [hfast, handlerRuns_fastPath]
    constructor
    · rintro ⟨⟩
    · rintro ⟨_, _, ⟨h, -⟩, -⟩
      rw [h header text unpacked rfl] at hkid
      cases hkid

/-! ## All frames -/

theorem bound_receive_iff (s : Socket) (env : Env) (envelope : Envelope) :
    (∀ r ∈ handlerRuns env envelope (s.receive env envelope).2,
        requiresAuthcrypt r.message.msgType = true → r.Bound) ↔
      ∀ metadata, Sensitive env envelope metadata → ∀ c, s.localConnId = some c →
        metadata.sender.map (resolveSender env) = some c := by
  constructor
  · rintro h metadata ⟨hrouted, message, hopened, hauth, hsensitive, hhandler⟩ c hc
    have hdispatched : Dispatched env envelope message metadata :=
      ⟨hrouted, hopened, by simp [hauth], hhandler⟩
    obtain ⟨message', metadata', hopened', -, hbound⟩ :=
      h _ (mem_handlerRuns_receive.2 ⟨message, metadata, hdispatched, rfl⟩) hsensitive
    obtain ⟨rfl, rfl⟩ := Prod.mk.inj (Option.some.inj (hopened.symm.trans hopened'))
    simpa [hc] using hbound.symm
  · intro h r hr hsensitive
    obtain ⟨message, metadata, ⟨hrouted, hopened, hgate, hhandler⟩, rfl⟩ :=
      mem_handlerRuns_receive.1 hr
    have hauth : metadata.authenticated = true := by
      by_contra hnot
      exact hgate ⟨hsensitive, by simpa using hnot⟩
    refine ⟨message, metadata, hopened, hauth, ?_⟩
    cases hlocal : s.localConnId with
    | none => rfl
    | some c =>
      have hsender :=
        h metadata ⟨hrouted, message, hopened, hauth, hsensitive, hhandler⟩ c hlocal
      rw [hsender]
      rfl

theorem bound_run_iff (frames : List (Env × Envelope)) (s : Socket) :
    (∀ r ∈ s.run frames, requiresAuthcrypt r.message.msgType = true → r.Bound) ↔
      ∀ before env envelope after metadata, frames = before ++ (env, envelope) :: after →
        Sensitive env envelope metadata → ∀ c,
          s.localConnId.or (before.findSome? fun p => named p.1 p.2) = some c →
            metadata.sender.map (resolveSender env) = some c := by
  induction frames generalizing s with
  | nil => simp [run]
  | cons frame frames ih =>
    obtain ⟨env, envelope⟩ := frame
    -- what the later frames find is what the socket had, or what this frame names
    have hlater : ∀ before : List (Env × Envelope),
        (s.receive env envelope).1.localConnId.or (before.findSome? fun p => named p.1 p.2) =
          s.localConnId.or (((env, envelope) :: before).findSome? fun p => named p.1 p.2) := by
      intro before
      rw [receive_localConnId, Option.or_assoc, findSome?_cons]
      cases named env envelope <;> rfl
    simp only [run, mem_append, or_imp, forall_and, bound_receive_iff, ih, hlater]
    constructor
    · rintro ⟨hhead, htail⟩ before env' envelope' after metadata heq hsensitive c hc
      cases before with
      | nil =>
        obtain ⟨heq, -⟩ := cons.inj heq
        obtain ⟨rfl, rfl⟩ := Prod.mk.inj heq
        exact hhead metadata hsensitive c (by simpa using hc)
      | cons frame before =>
        obtain ⟨rfl, rfl⟩ := cons.inj heq
        exact htail before env' envelope' after metadata rfl hsensitive c hc
    · intro h
      constructor
      · intro metadata hsensitive c hc
        exact h [] env envelope frames metadata rfl hsensitive c (by simpa using hc)
      · rintro before env' envelope' after metadata rfl hsensitive c hc
        exact h ((env, envelope) :: before) env' envelope' after metadata rfl hsensitive c hc

end Socket

/-- **The principal of a socket.**  Whatever the frames are, every handler of a sensitive type is
given the connection of the verified sender of its message, exactly when the first frame that
names a connection names the one of every later sender. -/
theorem principalBound_iff (frames : List (Env × Envelope)) :
    PrincipalBound frames ↔ OneSender frames := by
  unfold PrincipalBound OneSender
  rw [bound_run_iff]
  simp [start]

namespace Sample

/-- A mediator with two connections. -/
noncomputable def env : Env where
  order := .some
  rows := ∅
  mediations _ := none
  findByAuthKey key :=
    if key = "alice-key" then some "alice" else if key = "mallory-key" then some "mallory" else none
  findByKaKey _ := none
  hasHandler _ := true
  response := none

def ping : Message := ⟨"https://didcomm.org/trust-ping/2.0/ping", some "alice-key", none, none⟩

def deliveryRequest : Message where
  msgType := "https://didcomm.org/messagepickup/2.0/delivery-request"
  sender := none
  returnRoute := none
  pickup := some (.delivery ⟨"request", none, 10⟩)

noncomputable def spoofed : List (Env × Envelope) :=
  [(env, .plaintext (some ping)),
    (env, .jwe ⟨[], [], none⟩ "" (some (deliveryRequest, ⟨some "mallory-key", true, true⟩)))]

end Sample

open Sample

/-- Mallory's delivery request is handled for Alice's connection. -/
theorem principalBound_fails_spoofed : ¬ PrincipalBound spoofed := by
  unfold PrincipalBound
  rw [bound_run_iff]
  intro h
  have hsensitive : Sensitive env
      (.jwe ⟨[], [], none⟩ "" (some (deliveryRequest, ⟨some "mallory-key", true, true⟩)))
      ⟨some "mallory-key", true, true⟩ := by
    refine ⟨?_, deliveryRequest, rfl, rfl, by decide, rfl⟩
    rintro header text unpacked ⟨⟩
    rfl
  have hsender := h [(env, .plaintext (some ping))] env _ [] _ rfl hsensitive
    "alice" (by simp [start, named, ping, resolveSender, resolveConnectionId, env])
  simp [resolveSender, resolveConnectionId, env] at hsender

end Idiom.Mediation
