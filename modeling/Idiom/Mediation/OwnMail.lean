import Idiom.Mediation.Server
import Idiom.Pickup.Refinement

/-!
# Queued mail is pushed to its owner
-/

namespace Idiom.Mediation

open Pickup Option Function Run QueueTables List

/-! ## Mail that is left alone -/

/-- The channel of the connection is the same, and its pending messages still are. -/
structure MailKept (victim : String) (r r' : Relay) : Prop where
  channel : r'.sessions victim = r.sessions victim
  pending : ∀ id m, r.queue.messages.lookup id = some m → m.connectionId = victim →
    m.state = .pending → r'.queue.messages.lookup id = some m

namespace MailKept

variable {victim : String} {r r' r'' : Relay}

theorem refl (r : Relay) : MailKept victim r r where
  channel := rfl
  pending _ _ hm _ _ := hm

theorem trans (h : MailKept victim r r') (h' : MailKept victim r' r'') :
    MailKept victim r r'' where
  channel := h'.channel.trans h.channel
  pending id m hm hc hpending := h'.pending id m (h.pending id m hm hc hpending) hc hpending

theorem of_eq (hsessions : r'.sessions = r.sessions)
    (hqueue : r'.queue.messages = r.queue.messages) : MailKept victim r r' where
  channel := by rw [hsessions]
  pending id m hm _ _ := by rw [hqueue, hm]

theorem of_update {connectionId : String} {session : Option ℕ} (hne : connectionId ≠ victim) :
    MailKept victim r { r with sessions := update r.sessions connectionId session } where
  channel := update_of_ne (Ne.symm hne) _ _
  pending _ _ hm _ _ := hm

theorem cleanup {session : Option String} (hne : ∀ c, session = some c → c ≠ victim) :
    MailKept victim r (r.cleanup session) := by
  cases session with
  | none => exact .refl r
  | some c => exact .of_update (hne c rfl)

end MailKept

/-! ## The relay -/

/-- The tables are consistent, and every message in them has been queued. -/
structure QueueOk (r : Relay) : Prop where
  valid : r.queue.Valid
  stored : ∀ id m, r.queue.messages.lookup id = some m → id ∈ r.queued.map Prod.fst

namespace QueueOk

variable {r r' : Relay}

theorem of_eq (h : QueueOk r) (hqueue : r'.queue = r.queue) (hqueued : r'.queued = r.queued) :
    QueueOk r' := by
  refine ⟨by rw [hqueue]; exact h.valid, fun id m hm => ?_⟩
  rw [hqueue] at hm
  rw [hqueued]
  exact h.stored id m hm

theorem cleanup (h : QueueOk r) (session : Option String) : QueueOk (r.cleanup session) := by
  cases session with
  | none => exact h
  | some c => exact h.of_eq rfl rfl

theorem requested (h : QueueOk r) (connectionId : String) (request : PickupRequest)
    (hown : ∀ ack, request = .received ack → ∀ id ∈ ack.messageIdList,
      ∀ m, r.queue.messages.lookup id = some m → m.connectionId = connectionId) :
    QueueOk { r with queue := Pickup.requested r.queue connectionId request } ∧
      ∀ victim, connectionId ≠ victim →
        MailKept victim r { r with queue := Pickup.requested r.queue connectionId request } := by
  refine ⟨⟨requested_valid h.valid request, fun id m hm => ?_⟩, fun victim hne => ?_⟩
  · obtain ⟨m', hm', -⟩ := lookup_requested hm
    exact h.stored id m' hm'
  · refine ⟨rfl, fun id m hm hc _ => ?_⟩
    exact isolated_requested h.valid request hown id m hm (fun heq => hne (heq.symm.trans hc))

/-- What a step of a forward does to the queue and the sessions: nothing is taken out of the
queue, unless it is full and has messages that are too old. -/
theorem stepForward (h : QueueOk r) {strategy : ForwardingStrategy} {t : ℕ} {task : ForwardTask}
    {now : Timestamp} {id : String} {accepts : Bool}
    (hstep : r.stepForward strategy t task now id accepts = some r') (hold : task.pc = .relieve →
      r.queue.expiredIdsFor task.connectionId (now - forwardStaleReliefTtl) = []) :
    QueueOk r' ∧ r'.flushes = r.flushes ∧ ∀ victim, MailKept victim r r' := by
  rcases Relay.stepForward_cases hstep with ⟨pc, -, rfl⟩ | ⟨pc, hrelieve, -, rfl⟩ |
    ⟨-, hfresh, rfl⟩ | ⟨k, frames, refused, delivered, -, -, -, -, rfl⟩
  · exact ⟨h.of_eq rfl rfl, rfl, fun _ => .of_eq rfl rfl⟩
  · refine ⟨⟨h.valid.deleteExpiredForConnection _ _, fun k m hm => ?_⟩, rfl, fun victim =>
      ⟨rfl, fun k m hm _ _ => ?_⟩⟩
    · rw [lookup_deleteExpiredForConnection] at hm
      split_ifs at hm
      exact h.stored k m hm
    · rw [lookup_deleteExpiredForConnection, hold hrelieve]
      exact hm
  · have hnone : r.queue.messages.lookup id = none := by
      cases hm : r.queue.messages.lookup id with
      | none => rfl
      | some m => exact absurd (h.stored id m hm) hfresh
    refine ⟨⟨h.valid.addMessage hnone, fun k m hm => ?_⟩, rfl, fun victim =>
      ⟨rfl, fun k m hm _ _ => ?_⟩⟩
    · rw [lookup_addMessage] at hm
      rw [map_append]
      split_ifs at hm with hk
      · exact mem_append_right _ (by simp [hk, QueuedMessage.new])
      · exact mem_append_left _ (h.stored k m hm)
    · rw [lookup_addMessage, if_neg, hm]
      rintro rfl
      exact absurd (hnone.symm.trans hm) (by simp)
  · exact ⟨h.of_eq rfl rfl, rfl, fun _ => .of_eq rfl rfl⟩

theorem stepFlush (h : QueueOk r) {u : ℕ} {task : FlushTask} {frameId : String} {accepts : Bool}
    (hstep : r.stepFlush u task frameId accepts = some r') :
    QueueOk r' ∧
      (∃ task', r'.flushes = update r.flushes u (some task') ∧
        task'.connectionId = task.connectionId) ∧
      ∀ victim, task.connectionId ≠ victim → MailKept victim r r' := by
  unfold Relay.stepFlush at hstep
  cases hpc : task.pc with
  | take =>
    simp only [hpc] at hstep
    have htake := h.requested task.connectionId (.delivery ⟨"", none, reconnectReplayBatch⟩)
      (fun _ heq => by cases heq)
    split_ifs at hstep
    all_goals
      obtain rfl := some.inj hstep
      refine ⟨htake.1.of_eq rfl rfl, ⟨_, rfl, rfl⟩, fun victim hne => ?_⟩
      exact (htake.2 victim hne).trans (.of_eq rfl rfl)
  | lookup batch =>
    simp only [hpc] at hstep
    split at hstep
    all_goals
      obtain rfl := some.inj hstep
      exact ⟨h.of_eq rfl rfl, ⟨_, rfl, rfl⟩, fun _ _ => .of_eq rfl rfl⟩
  | send σ batch =>
    simp only [hpc] at hstep
    split_ifs at hstep
    all_goals
      obtain rfl := some.inj hstep
      exact ⟨h.of_eq rfl rfl, ⟨_, rfl, rfl⟩, fun _ _ => .of_eq rfl rfl⟩
  | completed | stopped => simp [hpc] at hstep

theorem deleteExpired (h : QueueOk r) (order : IterOrder String) (cutoff : Timestamp) :
    QueueOk { r with
      queue := (r.queue.deleteExpired order cutoff).2
      expired := r.expired ++ (r.queue.expired order cutoff).map QueuedMessage.id } := by
  refine ⟨h.valid.deleteExpired order cutoff, fun id m hm => ?_⟩
  rw [h.valid.deleteExpired_eq, lookup_removeMessages] at hm
  split_ifs at hm
  exact h.stored id m hm

end QueueOk

/-! ## Effects -/

namespace Server

variable {s s' : Server} {cause : Cause} {channel : ℕ}

/-- An effect that touches no queue, and sessions and flushes of verified connections only. -/
def Quiet (cause : Cause) : Effect → Prop
  | .forward _ _ => True
  | .register connectionId => cause.Verified connectionId
  | .flush connectionId => cause.Verified connectionId
  | .handle _ _ => False

def Serves (s : Server) (cause : Cause) (message : Message) (context : MessageContext) : Prop :=
  ∀ connectionId, context.connectionId = some connectionId → pickupRequest message ≠ none →
    cause.Verified connectionId ∧ s.OwnAck connectionId message

/-- Quiet effects, and then perhaps a handler. -/
def Harmless (s : Server) (cause : Cause) (effects : List Effect) : Prop :=
  ∃ quiet last, effects = quiet ++ last ∧ (∀ e ∈ quiet, Quiet cause e) ∧
    (last = [] ∨ ∃ message context, last = [.handle message context] ∧
      s.Serves cause message context)

/-- The part of the invariant that effects can touch. -/
structure RelayOk (s : Server) : Prop where
  queue : QueueOk s.relay
  flushes : ∀ u task, s.relay.flushes u = some task →
    ∃ cause, s.causes u = some cause ∧ cause.Verified task.connectionId
  owned : s.Owned

theorem startForward_eq (s : Server) (recipientKey encryptedMessage : String)
    (connection : Option String) : ∃ task, s.startForward recipientKey encryptedMessage connection =
      { s with
        relay := { s.relay with forwards := update s.relay.forwards s.nextTask task }
        nextTask := s.nextTask + 1 } := by
  cases connection with
  | none => exact ⟨_, rfl⟩
  | some c =>
    by_cases hsize : maxForwardedMessageSizeBytes < encryptedMessage.utf8ByteSize
    · exact ⟨_, if_pos hsize⟩
    · exact ⟨_, if_neg hsize⟩

@[simp] theorem apply_same (e : Effect) : (s.apply cause channel e).sockets = s.sockets ∧
    (s.apply cause channel e).calls = s.calls := by
  cases e with
  | forward key message =>
    obtain ⟨task, htask⟩ := s.startForward_eq key message (grantedConnection cause.env key)
    simp only [apply, htask, and_self]
  | handle message context =>
    simp only [apply]
    split <;> exact ⟨rfl, rfl⟩
  | _ => exact ⟨rfl, rfl⟩

@[simp] theorem foldl_apply_same (effects : List Effect) :
    (effects.foldl (apply cause channel) s).sockets = s.sockets ∧
      (effects.foldl (apply cause channel) s).calls = s.calls := by
  induction effects generalizing s with
  | nil => exact ⟨rfl, rfl⟩
  | cons e effects ih =>
    rw [foldl_cons, ih.1, ih.2]
    exact apply_same e

theorem forall_mem_concat {l : List (Cause × String)} {connectionId : String}
    (h : ∀ p ∈ l, p.1.Verified p.2) (hnew : cause.Verified connectionId) :
    ∀ p ∈ l ++ [(cause, connectionId)], p.1.Verified p.2 := by
  intro p hp
  rcases mem_append.1 hp with hold | hlast
  · exact h p hold
  · obtain rfl := mem_singleton.1 hlast
    exact hnew

theorem RelayOk.startForward (h : RelayOk s) (recipientKey encryptedMessage : String)
    (connection : Option String) :
    RelayOk (s.startForward recipientKey encryptedMessage connection) ∧
      (s.startForward recipientKey encryptedMessage connection).relay.queue = s.relay.queue ∧
      ∀ victim, MailKept victim s.relay
        (s.startForward recipientKey encryptedMessage connection).relay := by
  obtain ⟨task, htask⟩ := s.startForward_eq recipientKey encryptedMessage connection
  rw [htask]
  exact ⟨⟨h.queue.of_eq rfl rfl, h.flushes, h.owned⟩, rfl, fun _ => .of_eq rfl rfl⟩

theorem RelayOk.applyQuiet (h : RelayOk s) {e : Effect} (he : Quiet cause e) (channel : ℕ) :
    RelayOk (s.apply cause channel e) ∧ (s.apply cause channel e).relay.queue = s.relay.queue ∧
      ∀ victim, ¬ cause.Verified victim → MailKept victim s.relay
        (s.apply cause channel e).relay := by
  cases e with
  | forward key message =>
    obtain ⟨hok, hqueue, hkept⟩ := h.startForward key message (grantedConnection cause.env key)
    exact ⟨hok, hqueue, fun victim _ => hkept victim⟩
  | register c =>
    refine ⟨⟨h.queue.of_eq rfl rfl, h.flushes, forall_mem_concat h.owned.1 he, h.owned.2⟩, rfl, ?_⟩
    intro victim hforeign
    exact .of_update fun heq => hforeign (heq ▸ he)
  | flush c =>
    refine ⟨⟨h.queue.of_eq rfl rfl, fun u task hu => ?_, h.owned.1,
      forall_mem_concat h.owned.2 he⟩, rfl, fun _ _ => .of_eq rfl rfl⟩
    rcases update_eq_some hu with ⟨rfl, rfl⟩ | ⟨hne, hu⟩
    · exact ⟨cause, update_self _ _ _, he⟩
    · obtain ⟨cause', hcause, hverified⟩ := h.flushes u task hu
      exact ⟨cause', (update_of_ne hne _ _).trans hcause, hverified⟩
  | handle message context => exact he.elim

theorem RelayOk.foldlQuiet (h : RelayOk s) {effects : List Effect}
    (heffects : ∀ e ∈ effects, Quiet cause e) (channel : ℕ) :
    RelayOk (effects.foldl (apply cause channel) s) ∧
      (effects.foldl (apply cause channel) s).relay.queue = s.relay.queue ∧
      ∀ victim, ¬ cause.Verified victim → MailKept victim s.relay
        (effects.foldl (apply cause channel) s).relay := by
  induction effects generalizing s with
  | nil => exact ⟨h, rfl, fun _ _ => .refl _⟩
  | cons e effects ih =>
    obtain ⟨hok, hqueue, hkept⟩ := h.applyQuiet (heffects e (by simp)) channel
    obtain ⟨hok', hqueue', hkept'⟩ := ih hok fun e' he' => heffects e' (by simp [he'])
    exact ⟨hok', hqueue'.trans hqueue, fun victim hforeign =>
      (hkept victim hforeign).trans (hkept' victim hforeign)⟩

theorem RelayOk.applyHandle (h : RelayOk s) {message : Message} {context : MessageContext}
    (hserves : s.Serves cause message context) (channel : ℕ) :
    RelayOk (s.apply cause channel (.handle message context)) ∧
      ∀ victim, ¬ cause.Verified victim → MailKept victim s.relay
        (s.apply cause channel (.handle message context)).relay := by
  simp only [apply]
  split
  · next c request hc hrequest =>
    obtain ⟨hverified, hown⟩ := hserves c hc (by simp [hrequest])
    have hrequested := h.queue.requested c request fun ack hack => hown ack (by rw [hrequest, hack])
    refine ⟨⟨hrequested.1, h.flushes, h.owned⟩, fun victim hforeign => ?_⟩
    exact hrequested.2 victim fun heq => hforeign (heq ▸ hverified)
  · exact ⟨h, fun _ _ => .refl _⟩

theorem RelayOk.foldlHarmless (h : RelayOk s) {effects : List Effect}
    (heffects : s.Harmless cause effects) (channel : ℕ) :
    RelayOk (effects.foldl (apply cause channel) s) ∧
      ∀ victim, ¬ cause.Verified victim → MailKept victim s.relay
        (effects.foldl (apply cause channel) s).relay := by
  obtain ⟨quiet, last, rfl, hquiet, hlast⟩ := heffects
  obtain ⟨hok, hqueue, hkept⟩ := h.foldlQuiet hquiet channel
  rw [foldl_append]
  rcases hlast with rfl | ⟨message, context, rfl, hserves⟩
  · exact ⟨hok, hkept⟩
  · have hserves' : Serves (quiet.foldl (apply cause channel) s) cause message context := by
      intro c hc hrequest
      obtain ⟨hverified, hown⟩ := hserves c hc hrequest
      refine ⟨hverified, fun ack hack id hid m hm => ?_⟩
      rw [hqueue] at hm
      exact hown ack hack id hid m hm
    obtain ⟨hok', hkept'⟩ := hok.applyHandle hserves' channel
    exact ⟨hok', fun victim hforeign => (hkept victim hforeign).trans (hkept' victim hforeign)⟩

/-! ## Frames -/

variable {socket : Socket} {env : Env} {message : Message} {metadata : UnpackMetadata}
  {replayed : Bool}

theorem verified_sender {raw : String} (hauth : metadata.authenticated = true)
    (hsender : metadata.sender = some raw) {connectionId : String}
    (h : connectionId = resolveSender env raw ∨ connectionId = raw) :
    Cause.Verified ⟨env, some (message, metadata), replayed⟩ connectionId :=
  ⟨message, metadata, raw, rfl, hauth, hsender, h⟩

theorem requiresAuthcrypt_of_pickup (h : pickupRequest message ≠ none) :
    requiresAuthcrypt message.msgType = true := by
  unfold pickupRequest at h
  split_ifs at h with hpickup
  · simp [requiresAuthcrypt, hpickup]
  · exact absurd rfl h

theorem serves_sender {connection : Option String} {encrypted : Bool}
    (hgate : ¬ (requiresAuthcrypt message.msgType ∧ metadata.authenticated = false))
    (hconnection : metadata.authenticated = true → pickupRequest message ≠ none →
      ∀ c, connection = some c → metadata.sender.map (resolveSender env) = some c)
    (hown : metadata.authenticated = true → pickupRequest message ≠ none →
      ∀ raw, metadata.sender = some raw → s.OwnAck (resolveSender env raw) message) :
    s.Serves ⟨env, some (message, metadata), replayed⟩ message
      ⟨connection, encrypted, metadata.authenticated⟩ := by
  intro c hc hpickup
  have hauth : metadata.authenticated = true := by
    by_contra hnot
    exact hgate ⟨requiresAuthcrypt_of_pickup hpickup, by simpa using hnot⟩
  have hsender := hconnection hauth hpickup c hc
  obtain ⟨raw, hraw, rfl⟩ := map_eq_some_iff.1 hsender
  exact ⟨verified_sender hauth hraw (.inl rfl), hown hauth hpickup raw hraw⟩

open Socket

theorem dispatch_cases (h : socket.connId = none → env.response = none) (context : MessageContext) :
    socket.dispatch env message context = (socket, []) ∨
      (socket.dispatch env message context = (socket, [.handle message context]) ∧
        ¬ (requiresAuthcrypt message.msgType ∧ context.authenticated = false)) := by
  unfold dispatch
  split_ifs with hgate hhandler
  · exact .inl rfl
  · exact .inl rfl
  · right
    refine ⟨?_, hgate⟩
    split
    · next hconn hresponse =>
      rw [h hconn] at hresponse
      cases hresponse
    · rfl

theorem quiet_identify {raw : String} (hauth : metadata.authenticated = true)
    (hsender : metadata.sender = some raw) :
    ∀ e ∈ (identify (resolveSender env raw) raw).2,
      Quiet ⟨env, some (message, metadata), replayed⟩ e := by
  have hconn : Cause.Verified ⟨env, some (message, metadata), replayed⟩ (resolveSender env raw) :=
    verified_sender hauth hsender (.inl rfl)
  have hraw : Cause.Verified ⟨env, some (message, metadata), replayed⟩ raw :=
    verified_sender hauth hsender (.inr rfl)
  unfold identify
  split_ifs
  · simp [Quiet, hconn]
  · simp [Quiet, hconn, hraw]

/-- What a frame may do to the socket: it becomes that of a verified connection, or stays. -/
structure SocketKept (cause : Cause) (socket socket' : Socket) : Prop where
  conn : ∀ c, socket'.connId = some c → socket.connId = some c ∨ cause.Verified c
  known : socket'.localConnId ≠ none → socket'.connId ≠ none

theorem harmless_dispatch (h : socket.connId = none → env.response = none)
    {context : MessageContext} (quiet : List Effect) (hquiet : ∀ e ∈ quiet, Quiet cause e)
    (hserves : ¬ (requiresAuthcrypt message.msgType ∧ context.authenticated = false) →
      s.Serves cause message context) :
    s.Harmless cause (quiet ++ (socket.dispatch env message context).2) ∧
      (socket.dispatch env message context).1 = socket := by
  rcases dispatch_cases h context with heq | ⟨heq, hgate⟩
  · rw [heq]
    exact ⟨⟨quiet, [], rfl, hquiet, .inl rfl⟩, rfl⟩
  · rw [heq]
    exact ⟨⟨quiet, _, rfl, hquiet, .inr ⟨message, context, rfl, hserves hgate⟩⟩, rfl⟩

theorem receiveOpened_of_keeps (hknown : socket.localConnId ≠ none → socket.connId ≠ none)
    (hauth : socket.localConnId = none → metadata.sender ≠ none → metadata.authenticated = true)
    (hresponse : socket.connId = none → metadata.sender = none → env.response = none)
    (hpickup : metadata.authenticated = true → pickupRequest message ≠ none →
      (∀ c, socket.localConnId = some c → metadata.sender.map (resolveSender env) = some c) ∧
        ∀ raw, metadata.sender = some raw → s.OwnAck (resolveSender env raw) message) :
    s.Harmless ⟨env, some (message, metadata), replayed⟩
        (socket.receiveOpened env (some (message, metadata))).2 ∧
      SocketKept ⟨env, some (message, metadata), replayed⟩ socket
        (socket.receiveOpened env (some (message, metadata))).1 := by
  -- the handler is given the connection of the socket, or of the sender if it is no one's
  have hserves : ¬ (requiresAuthcrypt message.msgType ∧
        (slowPath env socket metadata).2.authenticated = false) →
      s.Serves ⟨env, some (message, metadata), replayed⟩ message
        (slowPath env socket metadata).2 := by
    rw [slowPath_context]
    refine fun hgate => serves_sender hgate (fun ha hp c hc => ?_) fun ha hp => (hpickup ha hp).2
    cases hlocal : socket.localConnId with
    | none => simpa [hlocal] using hc
    | some c' =>
      obtain rfl : c' = c := by simpa [hlocal] using hc
      exact (hpickup ha hp).1 c' hlocal
  simp only [receiveOpened]
  rcases slowPath_cases env socket metadata with ⟨hslow, hwhy⟩ | ⟨raw, hlocal, hsender, hslow⟩
  · have hconn : socket.connId = none → env.response = none := by
      intro hnone
      rcases hwhy with hlocal | hsender
      · exact absurd hnone (hknown hlocal)
      · exact hresponse hnone hsender
    obtain ⟨hharmless, hsocket⟩ := harmless_dispatch hconn [] (by simp) hserves
    rw [hslow, hsocket]
    exact ⟨hharmless, fun c hc => .inl hc, hknown⟩
  · have ha := hauth hlocal (by simp [hsender])
    have hconn : (identify (resolveSender env raw) raw).1.connId = none →
        env.response = none := fun hnone => (by cases hnone)
    obtain ⟨hharmless, hsocket⟩ := harmless_dispatch hconn _ (quiet_identify ha hsender) hserves
    rw [hslow, hsocket]
    refine ⟨hharmless, fun c hc => .inr ?_, fun _ => by simp [identify]⟩
    exact verified_sender ha hsender (.inl (some.inj hc).symm)

variable {envelope : Envelope}

theorem frameCause_of_unrouted (h : Unrouted env envelope) :
    frameCause env replayed envelope = ⟨env, envelope.opened, replayed⟩ := by
  cases envelope with
  | jwe header text unpacked =>
    simp only [frameCause, h header text unpacked rfl]
    rfl
  | plaintext message => rfl

theorem receive_of_keeps (hknown : socket.localConnId ≠ none → socket.connId ≠ none)
    (hk : s.KeepsFrame socket env envelope) :
    s.Harmless (frameCause env (s.replays envelope) envelope) (socket.receive env envelope).2 ∧
      SocketKept (frameCause env (s.replays envelope) envelope) socket
        (socket.receive env envelope).1 := by
  obtain ⟨hskid, hopened⟩ := hk
  rcases unrouted_or_fastPath env envelope with h | ⟨header, text, unpacked, kid, rfl, hkid⟩
  · rw [frameCause_of_unrouted h] at hopened ⊢
    rw [receive_of_unrouted h]
    cases hmessage : envelope.opened with
    | none => exact ⟨⟨[], [], rfl, by simp, .inl rfl⟩, fun c hc => .inl hc, hknown⟩
    | some p =>
      obtain ⟨hauth, hresponse, hpickup⟩ := hopened p.1 p.2 hmessage
      exact receiveOpened_of_keeps hknown hauth hresponse hpickup
  · have hfast : socket.receive env (.jwe header text unpacked) =
      (socket, [.forward kid text]) := by
      simp only [receive, hkid, fastPath]
      cases hlocal : socket.localConnId with
      | some c => rfl
      | none =>
        have hnone := hskid header text unpacked kid rfl hkid hlocal
        cases hraw : skidKey header with
        | none => rfl
        | some raw =>
          rw [hraw, bind_some] at hnone
          simp only [hnone]
    rw [hfast]
    exact ⟨⟨[.forward kid text], [], rfl, by simp [Quiet], .inl rfl⟩, fun c hc => .inl hc, hknown⟩

/-! ## HTTP requests -/

/-- A request holds the session of a verified connection, and will register only that of its
sender. -/
structure CallOk (call : HttpCall) : Prop where
  session : ∀ c, call.session = some c → call.cause.Verified c
  pc : ∀ c message metadata, call.pc = .register c → call.cause.opened = some (message, metadata) →
    ∃ raw, metadata.sender = some raw ∧ c = resolveSender call.cause.env raw

theorem httpPc_eq_register {route : Option String} {c : String}
    (h : s.httpPc route = .register c) : route = some c := by
  cases route with
  | none => cases h
  | some c' =>
    unfold httpPc at h
    cases hsession : s.relay.sessions c' with
    | some σ => simp [hsession] at h
    | none =>
      simp only [hsession, HttpPc.register.injEq] at h
      rw [h]

variable {call : HttpCall}

theorem callOk_openedCall {transport : Option String} {opened : Option (Message × UnpackMetadata)}
    (h : s.openedCall env transport replayed opened = some call) : CallOk call := by
  cases opened with
  | none => cases h
  | some p =>
    obtain rfl := some.inj h
    refine ⟨fun c hc => (by cases hc), fun c message metadata hpc hopened => ?_⟩
    obtain ⟨rfl, rfl⟩ := Prod.mk.inj (some.inj hopened)
    have hroute := httpPc_eq_register hpc
    split_ifs at hroute
    obtain ⟨raw, hraw, rfl⟩ := map_eq_some_iff.1 hroute
    exact ⟨raw, hraw, rfl⟩

theorem callOk_httpCall {transport : Option String}
    (h : s.httpCall env transport envelope = some call) : CallOk call := by
  cases envelope with
  | jwe header text unpacked =>
    unfold httpCall at h
    cases hkid : httpMatchedKid env.order env.rows (extractJweRecipientKids header) with
    | none =>
      simp only [hkid] at h
      exact callOk_openedCall h
    | some kid =>
      simp only [hkid] at h
      obtain rfl := some.inj h
      exact ⟨fun c hc => (by cases hc), fun c message metadata _ hopened => (by cases hopened)⟩
  | plaintext message => exact callOk_openedCall h

theorem harmless_httpEffects
    (hown : ∀ message metadata raw, call.cause.opened = some (message, metadata) →
      metadata.authenticated = true → metadata.sender = some raw →
        s.OwnAck (resolveSender call.cause.env raw) message) :
    s.Harmless call.cause (httpEffects call) := by
  obtain ⟨⟨env, opened, replayed⟩, direct, session, pc⟩ := call
  unfold httpEffects
  cases direct with
  | some p => exact ⟨[.forward p.1 p.2], [], rfl, by simp [Quiet], .inl rfl⟩
  | none =>
    cases opened with
    | none => exact ⟨[], [], rfl, by simp, .inl rfl⟩
    | some p =>
      obtain ⟨message, metadata⟩ := p
      simp only
      split_ifs with hgate hhandler
      · exact ⟨[], [], rfl, by simp, .inl rfl⟩
      · exact ⟨[], [], rfl, by simp, .inl rfl⟩
      · refine ⟨[], _, rfl, by simp, .inr ⟨message, _, rfl, serves_sender hgate ?_ ?_⟩⟩
        · intro _ _ c hc
          exact hc
        · intro ha _ raw hraw
          exact hown message metadata raw rfl ha hraw

/-! ## The invariant -/

/-- What a request that carries nothing recorded shows is what is verified. -/
theorem not_verified_of_fresh {victim : String} (h : cause.Fresh)
    (hforeign : ¬ cause.Shows victim) : ¬ cause.Verified victim := fun hverified => by
  obtain ⟨message, metadata, raw, hopened, hauth, _⟩ := id hverified
  exact hforeign ⟨hverified, h message metadata hopened hauth⟩

/-- Sockets, requests and flushes stand for connections whose messages were verified, and none of
their requests carries a recorded message. -/
structure Invariant (s : Server) : Prop where
  relay : RelayOk s
  sockets : ∀ u sock, s.sockets u = some sock →
    (sock.socket.localConnId ≠ none → sock.socket.connId ≠ none) ∧
      (∀ c, sock.socket.connId = some c → ∃ cause ∈ sock.history, cause.Verified c) ∧
      ∀ cause ∈ sock.history, cause.Fresh
  calls : ∀ t call, s.calls t = some call → CallOk call ∧ call.cause.Fresh
  causes : ∀ u cause, s.causes u = some cause → cause.Fresh

theorem invariant_start : Invariant start where
  relay := by
    refine ⟨⟨valid_new, fun id m hm => ?_⟩, fun u task hu => (by cases hu), ?_⟩
    · simp [start, Relay.start, new] at hm
    · exact ⟨by simp [start], by simp [start]⟩
  sockets u sock h := by cases h
  calls t call h := by cases h
  causes u cause h := by cases h

theorem Invariant.of_relay (h : Invariant s) {relay : Relay} (hqueue : QueueOk relay)
    (hflushes : relay.flushes = s.relay.flushes) : Invariant { s with relay := relay } where
  relay := ⟨hqueue, fun u task hu => h.relay.flushes u task (hflushes ▸ hu), h.relay.owned⟩
  sockets := h.sockets
  calls := h.calls
  causes := h.causes

variable (channel) in
theorem fresh_foldl_apply (hfresh : cause.Fresh) (effects : List Effect)
    (h : ∀ u cause, s.causes u = some cause → cause.Fresh) :
    ∀ u cause', (effects.foldl (apply cause channel) s).causes u = some cause' → cause'.Fresh := by
  induction effects generalizing s with
  | nil => exact h
  | cons e effects ih =>
    refine ih fun u cause' hcause => ?_
    cases e with
    | forward key message =>
      obtain ⟨task, htask⟩ := s.startForward_eq key message (grantedConnection cause.env key)
      simp only [apply, htask] at hcause
      exact h u cause' hcause
    | register c => exact h u cause' hcause
    | flush c =>
      rcases update_eq_some hcause with ⟨-, rfl⟩ | ⟨-, hcause⟩
      · exact hfresh
      · exact h u cause' hcause
    | handle message context =>
      simp only [apply] at hcause
      split at hcause <;> exact h u cause' hcause

theorem flushes_cleanup {r : Relay} (session : Option String) :
    (r.cleanup session).flushes = r.flushes := by
  cases session <;> rfl

variable {u t : ℕ}

theorem Invariant.frame (h : Invariant s) {sock : OpenSocket} (hsock : s.sockets u = some sock)
    (hfresh : (frameCause env (s.replays envelope) envelope).Fresh)
    (hk : s.KeepsFrame sock.socket env envelope)
    (hs' : s' = { (sock.socket.receive env envelope).2.foldl
        (apply (frameCause env (s.replays envelope) envelope) sock.channel) s with
      sockets := update ((sock.socket.receive env envelope).2.foldl
          (apply (frameCause env (s.replays envelope) envelope) sock.channel) s).sockets u
        (some { sock with
          socket := (sock.socket.receive env envelope).1
          history := sock.history ++ [frameCause env (s.replays envelope) envelope] })
      carried := ((sock.socket.receive env envelope).2.foldl
        (apply (frameCause env (s.replays envelope) envelope) sock.channel) s).carried ++
          [envelope] }) :
    Invariant s' ∧ ∀ victim, ¬ (frameCause env (s.replays envelope) envelope).Shows victim →
      MailKept victim s.relay s'.relay := by
  obtain ⟨hknown, hverified, hhistory⟩ := h.sockets u sock hsock
  obtain ⟨hharmless, hkept⟩ := receive_of_keeps hknown hk
  obtain ⟨hrelay, hmail⟩ := h.relay.foldlHarmless hharmless sock.channel
  have hcauses := fresh_foldl_apply sock.channel hfresh
    (sock.socket.receive env envelope).2 h.causes
  generalize frameCause env (s.replays envelope) envelope = cause at *
  subst hs'
  refine ⟨⟨⟨hrelay.queue, hrelay.flushes, hrelay.owned⟩, fun u' sock' hu' => ?_, ?_, hcauses⟩,
    fun victim hforeign => hmail victim (not_verified_of_fresh hfresh hforeign)⟩
  · simp only [foldl_apply_same] at hu'
    rcases update_eq_some hu' with ⟨-, rfl⟩ | ⟨-, hu'⟩
    · refine ⟨hkept.known, fun c hc => ?_, fun cause' hmem => ?_⟩
      · rcases hkept.conn c hc with hold | hnew
        · obtain ⟨cause', hmem, hc⟩ := hverified c hold
          exact ⟨cause', mem_append_left _ hmem, hc⟩
        · exact ⟨_, mem_append_right _ (mem_singleton_self _), hnew⟩
      · rcases mem_append.1 hmem with hold | hlast
        · exact hhistory cause' hold
        · rw [mem_singleton.1 hlast]
          exact hfresh
    · exact h.sockets u' sock' hu'
  · intro t call ht
    simp only [foldl_apply_same] at ht
    exact h.calls t call ht

theorem Invariant.disconnect (h : Invariant s) {sock : OpenSocket} (hsock : s.sockets u = some sock)
    (hs' : s' = { s with
      relay := s.relay.cleanup sock.socket.connId
      sockets := update s.sockets u none }) :
    Invariant s' ∧ ∀ victim, (∀ cause ∈ sock.history, ¬ cause.Shows victim) →
      MailKept victim s.relay s'.relay := by
  have hstays : Invariant { s with sockets := update s.sockets u none } :=
    ⟨⟨h.relay.queue, h.relay.flushes, h.relay.owned⟩,
      fun u' sock' hu' => h.sockets u' sock' (update_none_eq_some hu'), h.calls, h.causes⟩
  subst hs'
  refine ⟨hstays.of_relay (h.relay.queue.cleanup _) (flushes_cleanup _), fun victim hforeign =>
    .cleanup fun c hc => ?_⟩
  rintro rfl
  obtain ⟨_, hverified, hfresh⟩ := h.sockets u sock hsock
  obtain ⟨cause, hmem, hverified⟩ := hverified c hc
  exact not_verified_of_fresh (hfresh cause hmem) (hforeign cause hmem) hverified

variable {direct : Option (String × String)} {session : Option String}

theorem Invariant.register (h : Invariant s) {cause : Cause} {c : String}
    (hcall : s.calls t = some ⟨cause, direct, session, .register c⟩)
    (hk : ∃ message metadata, cause.opened = some (message, metadata) ∧
      metadata.authenticated = true)
    (hs' : s' = { s with
      relay := { s.relay.registerSessionWithSender c s.relay.nextSession with
        nextSession := s.relay.nextSession + 1 }
      calls := update s.calls t (some ⟨cause, direct, some c, .run⟩)
      registrations := s.registrations ++ [(cause, c)] }) :
    Invariant s' ∧ ∀ victim, ¬ cause.Shows victim → MailKept victim s.relay s'.relay := by
  obtain ⟨message, metadata, hopened, ha⟩ := hk
  obtain ⟨hcallOk, hfresh⟩ := h.calls t _ hcall
  obtain ⟨raw, hraw, hc⟩ := hcallOk.pc c message metadata rfl hopened
  have hverified : cause.Verified c := ⟨message, metadata, raw, hopened, ha, hraw, .inl hc⟩
  subst hs'
  refine ⟨⟨⟨h.relay.queue.of_eq rfl rfl, h.relay.flushes,
    forall_mem_concat h.relay.owned.1 hverified, h.relay.owned.2⟩, h.sockets, ?_, h.causes⟩, ?_⟩
  · intro t' call' ht'
    rcases update_eq_some ht' with ⟨-, rfl⟩ | ⟨-, ht'⟩
    · refine ⟨⟨fun c' hc' => ?_, fun c' _ _ hpc => (by cases hpc)⟩, hfresh⟩
      obtain rfl := some.inj hc'
      exact hverified
    · exact h.calls t' call' ht'
  · intro victim hforeign
    have hne : c ≠ victim := fun heq =>
      not_verified_of_fresh hfresh hforeign (heq ▸ hverified)
    exact (MailKept.of_update hne).trans (.of_eq rfl rfl)

theorem Invariant.run (h : Invariant s) {cause : Cause}
    (hcall : s.calls t = some ⟨cause, direct, session, .run⟩)
    (hk : ∀ message metadata raw, cause.opened = some (message, metadata) →
      metadata.authenticated = true → metadata.sender = some raw →
        s.OwnAck (resolveSender cause.env raw) message)
    (hs' : s' = { (httpEffects ⟨cause, direct, session, .run⟩).foldl (apply cause 0) s with
      calls := update ((httpEffects ⟨cause, direct, session, .run⟩).foldl
        (apply cause 0) s).calls t (some ⟨cause, direct, session, .done⟩) }) :
    Invariant s' ∧ ∀ victim, ¬ cause.Shows victim → MailKept victim s.relay s'.relay := by
  obtain ⟨hcallOk, hfresh⟩ := h.calls t _ hcall
  have hharmless : s.Harmless cause (httpEffects ⟨cause, direct, session, .run⟩) :=
    harmless_httpEffects hk
  obtain ⟨hrelay, hmail⟩ := h.relay.foldlHarmless hharmless 0
  subst hs'
  refine ⟨⟨⟨hrelay.queue, hrelay.flushes, hrelay.owned⟩, ?_, fun t' call' ht' => ?_,
    fresh_foldl_apply _ hfresh _ h.causes⟩,
    fun victim hforeign => hmail victim (not_verified_of_fresh hfresh hforeign)⟩
  · intro u sock hu
    simp only [foldl_apply_same] at hu
    exact h.sockets u sock hu
  · simp only [foldl_apply_same] at ht'
    rcases update_eq_some ht' with ⟨-, rfl⟩ | ⟨-, ht'⟩
    · exact ⟨⟨hcallOk.session, fun c _ _ hpc => (by cases hpc)⟩, hfresh⟩
    · exact h.calls t' call' ht'

theorem Invariant.finish (h : Invariant s) {cause : Cause} (panicked : Bool)
    (hcall : s.calls t = some ⟨cause, direct, session, .done⟩) (hs' : s' = { s with
      relay := if panicked then s.relay else s.relay.cleanup session
      calls := update s.calls t none }) :
    Invariant s' ∧ ∀ victim, ¬ cause.Shows victim → MailKept victim s.relay s'.relay := by
  obtain ⟨hcallOk, hfresh⟩ := h.calls t _ hcall
  have hstays : Invariant { s with calls := update s.calls t none } :=
    ⟨⟨h.relay.queue, h.relay.flushes, h.relay.owned⟩, h.sockets,
      fun t' call' ht' => h.calls t' call' (update_none_eq_some ht'), h.causes⟩
  subst hs'
  cases panicked with
  | true => exact ⟨hstays, fun _ _ => .refl _⟩
  | false =>
    refine ⟨hstays.of_relay (h.relay.queue.cleanup _) (flushes_cleanup _), fun victim hforeign =>
      .cleanup fun c hc => ?_⟩
    rintro rfl
    exact not_verified_of_fresh hfresh hforeign (hcallOk.session c hc)

theorem Invariant.runFlush (h : Invariant s) {task : FlushTask} {frameId : String} {accepts : Bool}
    (htask : s.relay.flushes u = some task) {relay : Relay}
    (hstep : s.relay.stepFlush u task frameId accepts = some relay) :
    Invariant { s with relay := relay } ∧
      ∀ victim, (∀ cause, s.causes u = some cause → ¬ cause.Shows victim) →
        MailKept victim s.relay relay := by
  obtain ⟨hqueue, ⟨task', hflushes, hconn⟩, hmail⟩ := h.relay.queue.stepFlush hstep
  obtain ⟨cause, hcause, hverified⟩ := h.relay.flushes u task htask
  refine ⟨⟨⟨hqueue, fun u' other hu' => ?_, h.relay.owned⟩, h.sockets, h.calls, h.causes⟩,
    fun victim hforeign => hmail victim fun heq => not_verified_of_fresh (h.causes u cause hcause)
      (hforeign cause hcause) (heq ▸ hverified)⟩
  simp only [hflushes] at hu'
  rcases update_eq_some hu' with ⟨rfl, rfl⟩ | ⟨-, hu'⟩
  · exact ⟨cause, hcause, hconn ▸ hverified⟩
  · exact h.relay.flushes u' other hu'

variable {strategy : ForwardingStrategy} {a : ServerStep}

/-- **One step** that keeps to the condition preserves the invariant, and leaves the mail of every
connection alone that it is foreign to. -/
theorem Invariant.step (h : Invariant s) (hk : s.Keeps a) (hstep : s.step strategy a = some s') :
    Invariant s' ∧ ∀ victim, s.Foreign victim a → MailKept victim s.relay s'.relay := by
  cases a with
  | connect u =>
    simp only [Server.step] at hstep
    split at hstep
    · cases hstep
    · obtain rfl := some.inj hstep
      refine ⟨⟨⟨h.relay.queue.of_eq rfl rfl, h.relay.flushes, h.relay.owned⟩, ?_, h.calls,
        h.causes⟩, fun _ _ => .of_eq rfl rfl⟩
      intro u' sock hu'
      rcases update_eq_some hu' with ⟨-, rfl⟩ | ⟨-, hu'⟩
      · exact ⟨fun hlocal => absurd rfl hlocal, fun c hc => (by cases hc), by simp⟩
      · exact h.sockets u' sock hu'
  | frame u env envelope =>
    simp only [Server.step] at hstep
    split at hstep
    · cases hstep
    · next sock hsock =>
      exact h.frame hsock hk.1 (hk.2 sock hsock) (some.inj hstep).symm
  | disconnect u =>
    simp only [Server.step] at hstep
    split at hstep
    · cases hstep
    · next sock hsock =>
      obtain ⟨hinv, hmail⟩ := h.disconnect hsock (some.inj hstep).symm
      exact ⟨hinv, fun victim hforeign => hmail victim (hforeign sock hsock)⟩
  | post t env transport envelope =>
    simp only [Server.step] at hstep
    split at hstep
    · cases hstep
    · obtain rfl := some.inj hstep
      refine ⟨⟨⟨h.relay.queue, h.relay.flushes, h.relay.owned⟩, h.sockets, ?_, h.causes⟩,
        fun _ _ => .refl _⟩
      intro t' call ht'
      by_cases htt : t' = t
      · rw [htt] at ht'
        simp only [update_self] at ht'
        exact ⟨callOk_httpCall ht', hk call ht'⟩
      · simp only [update_of_ne htt] at ht'
        exact h.calls t' call ht'
  | register t =>
    simp only [Server.step] at hstep
    split at hstep
    · next cause direct session c hcall =>
      obtain ⟨hinv, hmail⟩ := h.register hcall (hk _ hcall) (some.inj hstep).symm
      exact ⟨hinv, fun victim hforeign => hmail victim (hforeign _ hcall)⟩
    · cases hstep
  | run t =>
    simp only [Server.step] at hstep
    split at hstep
    · next cause direct session hcall =>
      obtain ⟨hinv, hmail⟩ := h.run hcall (fun message metadata raw => hk _ message metadata raw
        hcall)
        (some.inj hstep).symm
      exact ⟨hinv, fun victim hforeign => hmail victim (hforeign _ hcall)⟩
    · cases hstep
  | finish t panicked =>
    simp only [Server.step] at hstep
    split at hstep
    · next cause direct session hcall =>
      obtain ⟨hinv, hmail⟩ := h.finish panicked hcall (some.inj hstep).symm
      exact ⟨hinv, fun victim hforeign => hmail victim (hforeign _ hcall)⟩
    · cases hstep
  | forward key message connection =>
    obtain rfl := some.inj hstep
    obtain ⟨hrelay, -, hmail⟩ := h.relay.startForward key message connection
    obtain ⟨task, htask⟩ := s.startForward_eq key message connection
    refine ⟨⟨hrelay, ?_, ?_, ?_⟩, fun victim _ => hmail victim⟩
    · rw [htask]
      exact h.sockets
    · rw [htask]
      exact h.calls
    · rw [htask]
      exact h.causes
  | runForward t now id accepts =>
    simp only [Server.step] at hstep
    split at hstep
    · cases hstep
    · next task htask =>
      obtain ⟨relay, hrelay, rfl⟩ := map_eq_some_iff.1 hstep
      obtain ⟨hqueue, hflushes, hmail⟩ := h.relay.queue.stepForward hrelay (hk task htask)
      exact ⟨h.of_relay hqueue hflushes, fun victim _ => hmail victim⟩
  | runFlush u frameId accepts =>
    simp only [Server.step] at hstep
    split at hstep
    · cases hstep
    · next task htask =>
      obtain ⟨relay, hrelay, rfl⟩ := map_eq_some_iff.1 hstep
      exact h.runFlush htask hrelay
  | deleteExpired order cutoff =>
    obtain rfl := some.inj hstep
    exact ⟨h.of_relay (h.relay.queue.deleteExpired order cutoff) rfl, fun _ hforeign =>
      hforeign.elim⟩

end Server

open Server

namespace Sample

def verifiedPing (key : String) : Envelope :=
  .jwe ⟨[], [], none⟩ "" (some (ping, ⟨some key, true, true⟩))

/-- Alice connects, and a message for her is queued. -/
noncomputable def connected : List ServerStep :=
  [.connect 0, .frame 0 env (verifiedPing "alice-key"), .forward "alice-key" "mail" (some "alice"),
    .runForward 2 0 "m" true, .runForward 2 0 "m" true]

/-- Another client connects, and sends a frame. -/
noncomputable def second (envelope : Envelope) : List ServerStep :=
  [.connect 1, .frame 1 env envelope]

/-- What a ping does on a new socket. -/
def identified (owner key : String) (encrypted authenticated : Bool) : Socket × List Effect :=
  (⟨some owner, some owner⟩, [.register owner, .register key, .flush owner, .flush key,
    .handle ping ⟨some owner, encrypted, authenticated⟩])

theorem receiveOpened_ping {owner key : String} (hresolve : resolveSender env key = owner)
    (hne : owner ≠ key) (encrypted authenticated : Bool) :
    Socket.start.receiveOpened env (some (ping, ⟨some key, encrypted, authenticated⟩)) =
      identified owner key encrypted authenticated := by
  have hinsensitive : requiresAuthcrypt ping.msgType = false := by decide
  have hhandler : env.hasHandler ping.msgType = true := rfl
  simp [identified, Socket.receiveOpened, Socket.slowPath, Socket.start, Socket.identify,
    Socket.dispatch, hresolve, hne, hinsensitive, hhandler]

theorem resolveSender_alice : resolveSender env "alice-key" = "alice" := by
  simp [resolveSender, resolveConnectionId, env]

theorem receive_alicePing : Socket.start.receive env (verifiedPing "alice-key") =
    identified "alice" "alice-key" true true :=
  receiveOpened_ping resolveSender_alice (by decide) true true

theorem pickupRequest_ping : pickupRequest ping = none := ite_self _

/-- The queue once the message is in it. -/
noncomputable def queuedMail : QueueTables :=
  QueueTables.new.addMessage (.new "m" "alice" ["alice-key"] "mail" 0)

theorem exec_connected : ∃ s, exec (step .queueAndLiveDelivery) start connected = some s ∧
    s.relay.sessions "alice" = some 0 ∧ s.relay.nextSession = 1 ∧ s.sockets 1 = none ∧
    s.carried = [verifiedPing "alice-key"] ∧ s.relay.queue = queuedMail := by
  have hsize : ¬ maxForwardedMessageSizeBytes < "mail".utf8ByteSize := by decide
  have hcount : ¬ maxQueuePerConnection ≤ QueueTables.new.getPendingCount "alice" none := by decide
  simp [connected, exec, step, start, Relay.start, receive_alicePing, identified,
    apply, Relay.registerSessionWithSender, pickupRequest_ping, startForward, hsize,
    Relay.stepForward, hcount, queuedMail]

end Sample

open Sample

namespace Server

theorem takeover {envelope : Envelope} {encrypted authenticated : Bool}
    (hreceive : Socket.start.receive env envelope =
      identified "alice" "alice-key" encrypted authenticated) :
    ∃ s s', exec (step .queueAndLiveDelivery) start connected = some s ∧
      exec (step .queueAndLiveDelivery) s (second envelope) = some s' ∧
      s.carried = [verifiedPing "alice-key"] ∧ ¬ SameMail "alice" s s' ∧
      (frameCause env (s.replays envelope) envelope, "alice") ∈ s'.registrations := by
  obtain ⟨s, hs, hsession, hnext, hsocket, hcarried, -⟩ := exec_connected
  have hexec : ∃ s', exec (step .queueAndLiveDelivery) s (second envelope) = some s' ∧
      s'.relay.sessions "alice" = some 1 ∧
      (frameCause env (s.replays envelope) envelope, "alice") ∈ s'.registrations := by
    simp [second, exec, step, hsocket, hnext, hreceive, identified, apply,
      Relay.registerSessionWithSender, pickupRequest_ping, replays]
  obtain ⟨s', hs', hsession', hregistered⟩ := hexec
  refine ⟨s, s', hs, hs', hcarried, ?_, hregistered⟩
  intro hmail
  have hchannel := hmail.channel
  rw [hsession, hsession'] at hchannel
  cases hchannel

theorem replay_takesOver :
    ∃ s s', exec (step .queueAndLiveDelivery) start connected = some s ∧
      exec (step .queueAndLiveDelivery) s (second (verifiedPing "alice-key")) = some s' ∧
      Along (step .queueAndLiveDelivery) (Foreign "alice") s
        (second (verifiedPing "alice-key")) ∧ ¬ SameMail "alice" s s' := by
  obtain ⟨s, s', hs, hs', hcarried, hmail, -⟩ := takeover receive_alicePing
  refine ⟨s, s', hs, hs', ⟨trivial, fun t ht => ⟨fun h => ?_, fun _ _ => trivial⟩⟩, hmail⟩
  have hreplayed : t.replays (verifiedPing "alice-key") = false := h.2
  cases hsocket : s.sockets 1 with
  | some sock =>
    simp only [step, hsocket] at ht
    cases ht
  | none =>
    simp only [step, hsocket, some.injEq] at ht
    subst ht
    simp [replays, hcarried] at hreplayed

end Server

end Idiom.Mediation
