import Idiom.Dcx.Frame
import Mathlib.Logic.Function.Basic

/-!
# DCX channels and their lookup tables: `dcx/channel`

* The counters are `u64` with saturating addition.
-/

namespace Idiom.Dcx

open Function

/-! ## Sessions and derived identifiers -/

/-- What a provider delivers per peer-pair channel. -/
structure SessionKeys where
  kek : Bytes
  authKey : Bytes
  generation : ℕ
  peerKid : String
  connectionId : String
  isInitiator : Bool
  deriving DecidableEq

/-- `derive_channel_id` (`routing.rs`). -/
def deriveChannelId (prims : Primitives) (providerId connectionId : String) (generation : ℕ) :
    Bytes :=
  (prims.sha256 (utf8 "dcx/1.0/channel_id" ++ utf8 providerId ++ utf8 connectionId ++
    toBeBytes 4 generation)).take 16

/-- `derive_routing_prefix` (`routing.rs`). -/
def deriveRoutingPrefix (prims : Primitives) (recipientKid : String) : Bytes :=
  (prims.sha256 (utf8 recipientKid)).take 16

structure DirectionalKeys where
  kSend : Bytes
  kRecv : Bytes

/-- `derive_directional_keys` (`crypto/kdf.rs`). -/
def deriveDirectionalKeys (prims : Primitives) (kek : Bytes) (isInitiator : Bool) :
    DirectionalKeys :=
  if isInitiator then
    ⟨prims.hkdf kek (utf8 "dcx/1.0/initiator-out"), prims.hkdf kek (utf8 "dcx/1.0/initiator-in")⟩
  else
    ⟨prims.hkdf kek (utf8 "dcx/1.0/initiator-in"), prims.hkdf kek (utf8 "dcx/1.0/initiator-out")⟩

/-- The key a session seals outbound frames with. -/
def SessionKeys.kSend (prims : Primitives) (keys : SessionKeys) : Bytes :=
  (deriveDirectionalKeys prims keys.kek keys.isInitiator).kSend

/-! ## Counters (`channel/persistence.rs`) -/

def u64Max : ℕ := 2 ^ 64 - 1

/-- `u64::saturating_add`. -/
def saturatingAdd (a b : ℕ) : ℕ := min (a + b) u64Max

/-- Number of outbound `msg_id`s reserved (and persisted) per store write. -/
def sendReservationBatch : ℕ := 1024

/-- Persisted per-channel counters, loaded on channel (re)build. -/
structure PersistedCounters where
  sendReserved : ℕ := 0
  msgIdRecv : ℕ := 0
  receivedAny : Bool := false

/-- `ChannelCounterStore`: what `load` returns, per `channel_id`. -/
abbrev CounterStore := Bytes → Option PersistedCounters

/-- `save_send_reserved`: the other counters of the channel stay. -/
def CounterStore.saveSendReserved (store : CounterStore) (channelId : Bytes)
    (sendReserved : ℕ) : CounterStore :=
  update store channelId (some { (store channelId).getD {} with sendReserved := sendReserved })

/-! ## One channel (`channel/state.rs`) -/

inductive ChannelState where
  | inactive
  | establishing
  | activeUnconfirmed
  | awaitingConfirm
  | confirmed
  | rotating
  | upgrading

/-- One peer's channel state plus its derived directional keys. -/
structure Channel where
  channelId : Bytes
  connectionId : String
  peerDid : String
  peerKid : String
  peerRoutingPrefix : Bytes
  providerId : String
  generation : ℕ
  kSend : Bytes
  kRecv : Bytes
  authKey : Bytes
  msgIdSend : ℕ
  sendReserved : ℕ
  msgIdRecv : ℕ
  receivedAny : Bool
  state : ChannelState

namespace Channel

variable (prims : Primitives) (session : SessionKeys) (peerDid providerId : String)

/-- Build a freshly-derived channel from provider-supplied session keys. -/
def fromSessionKeys (isInitiator : Bool) : Channel :=
  let dir := deriveDirectionalKeys prims session.kek isInitiator
  { channelId := deriveChannelId prims providerId session.connectionId session.generation
    connectionId := session.connectionId
    peerDid := peerDid
    peerKid := session.peerKid
    peerRoutingPrefix := deriveRoutingPrefix prims session.peerKid
    providerId := providerId
    generation := session.generation
    kSend := dir.kSend
    kRecv := dir.kRecv
    authKey := session.authKey
    msgIdSend := 0
    sendReserved := 0
    msgIdRecv := 0
    receivedAny := false
    state := .activeUnconfirmed }

def resume (isInitiator : Bool) (persisted : PersistedCounters) : Channel :=
  { fromSessionKeys prims session peerDid providerId isInitiator with
    sendReserved := persisted.sendReserved
    msgIdSend := persisted.sendReserved
    msgIdRecv := persisted.msgIdRecv
    receivedAny := persisted.receivedAny }

/-- Would the next send exceed the durable reservation? -/
def needsSendReservation (ch : Channel) : Bool := ch.msgIdSend ≥ ch.sendReserved

/-- Reserve the next `batch` outbound ids, raising the ceiling. -/
def reserveSend (ch : Channel) (batch : ℕ) : Channel :=
  { ch with sendReserved := saturatingAdd ch.msgIdSend (max batch 1) }

/-- Allocate the next outbound `msg_id`. -/
def nextSendMsgId (ch : Channel) : ℕ × Channel :=
  (ch.msgIdSend, { ch with msgIdSend := saturatingAdd ch.msgIdSend 1 })

section

variable (ch : Channel) (batch : ℕ)

@[simp] theorem reserveSend_kSend : (ch.reserveSend batch).kSend = ch.kSend := by
  simp only [reserveSend]

@[simp] theorem reserveSend_channelId : (ch.reserveSend batch).channelId = ch.channelId := by
  simp only [reserveSend]

@[simp] theorem reserveSend_msgIdSend : (ch.reserveSend batch).msgIdSend = ch.msgIdSend := by
  simp only [reserveSend]

@[simp] theorem nextSendMsgId_kSend : ch.nextSendMsgId.2.kSend = ch.kSend := by
  simp only [nextSendMsgId]

@[simp] theorem nextSendMsgId_channelId : ch.nextSendMsgId.2.channelId = ch.channelId := by
  simp only [nextSendMsgId]

@[simp] theorem nextSendMsgId_sendReserved : ch.nextSendMsgId.2.sendReserved = ch.sendReserved := by
  simp only [nextSendMsgId]

@[simp] theorem nextSendMsgId_msgIdSend :
    ch.nextSendMsgId.2.msgIdSend = min (ch.msgIdSend + 1) u64Max := by
  simp only [nextSendMsgId, saturatingAdd]

@[simp] theorem reserveSend_sendReserved :
    (ch.reserveSend sendReservationBatch).sendReserved =
      min (ch.msgIdSend + sendReservationBatch) u64Max := by
  simp only [reserveSend, saturatingAdd]
  rfl

end

end Channel

/-! ## The tables (`channel/manager.rs`) -/

/-- Per-agent collection of active DCX channels. -/
structure ChannelManager where
  byChannelId : Bytes → Option ℕ
  byPeerDid : String → Option Bytes
  byRoutingPrefix : Bytes → Option Bytes
  /-- Every channel an `Arc` was made for. -/
  arcs : List Channel
  /-- The call that holds the arc's mutex. -/
  holder : ℕ → Option ℕ

namespace ChannelManager

def new : ChannelManager := ⟨fun _ => none, fun _ => none, fun _ => none, [], fun _ => none⟩

/-- `insert`, first write scope: the new arc goes under its `channel_id`. -/
def insertChannel (m : ChannelManager) (ch : Channel) : ChannelManager :=
  { m with
    byChannelId := update m.byChannelId ch.channelId (some m.arcs.length)
    arcs := m.arcs ++ [ch] }

/-- `insert`, second write scope. -/
def insertPeer (m : ChannelManager) (ch : Channel) : ChannelManager :=
  { m with byPeerDid := update m.byPeerDid ch.peerDid (some ch.channelId) }

/-- `insert`, third write scope. -/
def insertPrefix (m : ChannelManager) (ch : Channel) : ChannelManager :=
  { m with
    byRoutingPrefix := update m.byRoutingPrefix ch.peerRoutingPrefix (some ch.channelId) }

/-- `remove`, first write scope. -/
def unregister (m : ChannelManager) (channelId : Bytes) : ChannelManager :=
  { m with byChannelId := update m.byChannelId channelId none }

def removePeer (m : ChannelManager) (ch : Channel) : ChannelManager :=
  { m with byPeerDid := update m.byPeerDid ch.peerDid none }

def removePrefix (m : ChannelManager) (ch : Channel) : ChannelManager :=
  { m with byRoutingPrefix := update m.byRoutingPrefix ch.peerRoutingPrefix none }

/-- The holder of the mutex changes the channel. -/
def write (m : ChannelManager) (arc : ℕ) (ch : Channel) : ChannelManager :=
  { m with arcs := m.arcs.set arc ch }

def lock (m : ChannelManager) (arc task : ℕ) : ChannelManager :=
  { m with holder := update m.holder arc (some task) }

def unlock (m : ChannelManager) (arc : ℕ) : ChannelManager :=
  { m with holder := update m.holder arc none }

end ChannelManager

end Idiom.Dcx
