import Idiom.Dcx.Inbound
import Idiom.Dcx.Outbound
import Mathlib.Data.String.Basic

/-!
# The classical provider, and a runtime whose calls do not overlap

`providers/classical.rs` derives the keys of a pair of DIDs from one X25519 agreement, with
no message exchanged. `agent_integration.rs` bundles it with the channels and the two
transports.
-/

namespace Idiom.Dcx

/-! ## The provider (`providers/classical.rs`) -/

/-- X25519 and HKDF-SHA256 with a salt, which the provider takes from other crates. -/
structure Agreement where
  publicKey : (secret : Bytes) → Bytes
  diffieHellman : (secret peerPublic : Bytes) → Bytes
  hkdfSalted : (salt ikm info : Bytes) → (len : ℕ) → Bytes

/-- Input bundle a wallet provides to the classical provider for one peer. -/
structure ClassicalKeyMaterial where
  ourX25519Secret : Bytes
  peerX25519Public : Bytes
  ourDid : String
  peerDid : String
  peerKid : String
  connectionId : String

structure ClassicalProvider where
  sessions : String → Option SessionKeys
  pending : String → Option ClassicalKeyMaterial

/-- `PROVIDER_ID`. -/
def classicalProviderId : String := "classical-x25519/1.0"

namespace ClassicalProvider

def new : ClassicalProvider := ⟨fun _ => none, fun _ => none⟩

def registerPeerMaterial (p : ClassicalProvider) (material : ClassicalKeyMaterial) :
    ClassicalProvider :=
  { p with pending := Function.update p.pending material.peerDid (some material) }

section

variable (prims : Primitives) (agreement : Agreement)

/-- Derive `(kek, auth_key)` from the shared secret. The salt names the two DIDs in their
order, which for the bytes of the texts is the order of the texts. -/
def deriveKeys (sharedSecret : Bytes) (ourDid peerDid : String) :
    Except ProviderError (Bytes × Bytes) :=
  if sharedSecret.all (· == 0) then .error .lowOrderX25519
  else
    let (a, b) := if ourDid ≤ peerDid then (ourDid, peerDid) else (peerDid, ourDid)
    let salt := prims.sha256 (utf8 "dcx/1.0/classical-x25519" ++ utf8 a ++ utf8 b)
    let km := agreement.hkdfSalted salt sharedSecret (utf8 "dcx/1.0/classical-x25519/v1") 96
    .ok (slice km 0 32, slice km 32 64)

/-- The session that registered material gives. -/
def sessionOf (material : ClassicalKeyMaterial) : Except ProviderError SessionKeys :=
  let shared := agreement.diffieHellman material.ourX25519Secret material.peerX25519Public
  match deriveKeys prims agreement shared material.ourDid material.peerDid with
  | .error e => .error e
  | .ok (kek, authKey) => .ok
    { kek := kek
      authKey := authKey
      generation := 0
      peerKid := material.peerKid
      connectionId := material.connectionId
      isInitiator := decide (material.ourDid < material.peerDid) }

/-- The session of a peer: the one there is, or the one its material gives. -/
def establish (p : ClassicalProvider) (peerDid : String) :
    Except ProviderError (ClassicalProvider × SessionKeys) :=
  match p.sessions peerDid with
  | some existing => .ok (p, existing)
  | none =>
    match p.pending peerDid with
    | none => .error (.noSession peerDid)
    | some material =>
      match sessionOf prims agreement material with
      | .error e => .error e
      | .ok session =>
        .ok ({ p with sessions := Function.update p.sessions peerDid (some session) }, session)

end

end ClassicalProvider

/-! ## The runtime (`agent_integration.rs`) -/

/-- `DcxRuntime::new`: the outbound transport uses the classical provider, and no stronger
provider is set. -/
def runtimeConfig (prims : Primitives) (hasStore : Bool) : Config :=
  ⟨prims, hasStore, classicalProviderId, classicalProviderId, none⟩

/-- The channel a peer is reached over, with its arc. -/
def ChannelManager.lookupPeer (m : ChannelManager) (peerDid : String) : Option (ℕ × Channel) :=
  (m.getByPeerDid peerDid).bind fun arc => m.arcs[arc]?.map fun ch => (arc, ch)

/-- Reserve if the window is used up. -/
def Channel.reserved (ch : Channel) : Channel :=
  if ch.needsSendReservation then ch.reserveSend sendReservationBatch else ch

/-- Bundled DCX runtime for a wallet. -/
structure Runtime where
  classical : ClassicalProvider
  inbound : Inbound

namespace Runtime

variable (prims : Primitives) (agreement : Agreement)

def channels (r : Runtime) : ChannelManager := r.inbound.channels

/-- The channel a session makes, with the persisted counters if a store is attached. -/
def channelFor (r : Runtime) (peerDid : String) (keys : SessionKeys) : Channel :=
  match r.inbound.store with
  | none => Channel.fromSessionKeys prims keys peerDid classicalProviderId keys.isInitiator
  | some store => buildChannel (runtimeConfig prims true) store peerDid classicalProviderId keys

def openChannel (r : Runtime) (peerDid : String) : Except ProviderError Runtime :=
  match r.classical.establish prims agreement peerDid with
  | .error e => .error e
  | .ok (classical, keys) => .ok
    { classical := classical
      inbound := { r.inbound with
        channels := r.channels.insert (r.channelFor prims peerDid keys) } }

/-- Proactively establish a peer channel from already-registered material. -/
def ensureChannel (r : Runtime) (peerDid : String) : Runtime :=
  if (r.channels.getByPeerDid peerDid).isSome then r
  else
    match r.openChannel prims agreement peerDid with
    | .error _ => r
    | .ok r => r

/-- Steps 2 and 3 of `send_to_peer`: reserve if the window is used up, allocate, encode. -/
def sendOn (r : Runtime) (arc : ℕ) (channel : Channel) (applicationPayload : Bytes) :
    Runtime × Except DcxOutboundError Bytes :=
  let reserved := channel.reserved
  let store :=
    if channel.needsSendReservation then
      r.inbound.store.map fun store =>
        store.saveSendReserved channel.channelId reserved.sendReserved
    else r.inbound.store
  let frame := dataFrame reserved reserved.nextSendMsgId.1 applicationPayload
  ({ r with
      inbound := { r.inbound with
        channels := r.channels.write arc reserved.nextSendMsgId.2
        store := store } },
    match frame.encode prims reserved.kSend with
    | .error e => .error (.frame e)
    | .ok bytes => .ok bytes)

/-- Send `application_payload` to `peer_did` as a DCX `DATA` frame; the bytes go to the
websocket. -/
def sendToPeer (r : Runtime) (peerDid : String) (applicationPayload : Bytes) :
    Runtime × Except DcxOutboundError Bytes :=
  match r.channels.lookupPeer peerDid with
  | some (arc, channel) => r.sendOn prims arc channel applicationPayload
  | none =>
    match r.openChannel prims agreement peerDid with
    | .error e => (r, .error (.provider e))
    | .ok r =>
      match r.channels.lookupPeer peerDid with
      | none => (r, .error (.wsUnavailable "channel registration race"))
      | some (arc, channel) => r.sendOn prims arc channel applicationPayload

/-- An inbound frame. -/
def receive (opener : Opener) (r : Runtime) (bytes : Bytes) : Runtime × InboundOutcome :=
  ({ r with inbound := (r.inbound.tryHandle opener bytes).1 }, (r.inbound.tryHandle opener bytes).2)

end Runtime

/-! ## The channel of a peer -/

/-- The peer is reached over the channel, and so is its id. -/
structure ChannelManager.Holds (m : ChannelManager) (peerDid : String) (ch : Channel) : Prop where
  peer : m.byPeerDid peerDid = some ch.channelId
  live : m.channelAt ch.channelId = some ch

namespace ChannelManager

variable {m : ChannelManager} {peerDid : String} {ch : Channel}

theorem holds_insert (m : ChannelManager) (ch : Channel) : (m.insert ch).Holds ch.peerDid ch where
  peer := by simp
  live := channelAt_insert_self m ch

theorem Holds.writeAt (h : m.Holds peerDid ch) (ch' : Channel)
    (hid : ch'.channelId = ch.channelId) : (m.writeAt ch.channelId ch').Holds peerDid ch' := by
  obtain ⟨arc, -, -, hwrite⟩ := writeAt_eq_write h.live
  refine ⟨?_, ?_⟩
  · rw [hwrite, hid]
    exact h.peer
  · rw [hid]
    exact channelAt_writeAt_self h.live

theorem Holds.lookupPeer (h : m.Holds peerDid ch) :
    ∃ arc, m.lookupPeer peerDid = some (arc, ch) ∧ m.write arc = m.writeAt ch.channelId := by
  obtain ⟨arc, harc, hch, hwrite⟩ := writeAt_eq_write h.live
  refine ⟨arc, ?_, hwrite.symm⟩
  simp [ChannelManager.lookupPeer, getByPeerDid, h.peer, harc, hch]

theorem Holds.getByPeerDid (h : m.Holds peerDid ch) : (m.getByPeerDid peerDid).isSome = true := by
  unfold ChannelManager.getByPeerDid
  rw [h.peer]
  exact isSome_byChannelId h.live

theorem lookupPeer_of_absent (h : m.byPeerDid peerDid = none) : m.lookupPeer peerDid = none := by
  simp [ChannelManager.lookupPeer, ChannelManager.getByPeerDid, h]

end ChannelManager

/-! ## What a call does to the channel -/

def Channel.afterSend (ch : Channel) : Channel := ch.reserved.nextSendMsgId.2

/-- The parts of a channel that stay as they were derived. -/
structure Channel.SameLine (base ch : Channel) : Prop where
  channelId : ch.channelId = base.channelId
  routingPrefix : ch.peerRoutingPrefix = base.peerRoutingPrefix
  kSend : ch.kSend = base.kSend
  kRecv : ch.kRecv = base.kRecv

namespace Channel

variable {base ch : Channel}

theorem SameLine.refl (ch : Channel) : SameLine ch ch := ⟨rfl, rfl, rfl, rfl⟩

theorem reserved_eq (ch : Channel) : ∃ ceiling, ch.reserved =
    { ch with sendReserved := ceiling } := by
  unfold reserved
  split
  · exact ⟨_, rfl⟩
  · exact ⟨ch.sendReserved, rfl⟩

theorem afterSend_eq (ch : Channel) : ∃ ceiling, ch.afterSend =
    { ch with sendReserved := ceiling, msgIdSend := saturatingAdd ch.msgIdSend 1 } := by
  obtain ⟨ceiling, h⟩ := ch.reserved_eq
  refine ⟨ceiling, ?_⟩
  unfold afterSend nextSendMsgId
  rw [h]

theorem SameLine.afterSend (h : SameLine base ch) : SameLine base ch.afterSend := by
  obtain ⟨ceiling, heq⟩ := ch.afterSend_eq
  rw [heq]
  exact ⟨h.channelId, h.routingPrefix, h.kSend, h.kRecv⟩

theorem afterSend_mark (ch : Channel) : ch.afterSend.mark = ch.mark := by
  obtain ⟨ceiling, heq⟩ := ch.afterSend_eq
  rw [heq]
  simp only [mark]

theorem afterSend_channelId (ch : Channel) : ch.afterSend.channelId = ch.channelId := by
  obtain ⟨ceiling, heq⟩ := ch.afterSend_eq
  rw [heq]

theorem afterSend_msgIdSend (ch : Channel) :
    ch.afterSend.msgIdSend = min (ch.msgIdSend + 1) u64Max := by
  obtain ⟨ceiling, heq⟩ := ch.afterSend_eq
  rw [heq]
  simp only [saturatingAdd]

theorem SameLine.dataFrame_eq (h : SameLine base ch) (msgId : ℕ) (payload : Bytes) :
    dataFrame ch msgId payload = dataFrame base msgId payload := by
  unfold dataFrame
  rw [h.channelId, h.routingPrefix]

end Channel

namespace Runtime

variable {r : Runtime} {peerDid : String} {ch : Channel}

theorem sendToPeer_of_holds (prims : Primitives) (agreement : Agreement)
    (h : r.channels.Holds peerDid ch) (payload : Bytes) :
    (r.sendToPeer prims agreement peerDid payload).1.classical = r.classical ∧
      (r.sendToPeer prims agreement peerDid payload).1.inbound.dispatched = r.inbound.dispatched ∧
      (r.sendToPeer prims agreement peerDid payload).1.channels.Holds peerDid ch.afterSend ∧
      (r.sendToPeer prims agreement peerDid payload).2 =
        match (dataFrame ch ch.msgIdSend payload).encode prims ch.kSend with
        | .error e => .error (.frame e)
        | .ok bytes => .ok bytes := by
  obtain ⟨arc, hlookup, hwrite⟩ := h.lookupPeer
  have hsend : r.sendToPeer prims agreement peerDid payload = r.sendOn prims arc ch payload := by
    unfold sendToPeer
    rw [hlookup]
  rw [hsend]
  refine ⟨rfl, rfl, ?_, ?_⟩
  · show (r.channels.write arc ch.afterSend).Holds peerDid ch.afterSend
    rw [hwrite]
    exact h.writeAt _ (Channel.afterSend_channelId ch)
  · obtain ⟨ceiling, hreserved⟩ := ch.reserved_eq
    simp only [sendOn, hreserved, dataFrame, Channel.nextSendMsgId]

theorem sendToPeer_of_absent {prims : Primitives} {agreement : Agreement} {r' : Runtime}
    (habsent : r.channels.byPeerDid peerDid = none)
    (hopen : r.openChannel prims agreement peerDid = .ok r')
    (hholds : r'.channels.Holds peerDid ch) (payload : Bytes) :
    r.sendToPeer prims agreement peerDid payload =
      r'.sendToPeer prims agreement peerDid payload := by
  obtain ⟨arc, hlookup, -⟩ := hholds.lookupPeer
  unfold sendToPeer
  rw [ChannelManager.lookupPeer_of_absent habsent, hopen]
  simp only [hlookup]

end Runtime

end Idiom.Dcx
