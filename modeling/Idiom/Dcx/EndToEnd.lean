import Idiom.Dcx.Classical

/-!
# DCX from end to end

Two agents with matching key material derive mirrored keys. Their calls and the frames in
flight interleave in any way; in each direction the websocket keeps the order.
-/

namespace Idiom.Dcx

open Function ClassicalProvider List Channel ChannelManager

/-- The two agents. -/
inductive Side where
  | alice
  | bob
  deriving DecidableEq

open Side

def Side.other : Side → Side
  | .alice => .bob
  | .bob => .alice

@[simp] theorem Side.other_other (side : Side) : side.other.other = side := by
  cases side <;> rfl

/-- What the code relies on: the AEAD inverts and accepts frames of every size the codec
packs, SHA-256 has 32 bytes, and both ends of an agreement get the same secret. -/
structure Lawful (prims : Primitives) (opener : Opener) (agreement : Agreement) : Prop where
  inverts : Inverts prims opener
  seals : ∀ key nonce aad plaintext, plaintext.length ≤ maxFrameSize →
    ∃ ct, prims.aeadSeal key nonce aad plaintext = some ct
  digest : ∀ bytes, (prims.sha256 bytes).length = 32
  agrees : ∀ a b, agreement.diffieHellman a (agreement.publicKey b) =
    agreement.diffieHellman b (agreement.publicKey a)

/-- Each side registered the other's DID and public key, and both the same connection. -/
structure Matching (agreement : Agreement) (material : Side → ClassicalKeyMaterial) : Prop where
  dids : ∀ side, (material side.other).ourDid = (material side).peerDid
  distinct : (material .alice).ourDid ≠ (material .bob).ourDid
  publics : ∀ side, (material side).peerX25519Public =
    agreement.publicKey (material side.other).ourX25519Secret
  connection : ∀ side, (material side.other).connectionId = (material side).connectionId

/-- The X25519 result of a side. -/
def sharedSecret (agreement : Agreement) (material : ClassicalKeyMaterial) : Bytes :=
  agreement.diffieHellman material.ourX25519Secret material.peerX25519Public

/-! ## Keys -/

section

variable {prims : Primitives} {opener : Opener} {agreement : Agreement}
  {material : Side → ClassicalKeyMaterial}

theorem deriveKeys_comm (shared : Bytes) (did did' : String) :
    deriveKeys prims agreement shared did did' = deriveKeys prims agreement shared did' did := by
  unfold deriveKeys
  rcases lt_trichotomy did did' with hlt | heq | hgt
  · rw [if_pos hlt.le, if_neg hlt.not_ge]
  · rw [heq]
  · rw [if_neg hgt.not_ge, if_pos hgt.le]

theorem sharedSecret_other (hl : Lawful prims opener agreement) (hm : Matching agreement material)
    (side : Side) :
    sharedSecret agreement (material side.other) = sharedSecret agreement (material side) := by
  unfold sharedSecret
  rw [hm.publics side, hm.publics side.other, other_other, hl.agrees]

theorem deriveKeys_of_nonzero (prims : Primitives) (agreement : Agreement) {shared : Bytes}
    (h : shared.all (· == 0) = false) (did did' : String) :
    ∃ kek authKey, deriveKeys prims agreement shared did did' = .ok (kek, authKey) := by
  unfold deriveKeys
  simp only [h]
  exact ⟨_, _, rfl⟩

/-- Both sides derive the same key from the same material, but for the role. -/
theorem sessionOf_matching (hl : Lawful prims opener agreement) (hm : Matching agreement material)
    (hlow : (sharedSecret agreement (material .alice)).all (· == 0) = false) :
    ∃ kek authKey, ∀ side, sessionOf prims agreement (material side) = .ok
      { kek := kek
        authKey := authKey
        generation := 0
        peerKid := (material side).peerKid
        connectionId := (material side).connectionId
        isInitiator := decide ((material side).ourDid < (material side).peerDid) } := by
  obtain ⟨kek, authKey, hkeys⟩ := deriveKeys_of_nonzero prims agreement hlow
    (material .alice).ourDid (material .alice).peerDid
  have hsame : ∀ side, deriveKeys prims agreement
      (sharedSecret agreement (material side)) (material side).ourDid (material side).peerDid =
      .ok (kek, authKey) := by
    intro side
    cases side with
    | alice => exact hkeys
    | bob =>
      have hbob := hm.dids .bob
      have halice := hm.dids .alice
      have hshared := sharedSecret_other hl hm .alice
      simp only [other] at hbob halice hshared
      rw [hshared, halice, ← hbob, deriveKeys_comm]
      exact hkeys
  refine ⟨kek, authKey, fun side => ?_⟩
  have hside := hsame side
  unfold sharedSecret at hside
  unfold sessionOf
  simp only [hside]

/-- Same channel, swapped keys, opposite roles. -/
structure Mirrored (prims : Primitives) (keys : Side → SessionKeys) : Prop where
  channelId : ∀ side, deriveChannelId prims classicalProviderId (keys side.other).connectionId
    (keys side.other).generation =
      deriveChannelId prims classicalProviderId (keys side).connectionId (keys side).generation
  swapped : ∀ side,
    (deriveDirectionalKeys prims (keys side).kek (keys side).isInitiator).kSend =
      (deriveDirectionalKeys prims (keys side.other).kek (keys side.other).isInitiator).kRecv
  roles : ∀ side, (keys side.other).isInitiator = !(keys side).isInitiator

theorem deriveDirectionalKeys_not (kek : Bytes) (isInitiator : Bool) :
    (deriveDirectionalKeys prims kek isInitiator).kSend =
      (deriveDirectionalKeys prims kek !isInitiator).kRecv := by
  cases isInitiator <;> rfl

theorem exists_mirrored (hl : Lawful prims opener agreement) (hm : Matching agreement material)
    (hlow : (sharedSecret agreement (material .alice)).all (· == 0) = false) :
    ∃ keys : Side → SessionKeys, Mirrored prims keys ∧ ∀ side,
      sessionOf prims agreement (material side) = .ok (keys side) ∧
        (keys side).connectionId = (material side).connectionId ∧ (keys side).generation = 0 := by
  obtain ⟨kek, authKey, hkeys⟩ := sessionOf_matching hl hm hlow
  have hne : ∀ side, (material side).ourDid ≠ (material side).peerDid := by
    intro side
    rw [← hm.dids side]
    cases side with
    | alice => exact hm.distinct
    | bob => exact hm.distinct.symm
  have hroles : ∀ side, decide ((material side.other).ourDid < (material side.other).peerDid) =
      !decide ((material side).ourDid < (material side).peerDid) := by
    intro side
    have hpeer := hm.dids side.other
    rw [hm.dids side, ← hpeer]
    rcases lt_or_gt_of_ne (hne side) with hlt | hgt
    · simp [hlt, hlt.not_gt]
    · simp [hgt, hgt.not_gt]
  refine ⟨_, ⟨fun side => ?_, fun side => ?_, hroles⟩, fun side => ⟨hkeys side, rfl, rfl⟩⟩
  · simp only [hm.connection side]
  · simp only [hroles side]
    exact deriveDirectionalKeys_not _ _

end

/-! ## Frames -/

section

variable {prims : Primitives} {opener : Opener} {agreement : Agreement}

theorem paddingLength_lt (n : ℕ) : paddingLength n defaultPaddingBoundary < 64 := by
  unfold paddingLength
  dsimp only [defaultPaddingBoundary]
  split <;> omega

theorem encodeBody_data {payload padding : Bytes} (hpayload : payload.length ≤ u16Max)
    (hpadding : padding.length ≤ u16Max) :
    encodeBody (.data payload padding) = .ok (toBeBytes 2 payload.length ++ payload ++
      toBeBytes 2 padding.length ++ padding) := by
  simp only [encodeBody]
  rw [if_neg (by omega), if_neg (by omega)]

theorem dataFrame_encode (hl : Lawful prims opener agreement) (ch : Channel) (msgId : ℕ)
    {payload : Bytes} (hpayload : payload.length ≤ u16Max) (key : Bytes) :
    ∃ bytes, (dataFrame ch msgId payload).encode prims key = .ok bytes := by
  have hpad := paddingLength_lt payload.length
  have hpadding : (replicate (paddingLength payload.length defaultPaddingBoundary)
      (0 : UInt8)).length ≤ u16Max := by
    rw [length_replicate]
    exact hpad.le.trans (by decide)
  have hbody := encodeBody_data hpayload hpadding
  unfold u16Max at hpayload
  unfold Frame.encode pack
  simp only [dataFrame] at hbody ⊢
  rw [hbody]
  dsimp only
  set plaintext := toBeBytes 2 payload.length ++ payload ++ toBeBytes 2
    (replicate (paddingLength payload.length defaultPaddingBoundary) (0 : UInt8)).length ++
    replicate (paddingLength payload.length defaultPaddingBoundary) 0 with hplaintext
  have hlen : plaintext.length = payload.length + paddingLength payload.length
      defaultPaddingBoundary + 4 := by
    simp only [hplaintext, length_append, length_toBeBytes, length_replicate]
    omega
  obtain ⟨ct, hct⟩ := hl.seals key (nonceForMsgId msgId)
    (FrameHeader.encodeAad ⟨frameTypeData, frameVersion, ch.channelId, ch.peerRoutingPrefix, msgId⟩)
    plaintext (by unfold maxFrameSize; omega)
  have htag := hl.inverts.appendsTag _ _ _ _ _ hct
  rw [hct]
  dsimp only
  rw [if_neg]
  · exact ⟨_, rfl⟩
  · unfold headerLen nonceLen maxFrameSize
    unfold tagLen at htag
    omega

theorem dataFrame_verifies (hl : Lawful prims opener agreement) {ch ch' : Channel} {msgId : ℕ}
    {payload bytes : Bytes} (hmsgId : msgId < 2 ^ 64) (hid : ch.channelId.length = 16)
    (hrouting : ch.peerRoutingPrefix.length = 16)
    (h : (dataFrame ch msgId payload).encode prims ch.kSend = .ok bytes)
    {m : ChannelManager} (hlive : m.channelAt ch.channelId = some ch')
    (hkey : ch'.kRecv = ch.kSend) :
    Verifies opener m bytes (dataFrame ch msgId payload).header
      (dataFrame ch msgId payload).body := by
  have hsized : (dataFrame ch msgId payload).header.Sized := ⟨hid, hrouting, hmsgId⟩
  obtain ⟨pt, hbody, hdecode⟩ := decodeFull_of_pack hl.inverts hsized rfl rfl h
  have hbodySized : (dataFrame ch msgId payload).body.Sized := trivial
  have hround : decodeBody opener frameTypeData pt = .ok (dataFrame ch msgId payload).body :=
    (decodeBody_encodeBody_iff opener hbodySized hbody).2 trivial
  have hfull : decodeFull opener bytes ch.kSend =
      .ok ((dataFrame ch msgId payload).header, (dataFrame ch msgId payload).body) := by
    rw [hdecode]
    show (decodeBody opener frameTypeData pt).map _ = _
    rw [hround]
    rfl
  unfold decodeFull at hfull
  cases hheader : decodeHeader bytes with
  | error e =>
    rw [hheader] at hfull
    cases hfull
  | ok parts =>
    obtain ⟨header, tail⟩ := parts
    rw [hheader] at hfull
    simp only at hfull
    cases hverify : decodeAndVerify opener header tail ch.kSend with
    | error e =>
      rw [hverify] at hfull
      cases hfull
    | ok body =>
      rw [hverify] at hfull
      obtain ⟨rfl, rfl⟩ := Prod.mk.inj (Except.ok.inj hfull)
      exact ⟨tail, ch', hheader, hlive, by rw [hkey, hverify]⟩

end

/-! ## Persisted counters -/

/-- The counters a runtime starts a channel with. -/
def persistedFor (store : Option CounterStore) (channelId : Bytes) : PersistedCounters :=
  (store.bind fun store => store channelId).getD {}

/-- The last id that was accepted before, if any was. -/
def PersistedCounters.mark (p : PersistedCounters) : WithBot ℕ :=
  if p.receivedAny then WithBot.some p.msgIdRecv else ⊥

theorem Runtime.channelFor_eq (prims : Primitives) (r : Runtime) (peerDid : String)
    (keys : SessionKeys) :
    r.channelFor prims peerDid keys =
      resume prims keys peerDid classicalProviderId keys.isInitiator
        (persistedFor r.inbound.store
          (deriveChannelId prims classicalProviderId keys.connectionId keys.generation)) := by
  unfold Runtime.channelFor persistedFor
  cases r.inbound.store with
  | none => rfl
  | some store =>
    simp only [buildChannel, runtimeConfig, Option.bind_some]
    cases store (deriveChannelId prims classicalProviderId keys.connectionId keys.generation) with
    | none | some persisted => rfl

/-! ## Two runtimes -/

/-- The two runtimes, the frames in flight from each side, the payloads each side was asked
to send, and how many frames of each side have arrived. -/
structure Pair where
  runtime : Side → Runtime
  wire : Side → List Bytes
  sent : Side → List Bytes
  arrived : Side → ℕ

inductive PairAction where
  | ensure (side : Side)
  | send (side : Side) (payload : Bytes)
  /-- The oldest frame in flight from the side reaches the other. -/
  | arrive (side : Side)

/-- The payload of a `DATA` body. -/
def FrameBody.payload : FrameBody → Option Bytes
  | .data applicationPayload _ => some applicationPayload
  | _ => none

namespace Pair

/-- Both sides have registered their material. -/
def start (material : Side → ClassicalKeyMaterial) (store : Side → Option CounterStore) : Pair where
  runtime side :=
    { classical := new.registerPeerMaterial (material side)
      inbound := Inbound.start .new (store side) }
  wire _ := []
  sent _ := []
  arrived _ := 0

section

variable (prims : Primitives) (opener : Opener) (agreement : Agreement)
  (material : Side → ClassicalKeyMaterial)

/-- One call, or one frame that arrives. -/
def step (s : Pair) : PairAction → Option Pair
  | .ensure side => some { s with
      runtime := update s.runtime side
        ((s.runtime side).ensureChannel prims agreement (material side).peerDid) }
  | .send side payload =>
    let result := (s.runtime side).sendToPeer prims agreement (material side).peerDid payload
    some { s with
      runtime := update s.runtime side result.1
      sent := update s.sent side (s.sent side ++ [payload])
      wire := update s.wire side
        (match result.2 with
          | .error _ => s.wire side
          | .ok bytes => s.wire side ++ [bytes]) }
  | .arrive side =>
    match s.wire side with
    | [] => none
    | bytes :: rest => some { s with
        runtime := update s.runtime side.other ((s.runtime side.other).receive opener bytes).1
        wire := update s.wire side rest
        arrived := update s.arrived side (s.arrived side + 1) }

def payloads (s : Pair) (side : Side) : List (Option Bytes) :=
  (s.runtime side).inbound.dispatched.map fun d => d.body.payload

def firstId (store : Side → Option CounterStore) (side : Side) : ℕ :=
  (persistedFor (store side)
    (deriveChannelId prims classicalProviderId (material side).connectionId 0)).sendReserved

/-- A payload fits its length field, and the counter has not run out; a frame arrives where
the channel is open. -/
def Ready (store : Side → Option CounterStore) (s : Pair) : PairAction → Prop
  | .ensure _ => True
  | .send side payload => payload.length ≤ u16Max ∧
    firstId prims material store side + (s.sent side).length ≤ u64Max
  | .arrive side =>
    ((s.runtime side.other).channels.getByPeerDid (material side.other).peerDid).isSome = true

/-- The counters kept from before agree: what a side has accepted is below what the other
starts with. -/
def Resumes (store : Side → Option CounterStore) : Prop :=
  ∀ side, (persistedFor (store side.other)
    (deriveChannelId prims classicalProviderId (material side).connectionId 0)).mark <
      WithBot.some (firstId prims material store side)

end

end Pair

open Pair

/-! ## One runtime -/

/-- The keys that the material of the two sides gives. -/
structure Derived (prims : Primitives) (opener : Opener) (agreement : Agreement)
    (material : Side → ClassicalKeyMaterial) (keys : Side → SessionKeys) : Prop where
  lawful : Lawful prims opener agreement
  mirrored : Mirrored prims keys
  sessions : ∀ side, sessionOf prims agreement (material side) = .ok (keys side)
  connection : ∀ side, (keys side).connectionId = (material side).connectionId
  generation : ∀ side, (keys side).generation = 0

section

variable {prims : Primitives} {opener : Opener} {agreement : Agreement}
  {material : Side → ClassicalKeyMaterial} {keys : Side → SessionKeys}
  {store : Side → Option CounterStore} {side : Side} {r : Runtime} {n k : ℕ}

def opening (prims : Primitives) (material : Side → ClassicalKeyMaterial)
    (keys : Side → SessionKeys) (store : Side → Option CounterStore) (side : Side) : Channel :=
  resume prims (keys side) (material side).peerDid classicalProviderId
    (keys side).isInitiator (persistedFor (store side)
      (deriveChannelId prims classicalProviderId (keys side).connectionId (keys side).generation))

/-- A runtime that has sent `n` payloads and accepted `k` frames: its channel is not open yet
and its store as it was, or its channel is open with the counters that follow. -/
structure Runtime.InStep (prims : Primitives) (material : Side → ClassicalKeyMaterial)
    (keys : Side → SessionKeys) (store : Side → Option CounterStore) (side : Side) (r : Runtime)
    (n k : ℕ) : Prop where
  pending : r.classical.pending (material side).peerDid = some (material side)
  session : r.classical.sessions (material side).peerDid = none ∨
    r.classical.sessions (material side).peerDid = some (keys side)
  channel : (r.channels.byPeerDid (material side).peerDid = none ∧
      r.inbound.store = store side ∧ n = 0 ∧ k = 0) ∨
    ∃ ch, r.channels.Holds (material side).peerDid ch ∧
      (opening prims material keys store side).SameLine ch ∧
      (firstId prims material store side + n ≤ u64Max →
        ch.msgIdSend = firstId prims material store side + n) ∧
      ch.mark < WithBot.some (firstId prims material store side.other + k)

open Dcx.Runtime

theorem Derived.length_channelId (hd : Derived prims opener agreement material keys) :
    (opening prims material keys store side).channelId.length = 16 := by
  show (take 16 _).length = 16
  rw [length_take, hd.lawful.digest]
  rfl

theorem Derived.length_routingPrefix (hd : Derived prims opener agreement material keys) :
    (opening prims material keys store side).peerRoutingPrefix.length = 16 := by
  show (take 16 _).length = 16
  rw [length_take, hd.lawful.digest]
  rfl

theorem Derived.establish (hd : Derived prims opener agreement material keys)
    (h : r.InStep prims material keys store side n k) :
    ∃ p, r.classical.establish prims agreement (material side).peerDid = .ok (p, keys side) ∧
      p.pending = r.classical.pending ∧ p.sessions (material side).peerDid = some (keys side) := by
  unfold ClassicalProvider.establish
  rcases h.session with hnone | hsome
  · rw [hnone, h.pending]
    simp only [hd.sessions side]
    exact ⟨_, rfl, rfl, by simp⟩
  · rw [hsome]
    exact ⟨_, rfl, rfl, hsome⟩

theorem Derived.openChannel (hd : Derived prims opener agreement material keys)
    (hr : Resumes prims material store) (h : r.InStep prims material keys store side n k)
    (habsent : r.channels.byPeerDid (material side).peerDid = none) :
    ∃ r', r.openChannel prims agreement (material side).peerDid = .ok r' ∧
      r'.InStep prims material keys store side n k ∧
      r'.inbound.dispatched = r.inbound.dispatched ∧
      ∃ ch, r'.channels.Holds (material side).peerDid ch := by
  obtain ⟨p, hestablish, hpending, hsession⟩ := hd.establish h
  rcases h.channel with ⟨-, hstore, rfl, rfl⟩ | ⟨ch, hholds, -⟩
  · have hfor : r.channelFor prims (material side).peerDid (keys side) =
        opening prims material keys store side := by
      rw [channelFor_eq, hstore]
      rfl
    have hopened : (r.channels.insert (opening prims material keys store side)).Holds
        (material side).peerDid (opening prims material keys store side) :=
      holds_insert r.channels _
    refine ⟨⟨p, { r.inbound with
      channels := r.channels.insert (opening prims material keys store side) }⟩,
      by simp only [openChannel, hestablish, hfor], ?_, rfl, _, hopened⟩
    refine ⟨hpending ▸ h.pending, .inr hsession, .inr ⟨_, hopened, SameLine.refl _,
      fun _ => ?_, ?_⟩⟩
    · show (persistedFor _ _).sendReserved = _
      rw [hd.connection, hd.generation]
      rfl
    · have hresumes := hr side.other
      rw [other_other] at hresumes
      show (persistedFor _ _).mark < _
      have hid := hd.mirrored.channelId side
      rw [hd.connection, hd.generation, hd.connection, hd.generation] at hid
      rw [hd.connection, hd.generation, ← hid]
      exact hresumes
  · rw [hholds.peer] at habsent
    cases habsent

theorem Derived.ensureChannel (hd : Derived prims opener agreement material keys)
    (hr : Resumes prims material store) (h : r.InStep prims material keys store side n k) :
    (r.ensureChannel prims agreement (material side).peerDid).InStep prims material keys store side
        n k ∧
      (r.ensureChannel prims agreement (material side).peerDid).inbound.dispatched =
        r.inbound.dispatched := by
  unfold Runtime.ensureChannel
  rcases h.channel with ⟨habsent, -⟩ | ⟨ch, hholds, -⟩
  · obtain ⟨r', hopen, hin, hdispatched, -⟩ := hd.openChannel hr h habsent
    have hget : (r.channels.getByPeerDid (material side).peerDid).isSome = false := by
      simp [getByPeerDid, habsent]
    rw [hget, hopen]
    exact ⟨hin, hdispatched⟩
  · rw [hholds.getByPeerDid]
    exact ⟨h, rfl⟩

structure Sealed (prims : Primitives) (material : Side → ClassicalKeyMaterial)
    (keys : Side → SessionKeys) (store : Side → Option CounterStore) (side : Side)
    (payload : Bytes) (msgId : ℕ) (bytes : Bytes) : Prop where
  counter : msgId ≤ u64Max
  encode : (dataFrame (opening prims material keys store side) msgId payload).encode prims
    (opening prims material keys store side).kSend = .ok bytes

theorem Derived.sendToPeer_open (hd : Derived prims opener agreement material keys)
    (h : r.InStep prims material keys store side n k) {ch : Channel}
    (hholds : r.channels.Holds (material side).peerDid ch) {payload : Bytes}
    (hpayload : payload.length ≤ u16Max) (hn : firstId prims material store side + n ≤ u64Max) :
    (r.sendToPeer prims agreement (material side).peerDid payload).1.InStep prims material keys
      store
        side (n + 1) k ∧
      (r.sendToPeer prims agreement (material side).peerDid payload).1.inbound.dispatched =
        r.inbound.dispatched ∧
      ∃ bytes, (r.sendToPeer prims agreement (material side).peerDid payload).2 = .ok bytes ∧
        Sealed prims material keys store side payload (firstId prims material store side + n)
          bytes := by
  rcases h.channel with ⟨habsent, -⟩ | ⟨ch', hholds', hline, hcounter, hmark⟩
  · rw [hholds.peer] at habsent
    cases habsent
  · obtain ⟨hclassical, hdispatched, hafter, hresult⟩ :=
      sendToPeer_of_holds prims agreement hholds' payload
    obtain ⟨bytes, hbytes⟩ := dataFrame_encode hd.lawful (opening prims material keys store side)
      (firstId prims material store side + n) hpayload
      (opening prims material keys store side).kSend
    refine ⟨⟨hclassical ▸ h.pending, hclassical ▸ h.session, .inr ⟨_, hafter, hline.afterSend,
      fun hbound => ?_, ?_⟩⟩, hdispatched, bytes, ?_, hn, hbytes⟩
    · rw [afterSend_msgIdSend]
      omega
    · rwa [afterSend_mark]
    · rw [hresult, hline.dataFrame_eq, hline.kSend, hcounter hn, hbytes]

theorem Derived.sendToPeer (hd : Derived prims opener agreement material keys)
    (hr : Resumes prims material store) (h : r.InStep prims material keys store side n k)
    {payload : Bytes} (hpayload : payload.length ≤ u16Max)
    (hn : firstId prims material store side + n ≤ u64Max) :
    (r.sendToPeer prims agreement (material side).peerDid payload).1.InStep prims material keys
      store
        side (n + 1) k ∧
      (r.sendToPeer prims agreement (material side).peerDid payload).1.inbound.dispatched =
        r.inbound.dispatched ∧
      ∃ bytes, (r.sendToPeer prims agreement (material side).peerDid payload).2 = .ok bytes ∧
        Sealed prims material keys store side payload (firstId prims material store side + n)
          bytes := by
  rcases h.channel with ⟨habsent, -⟩ | ⟨ch, hholds, -⟩
  · obtain ⟨r', hopen, hin, hdispatched, ch, hholds⟩ := hd.openChannel hr h habsent
    rw [sendToPeer_of_absent habsent hopen hholds, ← hdispatched]
    exact hd.sendToPeer_open hin hholds hpayload hn
  · exact hd.sendToPeer_open h hholds hpayload hn

theorem Derived.receive (hd : Derived prims opener agreement material keys)
    (h : r.InStep prims material keys store side n k)
    (hopen : (r.channels.getByPeerDid (material side).peerDid).isSome = true)
    {payload bytes : Bytes} (hsealed : Sealed prims material keys store side.other payload
      (firstId prims material store side.other + k) bytes) :
    (r.receive opener bytes).1.InStep prims material keys store side n (k + 1) ∧
      ∃ d, d.body.payload = some payload ∧
        (r.receive opener bytes).1.inbound.dispatched = r.inbound.dispatched ++ [d] := by
  rcases h.channel with ⟨habsent, -⟩ | ⟨ch, hholds, hline, hcounter, hmark⟩
  · simp [getByPeerDid, habsent] at hopen
  · have hid : (opening prims material keys store side.other).channelId = ch.channelId := by
      rw [hline.channelId]
      exact hd.mirrored.channelId side
    have hkey : ch.kRecv = (opening prims material keys store side.other).kSend := by
      have hswapped := hd.mirrored.swapped side.other
      rw [other_other] at hswapped
      rw [hline.kRecv]
      exact hswapped.symm
    have hlive : r.inbound.channels.channelAt
        (opening prims material keys store side.other).channelId = some ch := by
      rw [hid]
      exact hholds.live
    have hverifies := dataFrame_verifies hd.lawful
      (Nat.lt_of_le_of_lt hsealed.counter (by decide)) hd.length_channelId hd.length_routingPrefix
      hsealed.encode hlive hkey
    obtain ⟨ch', hch', hcases⟩ := Inbound.tryHandle_of_verifies hverifies
    obtain rfl : ch' = ch := Option.some.inj (hch'.symm.trans hlive)
    rcases hcases with ⟨-, heq⟩ | ⟨hge, -⟩
    · have hwrite := hholds.writeAt { ch' with
        msgIdRecv := firstId prims material store side.other + k, receivedAny := true } rfl
      refine ⟨⟨h.pending, h.session, .inr ⟨{ ch' with
        msgIdRecv := firstId prims material store side.other + k, receivedAny := true }, ?_,
        ⟨hline.channelId, hline.routingPrefix, hline.kSend, hline.kRecv⟩, hcounter, ?_⟩⟩,
        ⟨(opening prims material keys store side.other).channelId,
          firstId prims material store side.other + k,
          (dataFrame (opening prims material keys store side.other)
            (firstId prims material store side.other + k) payload).body⟩, rfl, ?_⟩
      · show ((r.inbound.tryHandle opener bytes).1.channels).Holds _ _
        rw [heq]
        show (r.inbound.channels.writeAt (opening prims material keys store side.other).channelId
          _).Holds _ _
        rw [hid]
        exact hwrite
      · simp only [mark]
        exact WithBot.coe_lt_coe.2 (by omega)
      · show (r.inbound.tryHandle opener bytes).1.dispatched = _
        rw [heq]
        rfl
    · exact absurd hmark hge

end

/-! ## The pair -/

namespace Pair

variable {prims : Primitives} {opener : Opener} {agreement : Agreement}
  {material : Side → ClassicalKeyMaterial} {keys : Side → SessionKeys}
  {store : Side → Option CounterStore} {s t : Pair} {a : PairAction}

/-- In each direction the frames in flight carry what was sent and has not arrived, and what
has arrived was dispatched. -/
structure Conserved (prims : Primitives) (material : Side → ClassicalKeyMaterial)
    (keys : Side → SessionKeys) (store : Side → Option CounterStore) (s : Pair) : Prop where
  inStep : ∀ side, (s.runtime side).InStep prims material keys store side (s.sent side).length
    (s.arrived side.other)
  arrived : ∀ side, s.arrived side ≤ (s.sent side).length
  flight : ∀ side, Forall₂ (fun e bytes => Sealed prims material keys store side e.1 e.2 bytes)
    (((s.sent side).drop (s.arrived side)).zipIdx
      (firstId prims material store side + s.arrived side)) (s.wire side)
  dispatched : ∀ side, s.payloads side.other = ((s.sent side).take (s.arrived side)).map some

theorem conserved_start (material : Side → ClassicalKeyMaterial)
    (store : Side → Option CounterStore) :
    Conserved prims material keys store (start material store) where
  inStep side :=
    { pending := by simp [start, registerPeerMaterial]
      session := .inl rfl
      channel := .inl ⟨rfl, rfl, rfl, rfl⟩ }
  arrived _ := le_refl _
  flight _ := Forall₂.nil
  dispatched _ := rfl

theorem Conserved.ensure (hd : Derived prims opener agreement material keys)
    (hr : Resumes prims material store) (h : Conserved prims material keys store s) {side : Side}
    (hstep : s.step prims opener agreement material (.ensure side) = some t) :
    Conserved prims material keys store t := by
  cases hstep
  obtain ⟨hin, hdispatched⟩ := hd.ensureChannel hr (h.inStep side)
  refine ⟨fun side' => ?_, h.arrived, h.flight, fun side' => ?_⟩
  · by_cases heq : side' = side
    · subst heq
      simpa only [update_self] using hin
    · simpa only [update_of_ne heq] using h.inStep side'
  · rw [← h.dispatched side']
    unfold payloads
    by_cases heq : side'.other = side
    · subst heq
      simp only [update_self, hdispatched]
    · simp only [update_of_ne heq]

theorem Conserved.send (hd : Derived prims opener agreement material keys)
    (hr : Resumes prims material store) (h : Conserved prims material keys store s) {side : Side}
    {payload : Bytes} (hpayload : payload.length ≤ u16Max)
    (hn : firstId prims material store side + (s.sent side).length ≤ u64Max)
    (hstep : s.step prims opener agreement material (.send side payload) = some t) :
    Conserved prims material keys store t := by
  obtain ⟨hin, hdispatched, bytes, hbytes, hsealed⟩ := hd.sendToPeer hr (h.inStep side) hpayload hn
  simp only [step, hbytes, Option.some.injEq] at hstep
  subst hstep
  have harrived := h.arrived side
  refine ⟨fun side' => ?_, fun side' => ?_, fun side' => ?_, fun side' => ?_⟩
  · by_cases heq : side' = side
    · subst heq
      simpa only [update_self, length_append, length_singleton] using hin
    · simpa only [update_of_ne heq] using h.inStep side'
  · by_cases heq : side' = side
    · subst heq
      simp only [update_self, length_append]
      omega
    · simpa only [update_of_ne heq] using h.arrived side'
  · by_cases heq : side' = side
    · subst heq
      simp only [update_self]
      rw [drop_append_of_le_length harrived, zipIdx_append]
      refine rel_append (h.flight side') (Forall₂.cons ?_ Forall₂.nil)
      simp only [length_drop]
      rwa [show firstId prims material store side' + s.arrived side' +
        ((s.sent side').length - s.arrived side') =
          firstId prims material store side' + (s.sent side').length by omega]
    · simpa only [update_of_ne heq] using h.flight side'
  · have hpayloads : ∀ d, (update s.runtime side ((s.runtime side).sendToPeer prims agreement
        (material side).peerDid payload).1 d).inbound.dispatched =
          (s.runtime d).inbound.dispatched := by
      intro d
      by_cases heq : d = side
      · subst heq
        rw [update_self, hdispatched]
      · rw [update_of_ne heq]
    have hold := h.dispatched side'
    unfold payloads at hold ⊢
    simp only [hpayloads]
    rw [hold]
    by_cases heq : side' = side
    · subst heq
      simp only [update_self]
      rw [take_append_of_le_length harrived]
    · simp only [update_of_ne heq]

theorem Conserved.arrive (hd : Derived prims opener agreement material keys)
    (h : Conserved prims material keys store s) {side : Side}
    (hopen : ((s.runtime side.other).channels.getByPeerDid
      (material side.other).peerDid).isSome = true)
    (hstep : s.step prims opener agreement material (.arrive side) = some t) :
    Conserved prims material keys store t := by
  simp only [step] at hstep
  cases hwire : s.wire side with
  | nil =>
    rw [hwire] at hstep
    cases hstep
  | cons bytes rest =>
    rw [hwire] at hstep
    cases hstep
    have hflight := h.flight side
    rw [hwire] at hflight
    cases hsent : (s.sent side).drop (s.arrived side) with
    | nil =>
      rw [hsent] at hflight
      cases hflight
    | cons payload later =>
      rw [hsent] at hflight
      obtain ⟨hsealed, hrest⟩ := forall₂_cons.1 hflight
      have hlt : s.arrived side < (s.sent side).length := by
        by_contra hge
        rw [drop_eq_nil_of_le (by omega)] at hsent
        cases hsent
      have hget : (s.sent side)[s.arrived side]? = some payload := by
        rw [← head?_drop, hsent]
        rfl
      have hlater : (s.sent side).drop (s.arrived side + 1) = later := by
        rw [← tail_drop, hsent]
        rfl
      have hin := h.inStep side.other
      obtain ⟨hin', d, hd', hdispatched⟩ := hd.receive hin hopen (by rwa [other_other])
      refine ⟨fun side' => ?_, fun side' => ?_, fun side' => ?_, fun side' => ?_⟩
      · by_cases heq : side' = side.other
        · subst heq
          simpa only [other_other, update_self] using hin'
        · have hother : side'.other ≠ side := fun hside => heq (by rw [← hside, other_other])
          simpa only [update_of_ne heq, update_of_ne hother] using h.inStep side'
      · by_cases heq : side' = side
        · subst heq
          simp only [update_self]
          omega
        · simpa only [update_of_ne heq] using h.arrived side'
      · by_cases heq : side' = side
        · subst heq
          simp only [update_self, hlater]
          exact hrest
        · simpa only [update_of_ne heq] using h.flight side'
      · have hold := h.dispatched side'
        unfold payloads at hold ⊢
        by_cases heq : side' = side
        · subst heq
          simp only [update_self, hdispatched, map_append, hold]
          rw [take_add_one, hget]
          simp [hd']
        · have hother : side'.other ≠ side.other := fun hside => heq (by
            rw [← other_other side', hside, other_other])
          simpa only [update_of_ne heq, update_of_ne hother] using hold

theorem Conserved.step (hd : Derived prims opener agreement material keys)
    (hr : Resumes prims material store) (h : Conserved prims material keys store s)
    (hready : Ready prims material store s a)
    (hstep : s.step prims opener agreement material a = some t) :
    Conserved prims material keys store t := by
  cases a with
  | ensure side => exact h.ensure hd hr hstep
  | send side payload => exact h.send hd hr hready.1 hready.2 hstep
  | arrive side => exact h.arrive hd hready hstep

/-- In every run of steps that are ready, the payloads dispatched at a side are those the
other side sent, up to the last frame that arrived; the rest is in flight. -/
def Delivers (prims : Primitives) (opener : Opener) (agreement : Agreement)
    (material : Side → ClassicalKeyMaterial) (store : Side → Option CounterStore) : Prop :=
  ∀ (actions : List PairAction) (s : Pair),
    Run.Along (step prims opener agreement material) (Ready prims material store)
      (start material store) actions →
    Run.exec (step prims opener agreement material) (start material store) actions = some s →
    ∀ side, s.payloads side.other = ((s.sent side).take (s.arrived side)).map some ∧
      (s.wire side).length + s.arrived side = (s.sent side).length

/-- **End to end**: matching material gives mirrored keys, and every payload that arrives
where the channel is open is dispatched as it was sent. -/
theorem delivered (prims : Primitives) (opener : Opener) (agreement : Agreement)
    (material : Side → ClassicalKeyMaterial) (store : Side → Option CounterStore)
    (hl : Lawful prims opener agreement) (hm : Matching agreement material)
    (hlow : (sharedSecret agreement (material .alice)).all (· == 0) = false)
    (hr : Resumes prims material store) :
    (∃ keys : Side → SessionKeys, Mirrored prims keys ∧ ∀ side,
      sessionOf prims agreement (material side) = .ok (keys side)) ∧
    Delivers prims opener agreement material store := by
  obtain ⟨keys, hmirrored, hkeys⟩ := exists_mirrored hl hm hlow
  have hd : Derived prims opener agreement material keys :=
    ⟨hl, hmirrored, fun side => (hkeys side).1, fun side => (hkeys side).2.1,
      fun side => (hkeys side).2.2⟩
  refine ⟨⟨keys, hmirrored, hd.sessions⟩, fun actions s hready hexec side => ?_⟩
  have h : Conserved prims material keys store s :=
    Run.exec_invariant_along (fun _ _ _ h hready hstep => h.step hd hr hready hstep)
      (conserved_start material store) hready hexec
  have hlen := (h.flight side).length_eq
  rw [length_zipIdx, length_drop] at hlen
  have harrived := h.arrived side
  exact ⟨h.dispatched side, by omega⟩

/-! ## A pair of agents -/

/-- A digest of 32 bytes, with the seal that appends zeros. -/
def Sample.hashing : Primitives :=
  { Sample.prims with sha256 := fun bytes => (bytes ++ replicate 32 0).take 32 }

open Pair.Sample

/-- A commutative agreement. -/
def Sample.xorAgreement : Agreement where
  publicKey secret := secret
  diffieHellman secret peerPublic := zipWith (· ^^^ ·) secret peerPublic
  hkdfSalted _ ikm _ len := replicate len (ikm.getD 0 0)

def Sample.secret : Side → Bytes
  | .alice => replicate 32 1
  | .bob => replicate 32 2

def Sample.did : Side → String
  | .alice => "did:peer:alice"
  | .bob => "did:peer:bob"

def Sample.registered (side : Side) : ClassicalKeyMaterial where
  ourX25519Secret := secret side
  peerX25519Public := xorAgreement.publicKey (secret side.other)
  ourDid := did side
  peerDid := did side.other
  peerKid := did side.other ++ "#key-1"
  connectionId := "conn-1"

theorem Sample.lawful : Lawful hashing Sample.opener xorAgreement where
  inverts := ⟨Sample.inverts.opens, Sample.inverts.appendsTag⟩
  seals _ _ _ _ _ := ⟨_, rfl⟩
  digest bytes := by simp [hashing]
  agrees a b := zipWith_comm_of_comm UInt8.xor_comm

theorem Sample.matching : Matching xorAgreement registered where
  dids _ := rfl
  distinct := by decide
  publics _ := rfl
  connection _ := rfl

theorem Sample.nonzero :
    (sharedSecret xorAgreement (registered .alice)).all (· == 0) = false := by decide

theorem Sample.resumes : Resumes hashing registered fun _ => none :=
  fun _ => WithBot.bot_lt_coe 0

/-- The two agents with no counters kept from before. -/
theorem delivered_sample : Delivers hashing Sample.opener xorAgreement registered fun _ => none :=
  (delivered hashing Sample.opener xorAgreement registered _ lawful matching nonzero resumes).2

theorem receive_of_no_channels {r : Runtime} (h : ∀ id, r.channels.channelAt id = none)
    (bytes : Bytes) : (r.receive opener bytes).1 = r := by
  rcases Inbound.tryHandle_cases opener r.inbound bytes with heq | ⟨header, body, ch, -, hch, -⟩
  · unfold Runtime.receive
    rw [heq]
  · have hnone := h header.channelId
    unfold Runtime.channels at hnone
    rw [hnone] at hch
    cases hch

/-- Bob has registered the material and not opened the channel: the frame that reaches him is
dropped. -/
theorem delivered_fails_unopened :
    Lawful hashing Sample.opener xorAgreement ∧
      Matching xorAgreement registered ∧
      (sharedSecret xorAgreement (registered .alice)).all (· == 0) = false ∧
      ∃ s, Run.exec (step hashing Sample.opener xorAgreement registered)
          (start registered fun _ => none) [.send .alice [104, 105], .arrive .alice] =
            some s ∧
        s.sent .alice = [[104, 105]] ∧ s.arrived .alice = 1 ∧ s.payloads .bob = [] := by
  refine ⟨lawful, matching, nonzero, ?_⟩
  obtain ⟨keys, hmirrored, hkeys⟩ := exists_mirrored lawful matching nonzero
  have hd : Derived hashing Sample.opener xorAgreement registered keys :=
    ⟨lawful, hmirrored, fun side => (hkeys side).1, fun side => (hkeys side).2.1,
      fun side => (hkeys side).2.2⟩
  have hin : ((start registered fun _ => none).runtime .alice).InStep hashing
      registered keys (fun _ => none) .alice 0 0 :=
    (conserved_start registered fun _ => none).inStep .alice
  obtain ⟨-, -, bytes, hbytes, -⟩ := hd.sendToPeer resumes hin
    (by decide : [(104 : UInt8), 105].length ≤ u16Max) (by decide)
  have hbob : (((start registered fun _ => none).runtime .bob).receive Sample.opener
      bytes).1 = (start registered fun _ => none).runtime .bob :=
    receive_of_no_channels (fun _ => rfl) bytes
  refine ⟨{ start registered fun _ => none with
    runtime := update (update (start registered fun _ => none).runtime .alice
      (((start registered fun _ => none).runtime .alice).sendToPeer hashing
        xorAgreement (registered .alice).peerDid [104, 105]).1) .bob
      ((start registered fun _ => none).runtime .bob)
    sent := update (fun _ => []) .alice [[104, 105]]
    wire := update (update (fun _ => []) .alice [bytes]) .alice []
    arrived := update (fun _ => 0) .alice 1 }, ?_, rfl, rfl, rfl⟩
  simp only [Run.exec, step, hbytes]
  simp only [start, update_self, nil_append, other] at hbob ⊢
  rw [update_of_ne (by decide), hbob]

end Pair
end Idiom.Dcx
