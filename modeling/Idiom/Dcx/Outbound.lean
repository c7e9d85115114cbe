import Idiom.Dcx.Channel
import Idiom.Lib.Run

/-!
# Sending over DCX, one await point at a time

`DcxOutboundTransport::send_to_peer`, `DcxRuntime::ensure_channel` and
`ChannelManager::remove` are sequences of short lock scopes and awaited calls. Between
two of them any other call may run, and the process may crash.

* `World.packed` and `World.wire` record the frames packed and put on the wire;
  `issued` and `reserved` count the ids allocated and the ids reserved.
-/

namespace Idiom.Dcx

/-! ## Calls -/

inductive ProviderError where
  | noSession (peerDid : String)
  | handshakeTimeout
  | handshakeRejected (msg : String)
  | lowOrderX25519
  | internal (msg : String)
  | notImplemented (msg : String)

inductive DcxOutboundError where
  | provider (e : ProviderError)
  | frame (e : FrameError)
  | wsUnavailable (msg : String)

/-- How the runtime is set up: whether a counter store is attached, the provider of the
outbound transport, and the two providers `ensure_channel` chooses from. -/
structure Config where
  prims : Primitives
  hasStore : Bool
  providerId : String
  classicalId : String
  pqId : Option String

inductive Call where
  | sendToPeer (peerDid : String) (applicationPayload : Bytes)
  | ensureChannel (peerDid : String)
  | remove (channelId : Bytes)

/-- What a channel is looked up for. -/
inductive Purpose where
  | send (applicationPayload : Bytes)
  | ensure

/-- The scope a call runs next, while it looks for its channel or makes it. -/
inductive OpenPc where
  | lookupId
  | lookupChannel (channelId : Bytes)
  /-- `ensure_channel` asks the PQ provider for keys. -/
  | chooseProvider (pqId : String)
  | establish (providerId : String)
  | load (providerId : String) (keys : SessionKeys)
  | insertChannel (channel : Channel)
  | insertPeer (channel : Channel)
  | insertPrefix (channel : Channel)
  | relookupId
  | relookupChannel (channelId : Bytes)

/-- The scope a send runs next, once it has its channel. -/
inductive SendPc where
  | lock
  | save (ceiling : ℕ)
  | issue

inductive RemovePc where
  | unregister (channelId : Bytes)
  | lock (arc : ℕ)
  | peer (arc : ℕ)
  | routing (arc : ℕ)

/-- A call that has started. -/
inductive Task where
  | opening (purpose : Purpose) (peerDid : String) (pc : OpenPc)
  | sending (applicationPayload : Bytes) (arc : ℕ) (pc : SendPc)
  | removing (pc : RemovePc)
  | returned (result : Except DcxOutboundError Unit)

def Call.start : Call → Task
  | .sendToPeer peerDid applicationPayload => .opening (.send applicationPayload) peerDid .lookupId
  | .ensureChannel peerDid => .opening .ensure peerDid .lookupId
  | .remove channelId => .removing (.unregister channelId)

/-- What comes from outside at a step. -/
inductive Input where
  | none
  | session (reply : Except ProviderError SessionKeys)
  | pqKeys (found : Bool)

/-! ## The process -/

/-- A packed frame, with the key it was sealed under. -/
structure Packed where
  kSend : Bytes
  frame : Frame
  bytes : Bytes

def Packed.msgId (f : Packed) : ℕ := f.frame.header.msgId

def Packed.channelId (f : Packed) : Bytes := f.frame.header.channelId

structure World where
  channels : ChannelManager
  wsOpen : Bool
  store : CounterStore
  packed : List Packed
  wire : List Packed
  issued : ℕ
  reserved : ℕ

/-- Before the first call, with an empty manager. -/
def World.init (store : CounterStore) : World := ⟨.new, true, store, [], [], 0, 0⟩

section

variable (cfg : Config) (w : World)

/-- No channel was found: `send_to_peer` establishes one with its own provider,
`ensure_channel` prefers the PQ provider if there is one. -/
def Purpose.missing : Purpose → OpenPc
  | .send _ => .establish cfg.providerId
  | .ensure =>
    match cfg.pqId with
    | some pqId => .chooseProvider pqId
    | none => .establish cfg.classicalId

/-- A channel was found. -/
def Purpose.found (arc : ℕ) : Purpose → Task
  | .send applicationPayload => .sending applicationPayload arc .lock
  | .ensure => .returned (.ok ())

/-- The channel a session makes: resumed if the store has counters for it. -/
def buildChannel (store : CounterStore) (peerDid providerId : String) (keys : SessionKeys) :
    Channel :=
  match store (deriveChannelId cfg.prims providerId keys.connectionId keys.generation) with
  | some persisted =>
    Channel.resume cfg.prims keys peerDid providerId keys.isInitiator persisted
  | none => Channel.fromSessionKeys cfg.prims keys peerDid providerId keys.isInitiator

/-- The part `send_to_peer` and `ensure_channel` share. -/
def openNext (purpose : Purpose) (peerDid : String) (pc : OpenPc) (input : Input) :
    Option (World × Task) :=
  let goto (pc : OpenPc) : Task := .opening purpose peerDid pc
  match pc, input with
  | .lookupId, .none =>
    match w.channels.byPeerDid peerDid with
    | none => some (w, goto (purpose.missing cfg))
    | some channelId => some (w, goto (.lookupChannel channelId))
  | .lookupChannel channelId, .none =>
    match w.channels.byChannelId channelId with
    | none => some (w, goto (purpose.missing cfg))
    | some arc => some (w, purpose.found arc)
  | .chooseProvider pqId, .pqKeys found =>
    some (w, goto (.establish (if found then pqId else cfg.classicalId)))
  | .establish _, .session (.error e) =>
    -- `ensure_channel` only logs the error
    match purpose with
    | .send _ => some (w, .returned (.error (.provider e)))
    | .ensure => some (w, .returned (.ok ()))
  | .establish providerId, .session (.ok keys) =>
    if cfg.hasStore then some (w, goto (.load providerId keys))
    else some (w, goto (.insertChannel
      (Channel.fromSessionKeys cfg.prims keys peerDid providerId keys.isInitiator)))
  | .load providerId keys, .none =>
    some (w, goto (.insertChannel (buildChannel cfg w.store peerDid providerId keys)))
  | .insertChannel channel, .none =>
    some ({ w with channels := w.channels.insertChannel channel }, goto (.insertPeer channel))
  | .insertPeer channel, .none =>
    some ({ w with channels := w.channels.insertPeer channel }, goto (.insertPrefix channel))
  | .insertPrefix channel, .none =>
    match purpose with
    | .send _ => some ({ w with channels := w.channels.insertPrefix channel }, goto .relookupId)
    | .ensure => some ({ w with channels := w.channels.insertPrefix channel }, .returned (.ok ()))
  | .relookupId, .none =>
    match w.channels.byPeerDid peerDid with
    | none => some (w, .returned (.error (.wsUnavailable "channel registration race")))
    | some channelId => some (w, goto (.relookupChannel channelId))
  | .relookupChannel channelId, .none =>
    match w.channels.byChannelId channelId with
    | none => some (w, .returned (.error (.wsUnavailable "channel registration race")))
    | some arc => some (w, purpose.found arc)
  | _, _ => none

/-- The frame a send makes of its payload. -/
def dataFrame (channel : Channel) (msgId : ℕ) (applicationPayload : Bytes) : Frame where
  header :=
    { frameType := frameTypeData
      version := frameVersion
      channelId := channel.channelId
      routingPrefix := channel.peerRoutingPrefix
      msgId := msgId }
  body := .data applicationPayload
    (List.replicate (paddingLength applicationPayload.length defaultPaddingBoundary) 0)

/-- Step 2 of `send_to_peer` once the mutex is free: reserve if the window is used up. -/
def lockNext (t : ℕ) (applicationPayload : Bytes) (arc : ℕ) (channel : Channel) : World × Task :=
  if channel.needsSendReservation then
    let reserved := channel.reserveSend sendReservationBatch
    ({ w with
        channels := (w.channels.lock arc t).write arc reserved
        reserved := w.reserved + sendReservationBatch },
      .sending applicationPayload arc
        (if cfg.hasStore then .save reserved.sendReserved else .issue))
  else
    ({ w with channels := w.channels.lock arc t }, .sending applicationPayload arc .issue)

/-- Step 3 of `send_to_peer`: allocate the id, pack, release the mutex, push. -/
def issueNext (applicationPayload : Bytes) (arc : ℕ) (channel : Channel) : World × Task :=
  let frame := dataFrame channel channel.nextSendMsgId.1 applicationPayload
  let w' := { w with
    channels := (w.channels.write arc channel.nextSendMsgId.2).unlock arc
    issued := w.issued + 1 }
  match frame.encode cfg.prims channel.kSend with
  | .error e => (w', .returned (.error (.frame e)))
  | .ok bytes =>
    let packed : Packed := ⟨channel.kSend, frame, bytes⟩
    if w.wsOpen then
      ({ w' with packed := w.packed ++ [packed], wire := w.wire ++ [packed] }, .returned (.ok ()))
    else
      ({ w' with packed := w.packed ++ [packed] },
        .returned (.error (.wsUnavailable "ws pickup loop closed")))

/-- The part of `send_to_peer` after it has its channel. -/
def sendNext (t : ℕ) (applicationPayload : Bytes) (arc : ℕ) (pc : SendPc) : Option (World × Task) :=
  match w.channels.arcs[arc]? with
  | none => none
  | some channel =>
    match pc with
    | .lock =>
      if w.channels.holder arc = none then some (lockNext cfg w t applicationPayload arc channel)
      else none
    | .save ceiling =>
      some ({ w with store := w.store.saveSendReserved channel.channelId ceiling },
        .sending applicationPayload arc .issue)
    | .issue => some (issueNext cfg w applicationPayload arc channel)

/-- `ChannelManager::remove`: the mutex is held while the other two tables change. -/
def removeNext (t : ℕ) (pc : RemovePc) : Option (World × Task) :=
  match pc with
  | .unregister channelId =>
    match w.channels.byChannelId channelId with
    | none => some (w, .returned (.ok ()))
    | some arc =>
      some ({ w with channels := w.channels.unregister channelId }, .removing (.lock arc))
  | .lock arc =>
    if w.channels.holder arc = none then
      some ({ w with channels := w.channels.lock arc t }, .removing (.peer arc))
    else none
  | .peer arc =>
    match w.channels.arcs[arc]? with
    | none => none
    | some channel =>
      some ({ w with channels := w.channels.removePeer channel }, .removing (.routing arc))
  | .routing arc =>
    match w.channels.arcs[arc]? with
    | none => none
    | some channel =>
      some ({ w with channels := (w.channels.removePrefix channel).unlock arc }, .returned (.ok ()))

/-- Let the call of task `t` run to its next await point. -/
def Task.next (t : ℕ) (input : Input) : Task → Option (World × Task)
  | .opening purpose peerDid pc => openNext cfg w purpose peerDid pc input
  | .sending applicationPayload arc pc =>
    match input with
    | .none => sendNext cfg w t applicationPayload arc pc
    | _ => none
  | .removing pc =>
    match input with
    | .none => removeNext w t pc
    | _ => none
  | .returned _ => none

end

/-! ## Runs -/

/-- The process, and the calls started in it. -/
structure Sys where
  world : World
  tasks : ℕ → Option Task

def Sys.init (store : CounterStore) : Sys := ⟨.init store, fun _ => none⟩

inductive Action where
  | call (t : ℕ) (c : Call)
  | run (t : ℕ) (input : Input)
  | closeWs
  | crash

/-- One action of the scheduler or of the environment. -/
def Sys.step (cfg : Config) (s : Sys) : Action → Option Sys
  | .call t c =>
    match s.tasks t with
    | some _ => none
    | none => some { s with tasks := Function.update s.tasks t (some c.start) }
  | .run t input =>
    match s.tasks t with
    | none => none
    | some task =>
      match task.next cfg s.world t input with
      | none => none
      | some (world, task) => some ⟨world, Function.update s.tasks t (some task)⟩
  | .closeWs => some { s with world := { s.world with wsOpen := false } }
  | .crash =>
    some ⟨{ s.world with channels := .new, wsOpen := true }, fun _ => none⟩

/-! ## What reaches the wire was packed -/

section

variable {cfg : Config} {w w' : World} {t : ℕ}

theorem openNext_frames {purpose : Purpose} {peerDid : String} {pc : OpenPc} {input : Input}
    {task : Task} (h : openNext cfg w purpose peerDid pc input = some (w', task)) :
    w'.packed = w.packed ∧ w'.wire = w.wire := by
  unfold openNext at h
  split at h <;> (try split at h) <;> cases h <;> exact ⟨rfl, rfl⟩

theorem removeNext_frames {pc : RemovePc} {task : Task}
    (h : removeNext w t pc = some (w', task)) : w'.packed = w.packed ∧ w'.wire = w.wire := by
  unfold removeNext at h
  split at h <;> split at h <;> cases h <;> exact ⟨rfl, rfl⟩

theorem lockNext_frames (cfg : Config) (w : World) (t : ℕ) (applicationPayload : Bytes)
    (arc : ℕ) (channel : Channel) :
    (lockNext cfg w t applicationPayload arc channel).1.packed = w.packed ∧
      (lockNext cfg w t applicationPayload arc channel).1.wire = w.wire := by
  unfold lockNext
  split <;> exact ⟨rfl, rfl⟩

theorem issueNext_wire (cfg : Config) (applicationPayload : Bytes) (arc : ℕ) (channel : Channel)
    (h : w.wire.Sublist w.packed) :
    (issueNext cfg w applicationPayload arc channel).1.wire.Sublist
      (issueNext cfg w applicationPayload arc channel).1.packed := by
  unfold issueNext
  dsimp only
  split
  · exact h
  · split
    · exact h.append (List.Sublist.refl _)
    · exact h.trans (List.sublist_append_left _ _)

theorem Task.next_wire {task task' : Task} {input : Input} (hw : w.wire.Sublist w.packed)
    (h : task.next cfg w t input = some (w', task')) : w'.wire.Sublist w'.packed := by
  cases task with
  | opening purpose peerDid pc =>
    obtain ⟨hpacked, hwire⟩ := openNext_frames h
    rwa [hpacked, hwire]
  | sending applicationPayload arc pc =>
    simp only [Task.next] at h
    split at h
    · unfold sendNext at h
      split at h
      · cases h
      next channel _ =>
      cases pc with
      | lock =>
        split_ifs at h
        obtain ⟨hpacked, hwire⟩ := lockNext_frames cfg w t applicationPayload arc channel
        rw [Option.some.injEq] at h
        rw [h] at hpacked hwire
        rwa [hpacked, hwire]
      | save ceiling =>
        cases h
        exact hw
      | issue =>
        have hwire := issueNext_wire cfg applicationPayload arc channel hw
        simp only [Option.some.injEq] at h
        rwa [h] at hwire
    · cases h
  | removing pc =>
    simp only [Task.next] at h
    split at h
    · obtain ⟨hpacked, hwire⟩ := removeNext_frames h
      rwa [hpacked, hwire]
    · cases h
  | returned result => cases h

theorem Sys.step_wire {s s' : Sys} {a : Action} (hs : s.world.wire.Sublist s.world.packed)
    (h : s.step cfg a = some s') : s'.world.wire.Sublist s'.world.packed := by
  cases a with
  | call t c =>
    simp only [Sys.step] at h
    split at h <;> cases h
    exact hs
  | run t input =>
    simp only [Sys.step] at h
    split at h
    · cases h
    split at h
    · cases h
    next hnext =>
    cases h
    exact Task.next_wire hs hnext
  | closeWs | crash =>
    cases h
    exact hs

end

end Idiom.Dcx
