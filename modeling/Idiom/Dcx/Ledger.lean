import Idiom.Dcx.Outbound

/-!
# The ledger: what sending does to the counters

Of everything a call does, only a few steps touch what decides whether an id can repeat:
which arc is registered under a channel id, the counters in the arcs, the persisted
ceilings and the frames packed so far. That is the `Ledger`; what a call in flight
holds of it is its `Stake`.
-/

namespace Idiom.Dcx

open Function Channel Sys List

/-! ## Ledger and stakes -/

structure Ledger where
  registered : Bytes → Option ℕ
  arcs : List Channel
  store : CounterStore
  packed : List Packed
  reserved : ℕ

def World.ledger (w : World) : Ledger :=
  ⟨w.channels.byChannelId, w.channels.arcs, w.store, w.packed, w.reserved⟩

/-- What a call holds between two of its steps; `absent` if it has not started or has
returned. -/
inductive Stake where
  | absent
  | removing
  | looking
  | session (peerDid providerId : String) (keys : SessionKeys)
  | pending (channel : Channel)
  | locking (arc : ℕ)
  | saving (arc ceiling : ℕ)
  | issuing (arc : ℕ)

def OpenPc.stake (peerDid : String) : OpenPc → Stake
  | .load providerId keys => .session peerDid providerId keys
  | .insertChannel channel => .pending channel
  | _ => .looking

def SendPc.stake (arc : ℕ) : SendPc → Stake
  | .lock => .locking arc
  | .save ceiling => .saving arc ceiling
  | .issue => .issuing arc

def Task.stake : Task → Stake
  | .opening _ peerDid pc => pc.stake peerDid
  | .sending _ arc pc => pc.stake arc
  | .removing _ => .removing
  | .returned _ => .absent

def Sys.stake (s : Sys) (t : ℕ) : Stake := ((s.tasks t).map Task.stake).getD .absent

/-- A `send_to_peer` or `ensure_channel` that has not returned. -/
def Stake.InFlight : Stake → Prop
  | .absent | .removing => False
  | _ => True

/-! ## Steps of the ledger -/

namespace Ledger

variable (l : Ledger)

def register (channel : Channel) : Ledger :=
  { l with
    registered := update l.registered channel.channelId (some l.arcs.length)
    arcs := l.arcs ++ [channel] }

def unregister (channelId : Bytes) : Ledger :=
  { l with registered := update l.registered channelId none }

def reserve (arc : ℕ) (channel : Channel) : Ledger :=
  { l with
    arcs := l.arcs.set arc (channel.reserveSend sendReservationBatch)
    reserved := l.reserved + sendReservationBatch }

def save (channelId : Bytes) (ceiling : ℕ) : Ledger :=
  { l with store := l.store.saveSendReserved channelId ceiling }

/-- The next id of the arc is used up. -/
def allocate (arc : ℕ) (channel : Channel) : Ledger :=
  { l with arcs := l.arcs.set arc channel.nextSendMsgId.2 }

def record (f : Packed) : Ledger := { l with packed := l.packed ++ [f] }

/-- What a process knows after a restart. -/
def restart : Ledger := { l with registered := fun _ => none, arcs := [] }

theorem register_self (channel : Channel) :
    (l.register channel).registered channel.channelId = some l.arcs.length :=
  update_self ..

theorem register_of_ne {channel : Channel} {channelId : Bytes} (h : channelId ≠ channel.channelId) :
    (l.register channel).registered channelId = l.registered channelId :=
  update_of_ne h ..

theorem registered_of_unregister {channelId id : Bytes} {arc : ℕ}
    (h : (l.unregister channelId).registered id = some arc) : l.registered id = some arc := by
  by_cases hid : id = channelId
  · subst hid
    simp [unregister] at h
  · exact (update_of_ne hid ..).symm.trans h

end Ledger

theorem getElem?_set_cases {arcs : List Channel} {arc arc' : ℕ} {ch' c : Channel}
    (h : (arcs.set arc ch')[arc']? = some c) :
    (arc' = arc ∧ c = ch') ∨ (arc' ≠ arc ∧ arcs[arc']? = some c) := by
  rw [getElem?_set] at h
  split_ifs at h with harc hlt
  · exact .inl ⟨harc.symm, (Option.some.inj h).symm⟩
  · exact .inr ⟨fun hne => harc hne.symm, h⟩

variable {arc : ℕ}

theorem getElem?_snoc_cases {arcs : List Channel} {ch c : Channel}
    (h : (arcs ++ [ch])[arc]? = some c) : (arc = arcs.length ∧ c = ch) ∨ arcs[arc]? = some c := by
  rcases Nat.lt_trichotomy arc arcs.length with hlt | rfl | hgt
  · rw [getElem?_append_left hlt] at h
    exact .inr h
  · rw [getElem?_concat_length] at h
    exact .inl ⟨rfl, (Option.some.inj h).symm⟩
  · rw [getElem?_eq_none (by simp; omega)] at h
    cases h

structure Packed.IsNext (f : Packed) (channel : Channel) : Prop where
  kSend : f.kSend = channel.kSend
  channelId : f.channelId = channel.channelId
  msgId : f.msgId = channel.msgIdSend

/-- One step of a call, on the ledger and on the call's stake. -/
inductive Effect (cfg : Config) (delivers : String → SessionKeys → Prop) (l : Ledger) :
    Stake → Ledger → Stake → Prop
  | look : Effect cfg delivers l .looking l .looking
  | giveUp : Effect cfg delivers l .looking l .absent
  | deliver {peerDid providerId : String} {keys : SessionKeys}
      (h : delivers providerId keys) (hstore : cfg.hasStore = true) :
      Effect cfg delivers l .looking l (.session peerDid providerId keys)
  | deliverFresh {peerDid providerId : String} {keys : SessionKeys}
      (h : delivers providerId keys) (hstore : cfg.hasStore = false) :
      Effect cfg delivers l .looking l (.pending
        (fromSessionKeys cfg.prims keys peerDid providerId keys.isInitiator))
  | build {peerDid providerId : String} {keys : SessionKeys} :
      Effect cfg delivers l (.session peerDid providerId keys) l
        (.pending (buildChannel cfg l.store peerDid providerId keys))
  | register {channel : Channel} :
      Effect cfg delivers l (.pending channel) (l.register channel) .looking
  | acquire {channelId : Bytes} {arc : ℕ} (h : l.registered channelId = some arc) :
      Effect cfg delivers l .looking l (.locking arc)
  | reserve {arc : ℕ} {channel : Channel} (h : l.arcs[arc]? = some channel)
      (hneeds : channel.sendReserved ≤ channel.msgIdSend) :
      Effect cfg delivers l (.locking arc) (l.reserve arc channel)
        (if cfg.hasStore then
          .saving arc (channel.reserveSend sendReservationBatch).sendReserved
        else .issuing arc)
  | ready {arc : ℕ} {channel : Channel} (h : l.arcs[arc]? = some channel)
      (hready : channel.msgIdSend < channel.sendReserved) :
      Effect cfg delivers l (.locking arc) l (.issuing arc)
  | save {arc ceiling : ℕ} {channel : Channel} (h : l.arcs[arc]? = some channel) :
      Effect cfg delivers l (.saving arc ceiling) (l.save channel.channelId ceiling) (.issuing arc)
  | waste {arc : ℕ} {channel : Channel} (h : l.arcs[arc]? = some channel) :
      Effect cfg delivers l (.issuing arc) (l.allocate arc channel) .absent
  | issue {arc : ℕ} {channel : Channel} {f : Packed} (h : l.arcs[arc]? = some channel)
      (hf : f.IsNext channel) :
      Effect cfg delivers l (.issuing arc) ((l.allocate arc channel).record f) .absent
  | unregister {channelId : Bytes} :
      Effect cfg delivers l .removing (l.unregister channelId) .removing
  | sweep : Effect cfg delivers l .removing l .removing
  | removed : Effect cfg delivers l .removing l .absent

variable {delivers : String → SessionKeys → Prop}

/-- No step turns a call that was not in flight into one that is. -/
theorem Effect.inFlight {cfg : Config} {l l' : Ledger} {st st' : Stake}
    (h : Effect cfg delivers l st l' st') (hst : st'.InFlight) : st.InFlight := by
  cases h <;> trivial

theorem Effect.removing {cfg : Config} {l l' : Ledger} {st st' : Stake}
    (h : Effect cfg delivers l st l' st') (hst : st' = .removing) : st = .removing := by
  cases h with
  | unregister | sweep | removed => rfl
  | reserve =>
    split at hst <;> cases hst
  | _ => cases hst

/-! ## Every step of the code is a step of the ledger -/

section

variable {cfg : Config} {delivers : String → SessionKeys → Prop} {w w' : World}
  {task task' : Task} {t : ℕ} {input : Input}

theorem Purpose.stake_missing (purpose : Purpose) (peerDid : String) :
    (purpose.missing cfg).stake peerDid = .looking := by
  unfold Purpose.missing
  split
  · rfl
  · split <;> rfl

theorem effect_found {channelId : Bytes} (purpose : Purpose)
    (h : w.channels.byChannelId channelId = some arc) :
    Effect cfg delivers w.ledger .looking w.ledger (purpose.found arc).stake := by
  cases purpose with
  | send applicationPayload => exact .acquire (l := w.ledger) h
  | ensure => exact .giveUp

theorem openNext_effect {purpose : Purpose} {peerDid : String} {pc : OpenPc}
    (hdelivers : ∀ providerId keys, pc = .establish providerId → input = .session (.ok keys) →
      delivers providerId keys)
    (h : openNext cfg w purpose peerDid pc input = some (w', task')) :
    Effect cfg delivers w.ledger (pc.stake peerDid) w'.ledger task'.stake := by
  have hmissing : (Task.opening purpose peerDid (purpose.missing cfg)).stake = .looking :=
    purpose.stake_missing peerDid
  unfold openNext at h
  split at h
  case h_1 =>
    split at h <;> cases h
    · rw [hmissing]
      exact .look
    · exact .look
  case h_2 =>
    split at h
    · cases h
      rw [hmissing]
      exact .look
    · next hfound =>
      cases h
      exact effect_found purpose hfound
  case h_3 =>
    cases h
    exact .look
  case h_4 =>
    split at h <;> cases h <;> exact .giveUp
  case h_5 =>
    split at h
    · next hstore =>
      cases h
      exact .deliver (hdelivers _ _ rfl rfl) hstore
    · next hstore =>
      cases h
      exact .deliverFresh (hdelivers _ _ rfl rfl) (by simpa using hstore)
  case h_6 =>
    cases h
    exact .build
  case h_7 =>
    cases h
    exact .register
  case h_8 =>
    cases h
    exact .look
  case h_9 =>
    split at h <;> cases h
    · exact .look
    · exact .giveUp
  case h_10 =>
    split at h <;> cases h
    · exact .giveUp
    · exact .look
  case h_11 =>
    split at h
    · cases h
      exact .giveUp
    · next hfound =>
      cases h
      exact effect_found purpose hfound
  case h_12 => cases h

theorem lockNext_effect (t : ℕ) (applicationPayload : Bytes) {channel : Channel}
    (hchannel : w.ledger.arcs[arc]? = some channel) :
    Effect cfg delivers w.ledger (.locking arc)
      (lockNext cfg w t applicationPayload arc channel).1.ledger
      (lockNext cfg w t applicationPayload arc channel).2.stake := by
  unfold lockNext
  split
  · next hneeds =>
    have hwindow : channel.sendReserved ≤ channel.msgIdSend := by
      simpa [needsSendReservation] using hneeds
    have heffect : Effect cfg delivers w.ledger (.locking arc) _ _ := .reserve hchannel hwindow
    cases hstore : cfg.hasStore <;> rw [hstore] at heffect <;> exact heffect
  · next hneeds =>
    exact .ready (l := w.ledger) hchannel (by simpa [needsSendReservation] using hneeds)

theorem issueNext_effect (applicationPayload : Bytes) {channel : Channel}
    (hchannel : w.ledger.arcs[arc]? = some channel) :
    Effect cfg delivers w.ledger (.issuing arc)
      (issueNext cfg w applicationPayload arc channel).1.ledger
      (issueNext cfg w applicationPayload arc channel).2.stake := by
  unfold issueNext
  dsimp only
  split
  · exact .waste (l := w.ledger) hchannel
  · split
    · exact .issue (l := w.ledger) hchannel ⟨rfl, rfl, rfl⟩
    · exact .issue (l := w.ledger) hchannel ⟨rfl, rfl, rfl⟩

theorem sendNext_effect {applicationPayload : Bytes} {pc : SendPc}
    (h : sendNext cfg w t applicationPayload arc pc = some (w', task')) :
    Effect cfg delivers w.ledger (pc.stake arc) w'.ledger task'.stake := by
  unfold sendNext at h
  split at h
  · cases h
  next channel hchannel =>
  cases pc with
  | lock =>
    split_ifs at h
    have heffect : Effect cfg delivers w.ledger (.locking arc) _ _ :=
      lockNext_effect t applicationPayload hchannel
    rw [Option.some.injEq] at h
    rwa [h] at heffect
  | save ceiling =>
    cases h
    exact .save (l := w.ledger) hchannel
  | issue =>
    have heffect : Effect cfg delivers w.ledger (.issuing arc) _ _ :=
      issueNext_effect applicationPayload hchannel
    simp only [Option.some.injEq] at h
    rwa [h] at heffect

theorem removeNext_effect {pc : RemovePc} (h : removeNext w t pc = some (w', task')) :
    Effect cfg delivers w.ledger .removing w'.ledger task'.stake := by
  cases pc with
  | unregister channelId =>
    simp only [removeNext] at h
    split at h <;> cases h
    · exact .removed
    · exact .unregister (l := w.ledger)
  | lock arc | peer arc =>
    simp only [removeNext] at h
    split at h <;> cases h
    exact .sweep
  | routing arc =>
    simp only [removeNext] at h
    split at h <;> cases h
    exact .removed

/-- **The code refines the ledger.**  Every step of a call is a step of the ledger. -/
theorem Task.next_effect
    (hdelivers : ∀ purpose peerDid providerId keys,
      task = .opening purpose peerDid (.establish providerId) → input = .session (.ok keys) →
      delivers providerId keys)
    (h : task.next cfg w t input = some (w', task')) :
    Effect cfg delivers w.ledger task.stake w'.ledger task'.stake := by
  cases task with
  | opening purpose peerDid pc =>
    refine openNext_effect (fun providerId keys hpc hinput => ?_) h
    exact hdelivers purpose peerDid providerId keys (by rw [hpc]) hinput
  | sending applicationPayload arc pc =>
    simp only [Task.next] at h
    split at h
    · exact sendNext_effect h
    · cases h
  | removing pc =>
    simp only [Task.next] at h
    split at h
    · exact removeNext_effect h
    · cases h
  | returned result => cases h

end

/-! ## Where keys come from -/

/-- The sessions providers deliver. A key that seals outbound frames belongs to one
provider, one connection and one generation of it; a provider that derives its keys from
the connection delivers the same one again after a restart. -/
structure SessionSource (prims : Primitives) where
  delivers : String → SessionKeys → Prop
  named : ∀ {providerId providerId' : String} {keys keys' : SessionKeys},
    delivers providerId keys → delivers providerId' keys' → keys.kSend prims = keys'.kSend prims →
    providerId = providerId' ∧ keys.connectionId = keys'.connectionId ∧
      keys.generation = keys'.generation

/-- The session is one the source delivers, if the call is waiting for a provider. -/
def SessionSource.Answers {prims : Primitives} (source : SessionSource prims)
    (keys : SessionKeys) : Option Task → Prop
  | some (.opening _ _ (.establish providerId)) => source.delivers providerId keys
  | _ => True

/-- The provider's answer in this step, if there is one, is a session of the source. -/
def SessionSource.Allows {prims : Primitives} (source : SessionSource prims) (s : Sys) :
    Action → Prop
  | .run t (.session (.ok keys)) => source.Answers keys (s.tasks t)
  | _ => True

section

variable {cfg : Config} {source : SessionSource cfg.prims}

def SessionSource.Names {prims : Primitives} (source : SessionSource prims)
    (kSend channelId : Bytes) : Prop :=
  ∃ providerId keys, source.delivers providerId keys ∧ kSend = keys.kSend prims ∧
    channelId = deriveChannelId prims providerId keys.connectionId keys.generation

theorem SessionSource.Names.channelId_eq {kSend channelId channelId' : Bytes}
    (h : source.Names kSend channelId) (h' : source.Names kSend channelId') :
    channelId = channelId' := by
  obtain ⟨p, keys, hdel, hk, rfl⟩ := h
  obtain ⟨p', keys', hdel', hk', rfl⟩ := h'
  obtain ⟨rfl, hconn, hgen⟩ := source.named hdel hdel' (hk.symm.trans hk')
  rw [hconn, hgen]

theorem names_fromSessionKeys {providerId peerDid : String} {keys : SessionKeys}
    (h : source.delivers providerId keys) :
    source.Names (fromSessionKeys cfg.prims keys peerDid providerId keys.isInitiator).kSend
      (fromSessionKeys cfg.prims keys peerDid providerId keys.isInitiator).channelId :=
  ⟨providerId, keys, h, rfl, rfl⟩

theorem names_buildChannel {providerId peerDid : String} {keys : SessionKeys}
    (store : CounterStore) (h : source.delivers providerId keys) :
    source.Names (buildChannel cfg store peerDid providerId keys).kSend
      (buildChannel cfg store peerDid providerId keys).channelId := by
  unfold buildChannel
  split
  · exact ⟨providerId, keys, h, rfl, rfl⟩
  · exact names_fromSessionKeys h

def Stake.Sourced (source : SessionSource cfg.prims) : Stake → Prop
  | .session _ providerId keys => source.delivers providerId keys
  | .pending channel => source.Names channel.kSend channel.channelId
  | _ => True

/-- Every channel and every packed frame comes from a delivered session. -/
structure Sourced (source : SessionSource cfg.prims) (l : Ledger) (stake : ℕ → Stake) : Prop where
  arcs : ∀ channel ∈ l.arcs, source.Names channel.kSend channel.channelId
  packed : ∀ f ∈ l.packed, source.Names f.kSend f.channelId
  stakes : ∀ t, (stake t).Sourced source

theorem Sourced.effect {l l' : Ledger} {stake : ℕ → Stake} {t : ℕ} {st' : Stake}
    (h : Sourced source l stake) (heffect : Effect cfg source.delivers l (stake t) l' st') :
    Sourced source l' (update stake t st') := by
  have hset : ∀ {arc : ℕ} {ch : Channel} (ch' : Channel), l.arcs[arc]? = some ch →
      ch'.kSend = ch.kSend → ch'.channelId = ch.channelId →
      ∀ c ∈ l.arcs.set arc ch', source.Names c.kSend c.channelId := by
    intro arc ch ch' hget hk hid c hc
    rcases mem_or_eq_of_mem_set hc with hmem | rfl
    · exact h.arcs c hmem
    · rw [hk, hid]
      exact h.arcs ch (mem_of_getElem? hget)
  have hstake : st'.Sourced source → ∀ t', (update stake t st' t').Sourced source :=
    fun hst => (forall_update_iff stake _).mpr ⟨hst, fun t' _ => h.stakes t'⟩
  have hold := h.stakes t
  generalize stake t = st at heffect hold
  cases heffect with
  | look | giveUp => exact ⟨h.arcs, h.packed, hstake trivial⟩
  | deliver hdel _ => exact ⟨h.arcs, h.packed, hstake hdel⟩
  | deliverFresh hdel _ => exact ⟨h.arcs, h.packed, hstake (names_fromSessionKeys hdel)⟩
  | build => exact ⟨h.arcs, h.packed, hstake (names_buildChannel l.store hold)⟩
  | register =>
    refine ⟨fun c hc => ?_, h.packed, hstake trivial⟩
    rcases mem_append.mp hc with hc | hc
    · exact h.arcs c hc
    · rw [mem_singleton] at hc
      subst hc
      exact hold
  | unregister | sweep | removed | acquire _ => exact ⟨h.arcs, h.packed, hstake trivial⟩
  | reserve hget _ =>
    refine ⟨hset _ hget (reserveSend_kSend _ _) (reserveSend_channelId _ _), h.packed, hstake ?_⟩
    split <;> trivial
  | ready _ _ | save _ => exact ⟨h.arcs, h.packed, hstake trivial⟩
  | waste hget =>
    exact ⟨hset _ hget (nextSendMsgId_kSend _) (nextSendMsgId_channelId _),
      h.packed, hstake trivial⟩
  | issue hget hf =>
    refine ⟨hset _ hget (nextSendMsgId_kSend _) (nextSendMsgId_channelId _),
      fun g hg => ?_, hstake trivial⟩
    rcases mem_append.mp hg with hg | hg
    · exact h.packed g hg
    · rw [mem_singleton] at hg
      subst hg
      rw [hf.kSend, hf.channelId]
      exact h.arcs _ (mem_of_getElem? hget)

/-! ## Runs on the ledger -/

theorem stake_update (s : Sys) (world : World) (t : ℕ) (task : Task) :
    stake ⟨world, update s.tasks t (some task)⟩ = update s.stake t task.stake := by
  funext t'
  by_cases ht : t' = t
  · subst ht
    simp [stake]
  · simp [stake, update_of_ne ht]

theorem Sys.step_cases {s s' : Sys} {a : Action} (hallows : source.Allows s a)
    (h : s.step cfg a = some s') :
    (∃ t c, a = .call t c ∧ s.stake t = .absent ∧ s'.world.ledger = s.world.ledger ∧
      s'.stake = update s.stake t c.start.stake) ∨
    (∃ t input st', a = .run t input ∧
      Effect cfg source.delivers s.world.ledger (s.stake t) s'.world.ledger st' ∧
      s'.stake = update s.stake t st') ∨
    (a = .crash ∧ s'.world.ledger = s.world.ledger.restart ∧ s'.stake = fun _ => .absent) ∨
    (s'.world.ledger = s.world.ledger ∧ s'.stake = s.stake) := by
  cases a with
  | call t c =>
    simp only [step] at h
    split at h
    · cases h
    · next hnone =>
      cases h
      refine .inl ⟨t, c, rfl, ?_, rfl, stake_update s s.world t c.start⟩
      simp [stake, hnone]
  | run t input =>
    simp only [step] at h
    split at h
    · cases h
    next task htask =>
    split at h
    · cases h
    next world task' hnext =>
    cases h
    refine .inr (.inl ⟨t, input, task'.stake, rfl, ?_, stake_update s world t task'⟩)
    have hstake : s.stake t = task.stake := by simp [stake, htask]
    rw [hstake]
    refine Task.next_effect ?_ hnext
    rintro purpose peerDid providerId keys rfl rfl
    simpa only [SessionSource.Allows, SessionSource.Answers, htask] using hallows
  | closeWs =>
    cases h
    exact .inr (.inr (.inr ⟨rfl, rfl⟩))
  | crash =>
    cases h
    exact .inr (.inr (.inl ⟨rfl, rfl, rfl⟩))

theorem Sourced.init (store : CounterStore) :
    Sourced source (Sys.init store).world.ledger (Sys.init store).stake where
  arcs := by simp [Sys.init, World.init, World.ledger, ChannelManager.new]
  packed := by simp [Sys.init, World.init, World.ledger]
  stakes _ := trivial

theorem Sourced.step {s s' : Sys} {a : Action} (hsourced : Sourced source s.world.ledger s.stake)
    (hallows : source.Allows s a) (h : s.step cfg a = some s') :
    Sourced source s'.world.ledger s'.stake := by
  rcases step_cases hallows h with
    ⟨t, c, -, -, hledger, hstake⟩ | ⟨t, input, st', -, heffect, hstake⟩ | ⟨-, hledger, hstake⟩ |
    ⟨hledger, hstake⟩
  · rw [hledger, hstake]
    refine ⟨hsourced.arcs, hsourced.packed, ?_⟩
    refine (forall_update_iff s.stake _).mpr ⟨?_, fun t' _ => hsourced.stakes t'⟩
    cases c <;> trivial
  · rw [hstake]
    exact hsourced.effect heffect
  · rw [hledger, hstake]
    exact ⟨by simp [Ledger.restart], hsourced.packed, fun _ => trivial⟩
  · rwa [hledger, hstake]

end

end Idiom.Dcx
