import Idiom.Dcx.Ledger

/-!
# Concurrent channel creation

Two first sends to one peer can both find no channel, both build one and register it
under the same `channel_id`; `ChannelManager::insert` replaces the first. The two arcs
have their own counters and the same key.
-/

namespace Idiom.Dcx

open ChannelManager Sys List Channel SessionSource Run Purpose

/-- No two of the frames share a sealing key and a message id. -/
def DistinctNonces (frames : List Packed) : Prop :=
  frames.Pairwise fun f g => f.kSend = g.kSend → f.msgId ≠ g.msgId

theorem distinctNonces_iff {frames : List Packed} :
    DistinctNonces frames ↔ (frames.map fun f => (f.kSend, f.msgId)).Pairwise
      fun p q => p.1 = q.1 → p.2 ≠ q.2 := by
  rw [pairwise_map]
  rfl

/-- Calls of `send_to_peer` and `ensure_channel` in one process: nothing is removed and
the process does not crash. -/
def OneProcess : Action → Prop
  | .call _ (.remove _) | .crash => False
  | _ => True

/-- If the step registers a channel, its id is not registered yet. -/
def FreeInsert (s : Sys) : Action → Prop
  | .run t _ =>
    match s.tasks t with
    | some (.opening _ _ (.insertChannel channel)) =>
      s.world.channels.byChannelId channel.channelId = none
    | _ => True
  | _ => True

/-- If the step allocates an id, the counter has not reached `u64::MAX`. -/
def CounterLeft (s : Sys) : Action → Prop
  | .run t _ =>
    match s.tasks t with
    | some (.sending _ arc .issue) =>
      match s.world.channels.arcs[arc]? with
      | some channel => channel.msgIdSend < u64Max
      | none => True
    | _ => True
  | _ => True

/-! ## From stakes back to calls -/

theorem Sys.tasks_of_pending {s : Sys} {t : ℕ} {channel : Channel}
    (h : s.stake t = .pending channel) :
    ∃ purpose peerDid, s.tasks t = some (.opening purpose peerDid (.insertChannel channel)) := by
  unfold stake at h
  cases htask : s.tasks t with
  | none => simp [htask] at h
  | some task =>
    rw [htask] at h
    cases task with
    | opening purpose peerDid pc =>
      cases pc <;> simp [Task.stake, OpenPc.stake] at h
      subst h
      exact ⟨purpose, peerDid, rfl⟩
    | sending applicationPayload arc pc => cases pc <;> simp [Task.stake, SendPc.stake] at h
    | removing pc | returned result => simp [Task.stake] at h

theorem Sys.tasks_of_issuing {s : Sys} {t arc : ℕ} (h : s.stake t = .issuing arc) :
    ∃ applicationPayload, s.tasks t = some (.sending applicationPayload arc .issue) := by
  unfold stake at h
  cases htask : s.tasks t with
  | none => simp [htask] at h
  | some task =>
    rw [htask] at h
    cases task with
    | opening purpose peerDid pc => cases pc <;> simp [Task.stake, OpenPc.stake] at h
    | sending applicationPayload arc' pc =>
      cases pc <;> simp [Task.stake, SendPc.stake] at h
      subst h
      exact ⟨applicationPayload, rfl⟩
    | removing pc | returned result => simp [Task.stake] at h

/-! ## One counter per channel id -/

structure OneCounter (l : Ledger) : Prop where
  registered : ∀ (arc : ℕ) (channel : Channel), l.arcs[arc]? = some channel →
    l.registered channel.channelId = some arc
  packed_registered : ∀ f ∈ l.packed, l.registered f.channelId ≠ none
  ahead : ∀ (arc : ℕ) (channel : Channel), l.arcs[arc]? = some channel →
    ∀ f ∈ l.packed, f.channelId = channel.channelId → f.msgId < channel.msgIdSend
  distinct : DistinctNonces l.packed

theorem OneCounter.init (store : CounterStore) : OneCounter (Sys.init store).world.ledger where
  registered := by simp [Sys.init, World.init, World.ledger, new]
  packed_registered := by simp [Sys.init, World.init, World.ledger]
  ahead := by simp [Sys.init, World.init, World.ledger]
  distinct := Pairwise.nil

theorem OneCounter.set {l l' : Ledger} (h : OneCounter l) {arc : ℕ} {ch ch' : Channel}
    (hget : l.arcs[arc]? = some ch) (hid : ch'.channelId = ch.channelId)
    (hle : ch.msgIdSend ≤ ch'.msgIdSend) (hreg : l'.registered = l.registered)
    (harcs : l'.arcs = l.arcs.set arc ch') (hpacked : l'.packed = l.packed) : OneCounter l' where
  registered arc' c hc := by
    rw [harcs] at hc
    rw [hreg]
    rcases getElem?_set_cases hc with ⟨rfl, rfl⟩ | ⟨-, hc⟩
    · rw [hid]
      exact h.registered _ ch hget
    · exact h.registered arc' c hc
  packed_registered := by
    rw [hpacked, hreg]
    exact h.packed_registered
  ahead arc' c hc f hf hfc := by
    rw [harcs] at hc
    rw [hpacked] at hf
    rcases getElem?_set_cases hc with ⟨rfl, rfl⟩ | ⟨-, hc⟩
    · exact Nat.lt_of_lt_of_le (h.ahead _ ch hget f hf (hfc.trans hid)) hle
    · exact h.ahead arc' c hc f hf hfc
  distinct := by
    rw [hpacked]
    exact h.distinct

theorem OneCounter.register {l : Ledger} (h : OneCounter l) {ch : Channel}
    (hfree : l.registered ch.channelId = none) : OneCounter (l.register ch) where
  registered arc c hc := by
    rcases getElem?_snoc_cases hc with ⟨rfl, rfl⟩ | hc
    · exact l.register_self c
    · have hreg := h.registered arc c hc
      have hne : c.channelId ≠ ch.channelId := by
        intro heq
        rw [heq, hfree] at hreg
        cases hreg
      exact (l.register_of_ne hne).trans hreg
  packed_registered f hf := by
    have hreg := h.packed_registered f hf
    have hne : f.channelId ≠ ch.channelId := fun heq => hreg (by rw [heq, hfree])
    exact fun hnone => hreg ((l.register_of_ne hne).symm.trans hnone)
  ahead arc c hc f hf hfc := by
    rcases getElem?_snoc_cases hc with ⟨rfl, rfl⟩ | hc
    · -- the id was free, so nothing was packed under it
      exact absurd (hfc ▸ hfree) (h.packed_registered f hf)
    · exact h.ahead arc c hc f hf hfc
  distinct := h.distinct

section

variable {cfg : Config} {source : SessionSource cfg.prims}

theorem OneCounter.issue {l : Ledger} {stake : ℕ → Stake} (h : OneCounter l)
    (hsourced : Sourced source l stake) {arc : ℕ} {ch : Channel} {f : Packed}
    (hget : l.arcs[arc]? = some ch) (hf : f.IsNext ch) (hleft : ch.msgIdSend < u64Max) :
    OneCounter ((l.allocate arc ch).record f) := by
  have hnext : ch.nextSendMsgId.2.msgIdSend = ch.msgIdSend + 1 := by
    rw [nextSendMsgId_msgIdSend]
    omega
  have hallocated : OneCounter (l.allocate arc ch) :=
    h.set hget (nextSendMsgId_channelId ch) (by omega) rfl rfl rfl
  have hreg : l.registered f.channelId = some arc := by
    rw [hf.channelId]
    exact h.registered arc ch hget
  refine ⟨hallocated.registered, ?_, ?_, ?_⟩
  · intro g hg
    rcases mem_append.mp hg with hg | hg
    · exact hallocated.packed_registered g hg
    · rw [mem_singleton] at hg
      subst hg
      show l.registered g.channelId ≠ none
      rw [hreg]
      exact Option.some_ne_none arc
  · intro arc' c hc g hg hgc
    rcases mem_append.mp hg with hg | hg
    · exact hallocated.ahead arc' c hc g hg hgc
    · rw [mem_singleton] at hg
      subst hg
      rcases getElem?_set_cases hc with ⟨rfl, rfl⟩ | ⟨hne, hc⟩
      · rw [hf.msgId]
        omega
      · -- another arc is registered under another id
        have hreg' := h.registered arc' c hc
        rw [← hgc, hreg] at hreg'
        exact absurd (Option.some.inj hreg').symm hne
  · refine pairwise_append.mpr ⟨h.distinct, pairwise_singleton _ _, ?_⟩
    intro g hg g' hg' hkey
    rw [mem_singleton] at hg'
    subst hg'
    have hch : source.Names g.kSend ch.channelId := by
      rw [hkey, hf.kSend]
      exact hsourced.arcs ch (mem_of_getElem? hget)
    have hsame : g.channelId = ch.channelId := (hsourced.packed g hg).channelId_eq hch
    have hlt := h.ahead arc ch hget g hg hsame
    rw [hf.msgId]
    omega

theorem OneCounter.effect {l l' : Ledger} {stake : ℕ → Stake} {t : ℕ} {st' : Stake}
    (h : OneCounter l) (hsourced : Sourced source l stake)
    (heffect : Effect cfg source.delivers l (stake t) l' st') (hpresent : stake t ≠ .removing)
    (hfree : ∀ channel, stake t = .pending channel → l.registered channel.channelId = none)
    (hleft : ∀ arc channel, stake t = .issuing arc → l.arcs[arc]? = some channel →
      channel.msgIdSend < u64Max) :
    OneCounter l' := by
  generalize hst : stake t = st at heffect
  cases heffect with
  | look | giveUp | deliver | deliverFresh | build | acquire | ready => exact h
  | register => exact h.register (hfree _ hst)
  | reserve hget _ =>
    exact h.set hget (reserveSend_channelId _ _) (Nat.le_of_eq (by simp)) rfl rfl rfl
  | save _ => exact ⟨h.registered, h.packed_registered, h.ahead, h.distinct⟩
  | waste hget =>
    have hlt := hleft _ _ hst hget
    refine h.set hget (nextSendMsgId_channelId _) ?_ rfl rfl rfl
    rw [nextSendMsgId_msgIdSend]
    omega
  | issue hget hf => exact h.issue hsourced hget hf (hleft _ _ hst hget)
  | unregister | sweep | removed => exact absurd hst hpresent

/-! ## Runs -/

/-- What holds along a run without removal, crash, replacing insert or used-up counter. -/
structure RaceFree (source : SessionSource cfg.prims) (s : Sys) : Prop where
  counter : OneCounter s.world.ledger
  sourced : Sourced source s.world.ledger s.stake
  present : ∀ t, s.stake t ≠ .removing

theorem RaceFree.step {s s' : Sys} {a : Action} (h : RaceFree source s)
    (hallows : source.Allows s a) (hone : OneProcess a) (hfree : FreeInsert s a)
    (hleft : CounterLeft s a) (hstep : s.step cfg a = some s') : RaceFree source s' := by
  refine ⟨?_, h.sourced.step hallows hstep, ?_⟩
  · rcases step_cases hallows hstep with
      ⟨t, c, -, -, hledger, -⟩ | ⟨t, input, st', rfl, heffect, -⟩ | ⟨rfl, -⟩ | ⟨hledger, -⟩
    · rw [hledger]
      exact h.counter
    · refine h.counter.effect h.sourced heffect (h.present t) ?_ ?_
      · intro channel hst
        obtain ⟨purpose, peerDid, htask⟩ := tasks_of_pending hst
        show s.world.channels.byChannelId channel.channelId = none
        simpa only [FreeInsert, htask] using hfree
      · intro arc channel hst hget
        obtain ⟨applicationPayload, htask⟩ := tasks_of_issuing hst
        have hget' : s.world.channels.arcs[arc]? = some channel := hget
        simpa only [CounterLeft, htask, hget'] using hleft
    · cases hone
    · rw [hledger]
      exact h.counter
  · rcases step_cases hallows hstep with
      ⟨t, c, rfl, -, -, hstake⟩ | ⟨t, input, st', -, heffect, hstake⟩ | ⟨rfl, -⟩ | ⟨-, hstake⟩
    · rw [hstake]
      refine (Function.forall_update_iff s.stake fun _ st => st ≠ .removing).mpr
        ⟨?_, fun t' _ => h.present t'⟩
      cases c with
      | remove channelId => cases hone
      | sendToPeer | ensureChannel => simp [Call.start, Task.stake, OpenPc.stake]
    · rw [hstake]
      refine (Function.forall_update_iff s.stake fun _ st => st ≠ .removing).mpr
        ⟨?_, fun t' _ => h.present t'⟩
      exact fun hst => h.present t (heffect.removing hst)
    · cases hone
    · rw [hstake]
      exact h.present

/-- **No nonce repeats as long as no registered channel is replaced.**  In every run of
`send_to_peer` and `ensure_channel` calls in one process, with or without a counter
store, in which no insert finds its channel id registered and no id is allocated from a
counter at `u64::MAX`: in every state reached, the frames on the wire under one key have
distinct message ids. -/
theorem distinct_nonces_of_freeInsert (source : SessionSource cfg.prims) {store : CounterStore}
    {run : List Action} {s : Sys} (hvisits : Visits (step cfg) (init store) run s)
    (hprocess : Along (step cfg) (fun _ a => OneProcess a) (init store) run)
    (hsource : Along (step cfg) source.Allows (init store) run)
    (hcond : Along (step cfg) (fun s a => FreeInsert s a ∧ CounterLeft s a) (init store) run) :
    DistinctNonces s.world.wire := by
  have hinv : RaceFree source s ∧ s.world.wire.Sublist s.world.packed := by
    have hinit : RaceFree source (init store) :=
      ⟨.init store, .init store, fun t => by simp [stake, init]⟩
    refine hvisits.invariant_along (P := fun s => RaceFree source s ∧
      s.world.wire.Sublist s.world.packed) ?_ ⟨hinit, Sublist.refl _⟩
      ((hprocess.and hsource).and hcond)
    rintro s a s' ⟨hfree, hwire⟩ ⟨⟨hone, hallows⟩, hinsert, hleft⟩ hstep
    exact ⟨hfree.step hallows hone hinsert hleft hstep, step_wire hwire hstep⟩
  exact hinv.1.counter.distinct.sublist hinv.2

end

/-! ## Two first sends -/

def Primitives.AppendsTag (prims : Primitives) : Prop :=
  ∀ key nonce aad plaintext, ∃ ct, prims.aeadSeal key nonce aad plaintext = some ct ∧
    ct.length = plaintext.length + 16

/-- Digests and keys of 32 bytes, and a seal that appends sixteen zeros. -/
def Sample.tagging : Primitives where
  sha256 bytes := (bytes ++ replicate 32 0).take 32
  hkdf ikm info := (info ++ ikm).take 32
  aeadSeal _ _ _ plaintext := some (plaintext ++ replicate 16 0)

theorem Sample.appendsTag : Sample.tagging.AppendsTag :=
  fun _ _ _ plaintext => ⟨plaintext ++ replicate 16 0, rfl, by simp⟩

variable {prims : Primitives}

theorem Primitives.AppendsTag.encode_empty (h : prims.AppendsTag) (ch : Channel) (msgId : ℕ)
    (kSend : Bytes) : ∃ bytes, (dataFrame ch msgId []).encode prims kSend = .ok bytes := by
  have hbody : encodeBody (dataFrame ch msgId []).body =
      .ok (toBeBytes 2 0 ++ toBeBytes 2 54 ++ replicate 54 0) := rfl
  obtain ⟨ct, hct, hlen⟩ := h kSend (nonceForMsgId msgId) (dataFrame ch msgId []).header.encodeAad
    (toBeBytes 2 0 ++ toBeBytes 2 54 ++ replicate 54 0)
  have hsmall : headerLen + nonceLen + ct.length ≤ maxFrameSize := by
    rw [hlen]
    decide
  have hseal : prims.aeadSeal kSend (nonceForMsgId (dataFrame ch msgId []).header.msgId)
      (dataFrame ch msgId []).header.encodeAad
      (toBeBytes 2 0 ++ toBeBytes 2 54 ++ replicate 54 0) = some ct := hct
  simp only [Frame.encode, pack, hbody, hseal, if_neg (Nat.not_lt.mpr hsmall)]
  exact ⟨_, rfl⟩

def bobSession : SessionKeys where
  kek := replicate 32 3
  authKey := replicate 32 4
  generation := 0
  peerKid := "did:peer:bob#key-1"
  connectionId := "conn-1"
  isInitiator := true

/-- A runtime with the classical provider alone. -/
def classicalConfig (prims : Primitives) (hasStore : Bool) : Config :=
  ⟨prims, hasStore, "classical-x25519/1.0", "classical-x25519/1.0", none⟩

/-- The classical provider has the same session for the peer every time. -/
def bobSource (prims : Primitives) : SessionSource prims where
  delivers providerId keys := providerId = "classical-x25519/1.0" ∧ keys = bobSession
  named := by
    rintro p p' keys keys' ⟨rfl, rfl⟩ ⟨rfl, rfl⟩ -
    exact ⟨rfl, rfl, rfl⟩

/-- Both sends look the peer up before either has registered a channel. -/
def racingSends (hasStore : Bool) : List Action :=
  let send (t : ℕ) : Action := .call t (.sendToPeer "did:bob" [])
  let next (t n : ℕ) : List Action := replicate n (.run t .none)
  let establish (t : ℕ) : Action := .run t (.session (.ok bobSession))
  let load (t : ℕ) : List Action := if hasStore then next t 1 else []
  let rest (t : ℕ) : List Action := next t (if hasStore then 8 else 7)
  [send 0, send 1] ++ next 0 1 ++ next 1 1 ++ [establish 0, establish 1] ++ load 0 ++ load 1 ++
    rest 0 ++ rest 1

/-- The second send looks the peer up after the first has registered its channel. -/
def orderedSends : List Action :=
  [.call 0 (.sendToPeer "did:bob" []), .run 0 .none, .run 0 (.session (.ok bobSession))] ++
    replicate 9 (.run 0 .none) ++ [.call 1 (.sendToPeer "did:bob" [])] ++
    replicate 4 (.run 1 .none)

attribute [local simp] exec guarded init World.init step OneProcess bobSource classicalConfig Allows
  Answers Call.start Task.next openNext missing found fromSessionKeys new insertChannel insertPeer
  insertPrefix sendNext lockNext issueNext needsSendReservation lock write unlock

theorem exec_racingSends (htag : prims.AppendsTag) (hasStore : Bool) :
    ∃ s, exec (guarded (step (classicalConfig prims hasStore))
          fun s a => OneProcess a ∧ (bobSource prims).Allows s a)
        (init fun _ => none) (racingSends hasStore) = some s ∧
      s.world.wire.map (fun f => (f.kSend, f.msgId)) =
        [(bobSession.kSend prims, 0), (bobSession.kSend prims, 0)] := by
  choose bytes hbytes using htag.encode_empty
  -- what is left of each run is the key and the id of its frame
  cases hasStore with
  | false =>
    simp [racingSends, hbytes]
    exact ⟨rfl, rfl⟩
  | true =>
    simp [racingSends, buildChannel, hbytes]
    exact ⟨rfl, rfl⟩

def SendsRepeatNonce (hasStore : Bool) (run : List Action) : Prop :=
  Along (step (classicalConfig Sample.tagging hasStore)) (fun _ a => OneProcess a)
      (init fun _ => none) run ∧
    Along (step (classicalConfig Sample.tagging hasStore)) (bobSource Sample.tagging).Allows
      (init fun _ => none) run ∧
    ∃ s, exec (step (classicalConfig Sample.tagging hasStore)) (init fun _ => none) run = some s ∧
      ¬ DistinctNonces s.world.wire

/-- Two concurrent first sends put two frames with `msg_id` 0 under one key on the wire,
with a counter store and without one. -/
theorem racing_sends_repeat_nonce :
    SendsRepeatNonce true (racingSends true) ∧ SendsRepeatNonce false (racingSends false) := by
  have hrepeats : ∀ hasStore, SendsRepeatNonce hasStore (racingSends hasStore) := by
    intro hasStore
    obtain ⟨s, hexec, hwire⟩ := exec_racingSends Sample.appendsTag hasStore
    obtain ⟨hexec, halong⟩ := exec_guarded_eq_some.mp hexec
    refine ⟨halong.imp fun _ _ h => h.1, halong.imp fun _ _ h => h.2, s, hexec, ?_⟩
    rw [distinctNonces_iff, hwire]
    simp
  exact ⟨hrepeats true, hrepeats false⟩

theorem exec_orderedSends (htag : prims.AppendsTag) :
    ∃ s, exec (guarded (step (classicalConfig prims true))
          fun s a => (OneProcess a ∧ (bobSource prims).Allows s a) ∧ FreeInsert s a ∧
            CounterLeft s a)
        (init fun _ => none) orderedSends = some s ∧ s.world.wire.length = 2 := by
  choose bytes hbytes using htag.encode_empty
  simp [orderedSends, FreeInsert, CounterLeft, buildChannel, reserveSend, saturatingAdd, hbytes,
    sendReservationBatch, u64Max]

/-- A second send that comes after the registration uses the registered counter. -/
theorem ordered_sends_distinct :
    ∃ s, exec (step (classicalConfig Sample.tagging true)) (init fun _ => none) orderedSends =
      some s ∧ s.world.wire.length = 2 ∧ DistinctNonces s.world.wire := by
  obtain ⟨s, hexec, hlength⟩ := exec_orderedSends Sample.appendsTag
  obtain ⟨hexec, halong⟩ := exec_guarded_eq_some.mp hexec
  exact ⟨s, hexec, hlength, distinct_nonces_of_freeInsert (bobSource _) (.of_exec hexec)
    (halong.imp fun _ _ h => h.1.1) (halong.imp fun _ _ h => h.1.2) (halong.imp fun _ _ h => h.2)⟩

end Idiom.Dcx
