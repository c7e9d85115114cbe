import Idiom.Dcx.NonceRace

/-!
# Nonces across crashes and restarts

With a counter store, a send persists a ceiling before it issues an id below it, and a
rebuilt channel starts at the ceiling. So whatever was packed under a channel id is
below what is persisted for it, and a crash loses only ids nobody has used.
-/

namespace Idiom.Dcx

open List ChannelManager Sys Run Function Channel SessionSource

/-- `send_to_peer` and `ensure_channel` calls come one after another. -/
def OneAfterAnother (s : Sys) : Action → Prop
  | .call _ (.sendToPeer _ _) | .call _ (.ensureChannel _) => ∀ t, ¬ (s.stake t).InFlight
  | _ => True

/-! ## The invariant -/

/-- The counters of a channel are past everything packed under its id. -/
def Past (l : Ledger) (ch : Channel) : Prop :=
  ∀ f ∈ l.packed, f.channelId = ch.channelId → f.msgId < ch.msgIdSend ∨ f.msgId = u64Max

def Persisted (l : Ledger) (ch : Channel) : Prop :=
  ∃ p, l.store ch.channelId = some p ∧ ch.sendReserved ≤ p.sendReserved

/-- Sending on from the counters of the channel is safe. -/
structure Live (l : Ledger) (ch : Channel) : Prop where
  past : Past l ch
  send_le_max : ch.msgIdSend ≤ u64Max
  send_le : ch.msgIdSend ≤ l.reserved
  reserved_le : ch.sendReserved ≤ l.reserved
  window : ch.msgIdSend < ch.sendReserved → Persisted l ch

structure Reserved (l : Ledger) (ch : Channel) : Prop where
  past : Past l ch
  send_le_max : ch.msgIdSend ≤ u64Max
  send_lt : ch.msgIdSend < l.reserved
  reserved_le : ch.sendReserved ≤ l.reserved
  reserved_le_max : ch.sendReserved ≤ u64Max
  send_le_reserved : ch.msgIdSend ≤ ch.sendReserved
  inside : ch.msgIdSend < ch.sendReserved ∨ ch.msgIdSend = u64Max

structure Holds (l : Ledger) (arc : ℕ) (ch : Channel) : Prop where
  get : l.arcs[arc]? = some ch
  sole : ∀ arc', l.registered ch.channelId = some arc' → arc' = arc

/-- What the call in flight may rely on. -/
def Stake.Ok (l : Ledger) : Stake → Prop
  | .absent | .removing | .looking | .session _ _ _ => True
  | .pending ch => Live l ch
  | .locking arc => ∃ ch, Holds l arc ch ∧ Live l ch
  | .saving arc ceiling => ∃ ch, Holds l arc ch ∧ Reserved l ch ∧ ceiling = ch.sendReserved
  | .issuing arc => ∃ ch, Holds l arc ch ∧ Reserved l ch ∧ Persisted l ch

/-- The window of the arc is being saved. -/
def Stake.Saving (arc : ℕ) : Stake → Prop
  | .saving arc' _ => arc' = arc
  | _ => False

/-- The invariant of a ledger and the stake of the one call in flight. -/
structure Safe (l : Ledger) (st : Stake) : Prop where
  ceiling : ∀ channelId p, l.store channelId = some p →
    p.sendReserved ≤ u64Max ∧ p.sendReserved ≤ l.reserved
  saved : ∀ f ∈ l.packed, ∃ p, l.store f.channelId = some p ∧
    (f.msgId < p.sendReserved ∨ f.msgId = u64Max)
  counted : ∀ f ∈ l.packed, f.msgId < l.reserved
  registered : ∀ channelId arc, l.registered channelId = some arc →
    ∃ ch, l.arcs[arc]? = some ch ∧ ch.channelId = channelId ∧ (st.Saving arc ∨ Live l ch)
  stake : st.Ok l
  repeats : l.packed.Pairwise fun f g =>
    f.kSend = g.kSend → f.msgId = g.msgId → f.msgId = u64Max

/-! ## Steps of the ledger -/

section

variable {cfg : Config} {source : SessionSource cfg.prims} {l : Ledger}

variable {st : Stake}

theorem Safe.live_build (h : Safe l st) (peerDid providerId : String) (keys : SessionKeys) :
    Live l (buildChannel cfg l.store peerDid providerId keys) := by
  unfold buildChannel
  split
  · next p hp =>
    obtain ⟨hmax, hle⟩ := h.ceiling _ p hp
    refine ⟨fun f hf hid => ?_, hmax, hle, hle, fun hlt => absurd hlt (Nat.lt_irrefl _)⟩
    obtain ⟨p', hp', hlt⟩ := h.saved f hf
    rw [hid] at hp'
    obtain rfl : p = p' := Option.some.inj (hp.symm.trans hp')
    exact hlt
  · next hnone =>
    -- nothing is persisted, so nothing was packed
    refine ⟨fun f hf hid => ?_, Nat.zero_le _, Nat.zero_le _, Nat.zero_le _,
      fun hlt => absurd hlt (Nat.lt_irrefl _)⟩
    obtain ⟨p', hp', -⟩ := h.saved f hf
    rw [hid] at hp'
    exact absurd (hnone.symm.trans hp') (Option.some_ne_none _).symm

variable {l' : Ledger} {ch : Channel}

theorem Live.frame (h : Live l ch)
    (hpacked : ∀ f ∈ l'.packed, f.channelId = ch.channelId → f ∈ l.packed)
    (hstore : l'.store ch.channelId = l.store ch.channelId) (hreserved : l.reserved ≤ l'.reserved) :
    Live l' ch where
  past f hf hid := h.past f (hpacked f hf hid) hid
  send_le_max := h.send_le_max
  send_le := Nat.le_trans h.send_le hreserved
  reserved_le := Nat.le_trans h.reserved_le hreserved
  window hlt := by
    obtain ⟨p, hp, hle⟩ := h.window hlt
    exact ⟨p, hstore.trans hp, hle⟩

theorem Reserved.frame (h : Reserved l ch) (hpacked : l'.packed = l.packed)
    (hreserved : l'.reserved = l.reserved) : Reserved l' ch where
  past f hf := h.past f (hpacked ▸ hf)
  send_le_max := h.send_le_max
  send_lt := hreserved ▸ h.send_lt
  reserved_le := hreserved ▸ h.reserved_le
  reserved_le_max := h.reserved_le_max
  send_le_reserved := h.send_le_reserved
  inside := h.inside

theorem Reserved.live (h : Reserved l ch) (hp : Persisted l ch) : Live l ch :=
  ⟨h.past, h.send_le_max, Nat.le_of_lt h.send_lt, h.reserved_le, fun _ => hp⟩

theorem Reserved.live_next (h : Reserved l ch) (hp : Persisted l ch)
    (hpacked : ∀ f ∈ l'.packed, f ∈ l.packed ∨ f.msgId = ch.msgIdSend) (hstore : l'.store = l.store)
    (hreserved : l'.reserved = l.reserved) : Live l' ch.nextSendMsgId.2 := by
  have hmax := h.send_le_max
  have hlt := h.send_lt
  refine ⟨fun f hf hid => ?_, ?_, ?_, ?_, fun _ => ?_⟩
  · rw [nextSendMsgId_msgIdSend]
    rcases hpacked f hf with hf | hf
    · rcases h.past f hf hid with hpast | hpast
      · omega
      · exact .inr hpast
    · omega
  · rw [nextSendMsgId_msgIdSend]
    omega
  · rw [nextSendMsgId_msgIdSend]
    omega
  · rw [hreserved]
    exact h.reserved_le
  · obtain ⟨p, hp, hle⟩ := hp
    refine ⟨p, ?_, ?_⟩
    · rwa [hstore]
    · rwa [nextSendMsgId_sendReserved]

variable {st' : Stake}

/-- A stake that is not in the middle of a save can be given up for another. -/
theorem Safe.restake (h : Safe l st) (hno : ∀ arc, ¬ st.Saving arc) (hok : st'.Ok l) :
    Safe l st' where
  ceiling := h.ceiling
  saved := h.saved
  counted := h.counted
  registered channelId arc hreg := by
    obtain ⟨ch, hget, hid, hlive⟩ := h.registered channelId arc hreg
    exact ⟨ch, hget, hid, hlive.elim (fun hs => absurd hs (hno arc)) .inr⟩
  stake := hok
  repeats := h.repeats

variable {arc : ℕ}

theorem Safe.registered_set (h : Safe l st) {ch ch' : Channel} (hold : Holds l arc ch)
    (hid : ch'.channelId = ch.channelId) (hreg : l'.registered = l.registered)
    (harcs : l'.arcs = l.arcs.set arc ch') (hself : st'.Saving arc ∨ Live l' ch')
    (hno : ∀ arc', arc' ≠ arc → ¬ st.Saving arc')
    (hother : ∀ c, c.channelId ≠ ch.channelId → Live l c → Live l' c) :
    ∀ channelId arc', l'.registered channelId = some arc' →
      ∃ c, l'.arcs[arc']? = some c ∧ c.channelId = channelId ∧ (st'.Saving arc' ∨ Live l' c) := by
  intro channelId arc' hreg'
  rw [hreg] at hreg'
  obtain ⟨c, hget, hc, hlive⟩ := h.registered channelId arc' hreg'
  by_cases harc : arc' = arc
  · subst harc
    obtain rfl : c = ch := Option.some.inj (hget.symm.trans hold.get)
    refine ⟨ch', ?_, hid.trans hc, hself⟩
    rw [harcs, getElem?_set_self', hget]
    rfl
  · refine ⟨c, ?_, hc, .inr (hother c ?_ (hlive.resolve_left (hno arc' harc)))⟩
    · rw [harcs, getElem?_set_ne (Ne.symm harc)]
      exact hget
    · -- the id of the written arc belongs to that arc alone
      intro heq
      exact harc (hold.sole arc' (by rw [← heq, hc]; exact hreg'))

theorem Safe.register (h : Safe l (.pending ch)) :
    Safe (l.register ch) .looking where
  ceiling := h.ceiling
  saved := h.saved
  counted := h.counted
  registered channelId arc hreg := by
    have hlive : ∀ c, Live l c → Live (l.register ch) c := fun c hc =>
      hc.frame (fun _ hf _ => hf) rfl (Nat.le_refl _)
    by_cases hid : channelId = ch.channelId
    · subst hid
      obtain rfl : l.arcs.length = arc := Option.some.inj ((l.register_self ch).symm.trans hreg)
      exact ⟨ch, List.getElem?_concat_length, rfl, .inr (hlive ch h.stake)⟩
    · have hreg' : l.registered channelId = some arc := (l.register_of_ne hid).symm.trans hreg
      obtain ⟨c, hget, hc, hl⟩ := h.registered channelId arc hreg'
      refine ⟨c, ?_, hc, .inr (hlive c (hl.resolve_left id))⟩
      have hlt : arc < l.arcs.length := (List.getElem?_eq_some_iff.mp hget).1
      exact (List.getElem?_append_left hlt).trans hget
  stake := trivial
  repeats := h.repeats

theorem Safe.unregister (h : Safe l st) (channelId : Bytes) : Safe (l.unregister channelId) st := by
  have hlive : ∀ c, Live l c → Live (l.unregister channelId) c := fun c hc =>
    hc.frame (fun _ hf _ => hf) rfl (Nat.le_refl _)
  have hholds : ∀ {arc ch}, Holds l arc ch → Holds (l.unregister channelId) arc ch :=
    fun hold => ⟨hold.get, fun arc' hreg => hold.sole arc' (l.registered_of_unregister hreg)⟩
  refine ⟨h.ceiling, h.saved, h.counted, fun id arc hreg => ?_, ?_, h.repeats⟩
  · obtain ⟨c, hget, hc, hl⟩ := h.registered id arc (l.registered_of_unregister hreg)
    exact ⟨c, hget, hc, hl.imp_right (hlive c)⟩
  · have hstake := h.stake
    cases st with
    | absent | removing | looking | session => trivial
    | pending ch => exact hlive ch hstake
    | locking arc =>
      obtain ⟨ch, hold, hl⟩ := hstake
      exact ⟨ch, hholds hold, hlive ch hl⟩
    | saving arc ceiling =>
      obtain ⟨ch, hold, hr, hc⟩ := hstake
      exact ⟨ch, hholds hold, hr.frame rfl rfl, hc⟩
    | issuing arc =>
      obtain ⟨ch, hold, hr, hp⟩ := hstake
      exact ⟨ch, hholds hold, hr.frame rfl rfl, hp⟩

theorem Holds.set {ch ch' : Channel} (h : Holds l arc ch) (hid : ch'.channelId = ch.channelId)
    (hreg : l'.registered = l.registered) (harcs : l'.arcs = l.arcs.set arc ch') :
    Holds l' arc ch' where
  get := by
    rw [harcs, getElem?_set_self', h.get]
    rfl
  sole arc' hreg' := by
    rw [hreg, hid] at hreg'
    exact h.sole arc' hreg'

theorem Safe.reserve (h : Safe l (.locking arc)) (hget : l.arcs[arc]? = some ch) :
    Safe (l.reserve arc ch) (.saving arc (ch.reserveSend sendReservationBatch).sendReserved) := by
  obtain ⟨ch₀, hold, hlive⟩ := h.stake
  obtain rfl : ch₀ = ch := Option.some.inj (hold.get.symm.trans hget)
  have hbatch : l.reserved + sendReservationBatch = (l.reserve arc ch₀).reserved := rfl
  have hpos : 0 < sendReservationBatch := by decide
  have hid := reserveSend_channelId ch₀ sendReservationBatch
  have hmax := hlive.send_le_max
  have hle := hlive.send_le
  refine ⟨fun id p hp => ?_, h.saved, fun f hf => ?_, ?_, ?_, h.repeats⟩
  · obtain ⟨hpmax, hple⟩ := h.ceiling id p hp
    exact ⟨hpmax, by omega⟩
  · have hf := h.counted f hf
    omega
  · exact h.registered_set hold hid rfl rfl (.inl rfl) (fun _ _ hs => hs)
      fun c _ hc => hc.frame (fun _ hf _ => hf) rfl (by omega)
  · refine ⟨_, hold.set hid rfl rfl, ?_, rfl⟩
    refine ⟨fun f hf hfid => ?_, ?_, ?_, ?_, ?_, ?_, ?_⟩
    · rw [reserveSend_msgIdSend]
      exact hlive.past f hf (hfid.trans hid)
    all_goals simp only [reserveSend_msgIdSend, reserveSend_sendReserved]
    all_goals omega

theorem Safe.ready (h : Safe l (.locking arc)) (hget : l.arcs[arc]? = some ch)
    (hready : ch.msgIdSend < ch.sendReserved) : Safe l (.issuing arc) := by
  obtain ⟨ch₀, hold, hlive⟩ := h.stake
  obtain rfl : ch₀ = ch := Option.some.inj (hold.get.symm.trans hget)
  refine h.restake (fun _ hs => hs) ⟨ch₀, hold, ?_, hlive.window hready⟩
  obtain ⟨p, hp, hple⟩ := hlive.window hready
  have hpmax := (h.ceiling _ p hp).1
  have hle := hlive.reserved_le
  exact ⟨hlive.past, hlive.send_le_max, by omega, hle, by omega, by omega, .inl hready⟩

theorem save_self (channelId : Bytes) (ceiling : ℕ) :
    ∃ p, (l.save channelId ceiling).store channelId = some p ∧ p.sendReserved = ceiling :=
  ⟨_, update_self .., rfl⟩

theorem save_of_ne {channelId id : Bytes} (ceiling : ℕ) (h : id ≠ channelId) :
    (l.save channelId ceiling).store id = l.store id :=
  update_of_ne h ..

theorem Safe.save {ceiling : ℕ} (h : Safe l (.saving arc ceiling)) (hget : l.arcs[arc]? = some ch) :
    Safe (l.save ch.channelId ceiling) (.issuing arc) := by
  obtain ⟨ch₀, hold, hres, rfl⟩ := h.stake
  obtain rfl : ch₀ = ch := Option.some.inj (hold.get.symm.trans hget)
  obtain ⟨p₀, hp₀, hceiling⟩ := save_self (l := l) ch₀.channelId ch₀.sendReserved
  have hres' : Reserved (l.save ch₀.channelId ch₀.sendReserved) ch₀ := hres.frame rfl rfl
  have hpersisted : Persisted (l.save ch₀.channelId ch₀.sendReserved) ch₀ :=
    ⟨p₀, hp₀, Nat.le_of_eq hceiling.symm⟩
  refine ⟨fun id p hp => ?_, fun f hf => ?_, h.counted, ?_, ?_, h.repeats⟩
  · by_cases hid : id = ch₀.channelId
    · subst hid
      obtain rfl : p₀ = p := Option.some.inj (hp₀.symm.trans hp)
      rw [hceiling]
      exact ⟨hres.reserved_le_max, hres.reserved_le⟩
    · rw [save_of_ne _ hid] at hp
      exact h.ceiling id p hp
  · by_cases hid : f.channelId = ch₀.channelId
    · rw [hid]
      refine ⟨p₀, hp₀, ?_⟩
      have hle := hres.send_le_reserved
      exact (hres.past f hf hid).imp_left fun hlt => by omega
    · rw [save_of_ne _ hid]
      exact h.saved f hf
  · refine h.registered_set hold rfl rfl ?_ (.inr (hres'.live hpersisted))
      (fun arc' hne hs => hne hs.symm) fun c hc hlive =>
        hlive.frame (fun _ hf _ => hf) (save_of_ne _ hc) (Nat.le_refl _)
    have hlt : arc < l.arcs.length := (List.getElem?_eq_some_iff.mp hget).1
    have hval : l.arcs[arc] = ch₀ := (List.getElem?_eq_some_iff.mp hget).2
    rw [← hval, List.set_getElem_self]
    rfl
  · exact ⟨ch₀, ⟨hold.get, hold.sole⟩, hres', hpersisted⟩

theorem Safe.allocate (h : Safe l (.issuing arc)) (hget : l.arcs[arc]? = some ch)
    (hstore : l'.store = l.store) (hreserved : l'.reserved = l.reserved)
    (hreg : l'.registered = l.registered) (harcs : l'.arcs = l.arcs.set arc ch.nextSendMsgId.2)
    (hpacked : ∀ f ∈ l'.packed, f ∈ l.packed ∨ f.channelId = ch.channelId ∧ f.msgId = ch.msgIdSend)
    (hrepeats : l'.packed.Pairwise fun f g => f.kSend = g.kSend → f.msgId = g.msgId → f.msgId =
      u64Max)
    : Safe l' .absent := by
  obtain ⟨ch₀, hold, hres, hp⟩ := h.stake
  obtain rfl : ch₀ = ch := Option.some.inj (hold.get.symm.trans hget)
  refine ⟨?_, fun f hf => ?_, fun f hf => ?_, ?_, trivial, hrepeats⟩
  · rw [hstore, hreserved]
    exact h.ceiling
  · rw [hstore]
    rcases hpacked f hf with hf | ⟨hid, hmsg⟩
    · exact h.saved f hf
    · obtain ⟨p, hp, hle⟩ := hp
      rw [hid, hmsg]
      exact ⟨p, hp, hres.inside.imp_left fun hlt => by omega⟩
  · rw [hreserved]
    rcases hpacked f hf with hf | ⟨-, hmsg⟩
    · exact h.counted f hf
    · rw [hmsg]
      exact hres.send_lt
  · refine h.registered_set hold (nextSendMsgId_channelId ch₀) hreg harcs
      (.inr (hres.live_next hp (fun f hf => (hpacked f hf).imp_right And.right) hstore hreserved))
      (fun _ _ hs => hs) fun c hc hlive => hlive.frame (fun f hf hid => ?_) (by rw [hstore]) ?_
    · rcases hpacked f hf with hf | ⟨hid', -⟩
      · exact hf
      · exact absurd (hid.symm.trans hid') hc
    · exact Nat.le_of_eq hreserved.symm

theorem Safe.issue {f : Packed} {stake : ℕ → Stake} (h : Safe l (.issuing arc))
    (hsourced : Sourced source l stake) (hget : l.arcs[arc]? = some ch) (hf : f.IsNext ch) :
    Safe ((l.allocate arc ch).record f) .absent := by
  refine h.allocate hget rfl rfl rfl rfl (fun g hg => ?_) ?_
  · rcases mem_append.mp hg with hg | hg
    · exact .inl hg
    · rw [mem_singleton] at hg
      subst hg
      exact .inr ⟨hf.channelId, hf.msgId⟩
  · refine pairwise_append.mpr ⟨h.repeats, pairwise_singleton _ _, ?_⟩
    intro g hg g' hg' hkey hmsg
    rw [mem_singleton] at hg'
    subst hg'
    obtain ⟨ch₀, hold, hres, -⟩ := h.stake
    obtain rfl : ch₀ = ch := Option.some.inj (hold.get.symm.trans hget)
    have hch : source.Names g.kSend ch₀.channelId := by
      rw [hkey, hf.kSend]
      exact hsourced.arcs ch₀ (mem_of_getElem? hget)
    have hsame : g.channelId = ch₀.channelId := (hsourced.packed g hg).channelId_eq hch
    rcases hres.past g hg hsame with hlt | hmax
    · rw [hmsg, hf.msgId] at hlt
      exact absurd hlt (Nat.lt_irrefl _)
    · exact hmax

theorem Safe.restart {st : Stake} (h : Safe l st) : Safe l.restart .absent where
  ceiling := h.ceiling
  saved := h.saved
  counted := h.counted
  registered _ _ hreg := by cases hreg
  stake := trivial
  repeats := h.repeats

theorem Safe.effect {stake : ℕ → Stake} (h : Safe l st) (hstore : cfg.hasStore = true)
    (hsourced : Sourced source l stake) (heffect : Effect cfg source.delivers l st l' st') :
    Safe l' st' := by
  cases heffect with
  | look | giveUp | deliver | sweep | removed => exact h.restake (fun _ hs => hs) trivial
  | deliverFresh _ hno => simp [hstore] at hno
  | build => exact h.restake (fun _ hs => hs) (h.live_build _ _ _)
  | register => exact h.register
  | acquire hreg =>
    obtain ⟨ch, hget, hid, hlive⟩ := h.registered _ _ hreg
    refine h.restake (fun _ hs => hs) ⟨ch, ⟨hget, fun arc' hreg' => ?_⟩, hlive.resolve_left id⟩
    rw [hid, hreg] at hreg'
    exact (Option.some.inj hreg').symm
  | reserve hget _ =>
    rw [if_pos hstore]
    exact h.reserve hget
  | ready hget hready => exact h.ready hget hready
  | save hget => exact h.save hget
  | waste hget =>
    exact h.allocate hget rfl rfl rfl rfl (fun f hf => .inl hf) h.repeats
  | issue hget hf => exact h.issue hsourced hget hf
  | unregister => exact h.unregister _

theorem Effect.of_not_inFlight {delivers : String → SessionKeys → Prop}
    (h : Effect cfg delivers l st l' st') (hst : ¬ st.InFlight) :
    l' = l ∨ ∃ channelId, l' = l.unregister channelId := by
  cases h with
  | unregister => exact .inr ⟨_, rfl⟩
  | sweep | removed => exact .inl rfl
  | _ => exact absurd trivial hst

theorem Stake.not_saving (h : ¬ st.InFlight) (arc : ℕ) : ¬ st.Saving arc := by
  intro hs
  cases st <;> first | exact hs | exact h trivial

/-! ## Runs -/

/-- No call but `t` is in flight. -/
def Sole (s : Sys) (t : ℕ) : Prop := ∀ t', t' ≠ t → ¬ (s.stake t').InFlight

variable {s s' : Sys} {t₀ : ℕ}

theorem Sole.update {t : ℕ} (h : Sole s t) (hstake : s'.stake = update s.stake t₀ st')
    (hst : t₀ ≠ t → ¬ st'.InFlight) : Sole s' t := by
  unfold Sole
  rw [hstake]
  exact (forall_update_iff s.stake fun t' st => t' ≠ t → ¬ st.InFlight).mpr
    ⟨hst, fun t' _ => h t'⟩

/-- What holds along a run of calls one after another. -/
structure RestartSafe (source : SessionSource cfg.prims) (s : Sys) : Prop where
  sourced : Sourced source s.world.ledger s.stake
  safe : ∃ t, Sole s t ∧ Safe s.world.ledger (s.stake t)

theorem RestartSafe.init : RestartSafe source (init fun _ => none) where
  sourced := .init _
  safe := by
    refine ⟨0, fun _ _ h => h, ?_⟩
    refine ⟨?_, ?_, ?_, ?_, trivial, Pairwise.nil⟩
    · intro _ _ hp
      cases hp
    · intro f hf
      cases hf
    · intro f hf
      cases hf
    · intro _ _ hreg
      cases hreg

theorem RestartSafe.call {c : Call} (h : RestartSafe source s)
    (hone : OneAfterAnother s (.call t₀ c)) (habsent : s.stake t₀ = .absent)
    (hledger : s'.world.ledger = s.world.ledger)
    (hstake : s'.stake = update s.stake t₀ c.start.stake) :
    ∃ t, Sole s' t ∧ Safe s'.world.ledger (s'.stake t) := by
  obtain ⟨t, hsole, hsafe⟩ := h.safe
  have hstart : ∀ st : Stake, ¬ (s.stake t).InFlight → st.Ok s.world.ledger →
      Safe s.world.ledger st := fun st hno hok => hsafe.restake (Stake.not_saving hno) hok
  have hself : s'.stake t₀ = c.start.stake := by rw [hstake, update_self]
  rw [hledger]
  cases c with
  | sendToPeer | ensureChannel =>
    -- nothing was in flight: now this call is
    have hidle : Sole s t₀ := fun t' _ => hone t'
    refine ⟨t₀, hidle.update hstake fun hne => absurd rfl hne, ?_⟩
    rw [hself]
    exact hstart _ (hone t) trivial
  | remove channelId =>
    refine ⟨t, hsole.update hstake fun _ => id, ?_⟩
    by_cases ht₀ : t = t₀
    · subst ht₀
      rw [hself]
      exact hstart _ (by rw [habsent]; exact id) trivial
    · rw [hstake, update_of_ne ht₀]
      exact hsafe

theorem RestartSafe.run (h : RestartSafe source s) (hstore : cfg.hasStore = true)
    (heffect : Effect cfg source.delivers s.world.ledger (s.stake t₀) s'.world.ledger st')
    (hstake : s'.stake = update s.stake t₀ st') :
    ∃ t, Sole s' t ∧ Safe s'.world.ledger (s'.stake t) := by
  obtain ⟨t, hsole, hsafe⟩ := h.safe
  refine ⟨t, hsole.update hstake fun ht hst => hsole t₀ ht (heffect.inFlight hst), ?_⟩
  rw [hstake]
  by_cases ht₀ : t = t₀
  · subst ht₀
    rw [update_self]
    exact hsafe.effect hstore h.sourced heffect
  · rw [update_of_ne ht₀]
    rcases heffect.of_not_inFlight (hsole t₀ (Ne.symm ht₀)) with hl | ⟨channelId, hl⟩
    · rw [hl]
      exact hsafe
    · rw [hl]
      exact hsafe.unregister channelId

theorem RestartSafe.step {a : Action} (h : RestartSafe source s) (hstore : cfg.hasStore = true)
    (hallows : source.Allows s a) (hone : OneAfterAnother s a) (hstep : s.step cfg a = some s') :
    RestartSafe source s' := by
  refine ⟨h.sourced.step hallows hstep, ?_⟩
  rcases step_cases hallows hstep with
    ⟨t, c, rfl, habsent, hledger, hstake⟩ | ⟨t, input, st', -, heffect, hstake⟩ |
    ⟨-, hledger, hstake⟩ | ⟨hledger, hstake⟩
  · exact h.call hone habsent hledger hstake
  · exact h.run hstore heffect hstake
  · obtain ⟨t, -, hsafe⟩ := h.safe
    rw [hledger, hstake]
    refine ⟨t, fun t' _ => ?_, hsafe.restart⟩
    rw [hstake]
    exact id
  · obtain ⟨t, hsole, hsafe⟩ := h.safe
    refine ⟨t, fun t' ht => ?_, ?_⟩
    · rw [hstake]
      exact hsole t' ht
    · rwa [hledger, hstake]

theorem restartSafe_exec {run : List Action} (hstore : cfg.hasStore = true)
    (hexec : exec (step cfg) (init fun _ => none) run = some s)
    (hone : Along (step cfg) OneAfterAnother (init fun _ => none) run)
    (hsource : Along (step cfg) source.Allows (init fun _ => none) run) : RestartSafe source s :=
  exec_invariant_along (fun _ _ _ h hG hstep => h.step hstore hG.2 hG.1 hstep)
    RestartSafe.init (hone.and hsource) hexec

/-- **No nonce repeats across restarts.**  In every run of sends one after another, with
removals and crashes anywhere and a counter store from the start, in which fewer than
`2 ^ 64` ids have been reserved, no two packed frames share a key and a message id. -/
theorem distinct_nonces_across_restarts (source : SessionSource cfg.prims)
    {run : List Action} {s : Sys} (hstore : cfg.hasStore = true)
    (hexec : exec (step cfg) (init fun _ => none) run = some s)
    (hone : Along (step cfg) OneAfterAnother (init fun _ => none) run)
    (hsource : Along (step cfg) source.Allows (init fun _ => none) run)
    (hreserved : s.world.reserved < 2 ^ 64) : DistinctNonces s.world.packed := by
  obtain ⟨t, -, hsafe⟩ := (restartSafe_exec hstore hexec hone hsource).safe
  refine Pairwise.imp_of_mem (fun {f g} hf _ hrepeat hkey hmsg => ?_) hsafe.repeats
  have hmax : f.msgId = u64Max := hrepeat hkey hmsg
  have hlt : f.msgId < s.world.reserved := hsafe.counted f hf
  rw [hmax] at hlt
  unfold u64Max at hlt
  omega

end

/-! ## One send after every restart -/

/-- A process without calls and channels. -/
def rested (store : CounterStore) (packed wire : List Packed) (issued reserved : ℕ) : Sys :=
  ⟨⟨.new, true, store, packed, wire, issued, reserved⟩, fun _ => none⟩

/-- A send that finds no channel, up to its lock. -/
def openAlone (peerDid : String) (applicationPayload : Bytes) (keys : SessionKeys) : List Action :=
  [.call 0 (.sendToPeer peerDid applicationPayload), .run 0 .none, .run 0 (.session (.ok keys)),
    .run 0 .none, .run 0 .none, .run 0 .none, .run 0 .none, .run 0 .none, .run 0 .none]

/-- Lock and reserve, save, issue; then the process crashes. -/
def issueThenCrash : List Action := [.run 0 .none, .run 0 .none, .run 0 .none, .crash]

/-- The step is one of a run the theorem is about. -/
def Sequential {prims : Primitives} (source : SessionSource prims) (s : Sys) (a : Action) : Prop :=
  OneAfterAnother s a ∧ source.Allows s a

section

variable (cfg : Config) (source : SessionSource cfg.prims) (store : CounterStore)
  (packed wire : List Packed) (issued reserved : ℕ) {peerDid : String}
  (applicationPayload : Bytes) {keys : SessionKeys} {ch : Channel}

/-- The state of the one send, once its channel is registered. -/
def opened (store : CounterStore) (packed wire : List Packed) (issued reserved : ℕ)
    (applicationPayload : Bytes) (ch : Channel) : Sys :=
  ⟨⟨((new.insertChannel ch).insertPeer ch).insertPrefix ch, true, store, packed,
      wire, issued, reserved⟩,
    update (fun _ => none) 0 (some (.sending applicationPayload 0 .lock))⟩

attribute [local simp] opened exec guarded Sequential rested step OneAfterAnother Allows Task.next
  new insertChannel insertPeer insertPrefix

theorem exec_openAlone (hstore : cfg.hasStore = true)
    (hdelivers : source.delivers cfg.providerId keys)
    (hch : buildChannel cfg store peerDid cfg.providerId keys = ch) (hpeer : ch.peerDid = peerDid) :
    exec (guarded (step cfg) (Sequential source))
      (rested store packed wire issued reserved) (openAlone peerDid applicationPayload keys) =
        some (opened store packed wire issued reserved applicationPayload ch) := by
  simp [openAlone, Answers, stake, Stake.InFlight, Call.start, openNext, Purpose.missing,
    Purpose.found, hstore, hdelivers, hch, hpeer]

theorem exec_issueThenCrash (hstore : cfg.hasStore = true) (hneeds : ch.sendReserved ≤ ch.msgIdSend)
    {bytes : Bytes} (hbytes : (dataFrame (ch.reserveSend sendReservationBatch) ch.msgIdSend
      applicationPayload).encode cfg.prims ch.kSend = .ok bytes) :
    let f : Packed := ⟨ch.kSend, dataFrame (ch.reserveSend sendReservationBatch) ch.msgIdSend
      applicationPayload, bytes⟩
    exec (guarded (step cfg) (Sequential source))
      (opened store packed wire issued reserved applicationPayload ch) issueThenCrash =
        some (rested (store.saveSendReserved ch.channelId
            (ch.reserveSend sendReservationBatch).sendReserved)
          (packed ++ [f]) (wire ++ [f]) (issued + 1) (reserved + sendReservationBatch)) := by
  simp [issueThenCrash, sendNext, lockNext, issueNext, needsSendReservation, lock, write, hstore,
    hneeds, nextSendMsgId, hbytes]

end

/-! ## A run that uses up the id space -/

def ceilingOf (store : CounterStore) (channelId : Bytes) : ℕ :=
  ((store channelId).getD {}).sendReserved

theorem ceilingOf_saveSendReserved (store : CounterStore) (channelId : Bytes) (ceiling : ℕ) :
    ceilingOf (store.saveSendReserved channelId ceiling) channelId = ceiling := by
  simp [ceilingOf, CounterStore.saveSendReserved]

theorem buildChannel_counters (cfg : Config) (store : CounterStore) (peerDid providerId : String)
    (keys : SessionKeys) :
    let ch := buildChannel cfg store peerDid providerId keys
    let channelId := deriveChannelId cfg.prims providerId keys.connectionId keys.generation
    ch.channelId = channelId ∧ ch.kSend = keys.kSend cfg.prims ∧ ch.peerDid = peerDid ∧
      ch.msgIdSend = ceilingOf store channelId ∧ ch.sendReserved = ceilingOf store channelId := by
  unfold buildChannel ceilingOf
  split
  iterate 2 next hp => exact ⟨rfl, rfl, rfl, by rw [hp]; rfl, by rw [hp]; rfl⟩

section

variable {prims : Primitives}

/-- The channel id and the sending key of `bobSession`. -/
def bobChannelId (prims : Primitives) : Bytes :=
  deriveChannelId prims "classical-x25519/1.0" bobSession.connectionId bobSession.generation

def bobKey (prims : Primitives) : Bytes := bobSession.kSend prims

/-- A step of a run of sends to `did:bob`, one after another. -/
noncomputable def bobStep (prims : Primitives) : Sys → Action → Option Sys :=
  guarded (step (classicalConfig prims true)) (Sequential (bobSource prims))

/-- Send one empty message, then crash. -/
def sendThenCrash : List Action := openAlone "did:bob" [] bobSession ++ issueThenCrash

theorem exec_sendThenCrash (htag : prims.AppendsTag) (store : CounterStore)
    (packed wire : List Packed) (issued reserved : ℕ) :
    ∃ store' f, exec (bobStep prims) (rested store packed wire issued reserved) sendThenCrash =
          some (rested store' (packed ++ [f]) (wire ++ [f]) (issued + 1)
            (reserved + sendReservationBatch)) ∧
      f.kSend = bobKey prims ∧ f.msgId = ceilingOf store (bobChannelId prims) ∧
      ceilingOf store' (bobChannelId prims) =
        min (ceilingOf store (bobChannelId prims) + sendReservationBatch) u64Max := by
  obtain ⟨hid, hk, hpeer, hsend, hreserved⟩ := buildChannel_counters (classicalConfig prims true)
    store "did:bob" "classical-x25519/1.0" bobSession
  generalize hch : buildChannel (classicalConfig prims true) store "did:bob" "classical-x25519/1.0"
    bobSession = ch at hid hk hpeer hsend hreserved
  obtain ⟨bytes, hbytes⟩ :=
    htag.encode_empty (ch.reserveSend sendReservationBatch) ch.msgIdSend ch.kSend
  have hopen := exec_openAlone (classicalConfig prims true) (bobSource prims) store packed
    wire issued reserved [] rfl ⟨rfl, rfl⟩ hch hpeer
  have hissue := exec_issueThenCrash (classicalConfig prims true) (bobSource prims) store
    packed wire issued reserved [] rfl (Nat.le_of_eq (hreserved.trans hsend.symm)) hbytes
  refine ⟨_, _, exec_append_eq_some.mpr ⟨_, hopen, hissue⟩, hk, hsend, ?_⟩
  rw [hid, reserveSend_sendReserved, hsend]
  exact ceilingOf_saveSendReserved store (bobChannelId prims) _

/-- Send one message after each of `n` restarts. -/
def sendsThenCrashes (n : ℕ) : List Action := (replicate n sendThenCrash).flatten

/-- After `n` restarts the ceiling has moved up `n` windows; the frames carry the ceilings
on the way. -/
theorem exec_sendsThenCrashes (htag : prims.AppendsTag) (n : ℕ) :
    ∃ store packed wire,
      exec (bobStep prims) (init fun _ => none) (sendsThenCrashes n) =
        some (rested store packed wire n (n * sendReservationBatch)) ∧
      ceilingOf store (bobChannelId prims) = min (n * sendReservationBatch) u64Max ∧
      packed.map (fun f => (f.kSend, f.msgId)) =
        (range n).map fun i => (bobKey prims, min (i * sendReservationBatch) u64Max) := by
  induction n with
  | zero => exact ⟨fun _ => none, [], [], rfl, rfl, rfl⟩
  | succ n ih =>
    obtain ⟨store, packed, wire, hexec, hceiling, hpacked⟩ := ih
    obtain ⟨store', f, hcycle, hk, hmsg, hceiling'⟩ :=
      exec_sendThenCrash htag store packed wire n (n * sendReservationBatch)
    refine ⟨store', packed ++ [f], wire ++ [f], ?_, ?_, ?_⟩
    · rw [sendsThenCrashes, replicate_succ', flatten_concat, Nat.succ_mul]
      exact exec_append_eq_some.mpr ⟨_, hexec, hcycle⟩
    · rw [Nat.succ_mul]
      omega
    · rw [map_append, hpacked, range_succ, map_append, map_singleton,
        map_singleton, hk, hmsg, hceiling]

theorem not_distinct_of_ceilings {n : ℕ} {packed : List Packed}
    (hpacked : packed.map (fun f => (f.kSend, f.msgId)) =
      (range n).map fun i => (bobKey prims, min (i * sendReservationBatch) u64Max))
    {i : ℕ} (hi : u64Max ≤ i * sendReservationBatch) (hn : i + 1 < n) :
    ¬ DistinctNonces packed := by
  rw [distinctNonces_iff, hpacked, pairwise_map, pairwise_iff_getElem]
  intro hdistinct
  have hlast := hdistinct i (i + 1) (by rw [length_range]; omega)
    (by rw [length_range]; omega) (Nat.lt_succ_self i)
  simp only [getElem_range, forall_const] at hlast
  have hsucc : (i + 1) * sendReservationBatch = i * sendReservationBatch + sendReservationBatch :=
    Nat.succ_mul ..
  omega

end

/-- **Skipped ids count.**  `2 ^ 54 + 2` sends, each followed by a crash, use up the
`u64` counter a window at a time: the last two frames carry `u64::MAX` under one key. -/
theorem nonce_repeats_after_skips :
    ∃ s, exec (step (classicalConfig Sample.tagging true)) (init fun _ => none)
        (sendsThenCrashes (2 ^ 54 + 2)) = some s ∧
      Along (step (classicalConfig Sample.tagging true)) OneAfterAnother (init fun _ => none)
        (sendsThenCrashes (2 ^ 54 + 2)) ∧
      Along (step (classicalConfig Sample.tagging true)) (bobSource Sample.tagging).Allows
        (init fun _ => none) (sendsThenCrashes (2 ^ 54 + 2)) ∧
      s.world.issued < 2 ^ 64 ∧ ¬ DistinctNonces s.world.packed := by
  obtain ⟨store, packed, wire, hexec, -, hpacked⟩ :=
    exec_sendsThenCrashes Sample.appendsTag (2 ^ 54 + 2)
  obtain ⟨hexec, halong⟩ := exec_guarded_eq_some.mp hexec
  refine ⟨_, hexec, halong.imp fun _ _ h => h.1, halong.imp fun _ _ h => h.2, ?_, ?_⟩
  · show 2 ^ 54 + 2 < 2 ^ 64
    omega
  · exact not_distinct_of_ceilings (i := 2 ^ 54) hpacked (by decide) (by omega)

/-- Three sends with a crash after each carry the ids 0, 1024 and 2048. -/
theorem three_restarts_distinct :
    ∃ s, exec (step (classicalConfig Sample.tagging true)) (init fun _ => none)
        (sendsThenCrashes 3) = some s ∧
      s.world.packed.map Packed.msgId = [0, 1024, 2048] ∧ DistinctNonces s.world.packed := by
  obtain ⟨store, packed, wire, hexec, -, hpacked⟩ := exec_sendsThenCrashes Sample.appendsTag 3
  obtain ⟨hexec, halong⟩ := exec_guarded_eq_some.mp hexec
  refine ⟨_, hexec, ?_, distinct_nonces_across_restarts (bobSource _) rfl hexec
    (halong.imp fun _ _ h => h.1) (halong.imp fun _ _ h => h.2) ?_⟩
  · have hids := congrArg (map Prod.snd) hpacked
    rw [map_map] at hids
    exact hids
  · show 3 * sendReservationBatch < 2 ^ 64
    decide

end Idiom.Dcx
