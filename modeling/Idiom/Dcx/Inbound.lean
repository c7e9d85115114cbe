import Idiom.Dcx.ChannelIndex
import Idiom.Dcx.FrameDecode
import Mathlib.Data.List.Chain
import Mathlib.Order.WithBot

/-!
# Receiving over DCX: `dcx/transports/inbound.rs`

A frame names its channel in the clear. It is verified with the channel's key first, and
only then is its `msg_id` held against the high-water mark.
-/

namespace Idiom.Dcx

open List Option

/-! ## One channel (`channel/state.rs`) -/

inductive ChannelError where
  | replay (got last : ℕ)

namespace Channel

/-- Record an inbound `msg_id`, enforcing strict monotonicity. -/
def observeRecv (ch : Channel) (msgId : ℕ) : Except ChannelError Channel :=
  if ch.receivedAny && decide (msgId ≤ ch.msgIdRecv) then .error (.replay msgId ch.msgIdRecv)
  else .ok { ch with msgIdRecv := msgId, receivedAny := true }

/-- The last id that was accepted, if any was. -/
def mark (ch : Channel) : WithBot ℕ :=
  if ch.receivedAny then WithBot.some ch.msgIdRecv else ⊥

theorem observeRecv_of_lt {ch : Channel} {msgId : ℕ} (h : ch.mark < WithBot.some msgId) :
    ch.observeRecv msgId = .ok { ch with msgIdRecv := msgId, receivedAny := true } := by
  unfold observeRecv
  unfold mark at h
  cases hany : ch.receivedAny with
  | false => simp
  | true =>
    have hlt : ch.msgIdRecv < msgId := by simpa [hany] using h
    simp [hlt]

theorem observeRecv_of_not_lt {ch : Channel} {msgId : ℕ} (h : ¬ ch.mark < WithBot.some msgId) :
    ch.observeRecv msgId = .error (.replay msgId ch.msgIdRecv) := by
  unfold observeRecv
  unfold mark at h
  cases hany : ch.receivedAny with
  | false => simp [hany] at h
  | true =>
    have hle : msgId ≤ ch.msgIdRecv := by simpa [hany] using h
    simp [hle]

end Channel

open Channel

/-- `save_recv`: the mark of the channel only rises. -/
def CounterStore.saveRecv (store : CounterStore) (channelId : Bytes) (msgIdRecv : ℕ) :
    CounterStore :=
  let old := (store channelId).getD {}
  Function.update store channelId
    (some { old with msgIdRecv := max old.msgIdRecv msgIdRecv, receivedAny := true })

/-- The holder of the channel's mutex changes the channel. -/
def ChannelManager.writeAt (m : ChannelManager) (channelId : Bytes) (ch : Channel) :
    ChannelManager :=
  match m.byChannelId channelId with
  | none => m
  | some arc => m.write arc ch

/-! ## The handler (`transports/inbound.rs`) -/

/-- Outcome of inspecting a binary frame. -/
inductive InboundOutcome where
  | handled
  | notDcx
  | dcxError (e : FrameError)

/-- What the dispatcher is called with. -/
structure Dispatched where
  channelId : Bytes
  msgId : ℕ
  body : FrameBody

/-- The inbound extension, with the counters it has persisted and the frames it has dispatched, in
the order in which their dispatch tasks are spawned. -/
structure Inbound where
  channels : ChannelManager
  store : Option CounterStore
  dispatched : List Dispatched

namespace Inbound

/-- A frame is accepted: the channel is written, the mark persisted, the body dispatched. -/
def accept (s : Inbound) (header : FrameHeader) (channel : Channel) (body : FrameBody) :
    Inbound where
  channels := s.channels.writeAt header.channelId channel
  store := s.store.map fun store => store.saveRecv header.channelId header.msgId
  dispatched := s.dispatched ++ [⟨header.channelId, header.msgId, body⟩]

/-- Try to handle `bytes` as a DCX binary frame. -/
def tryHandle (opener : Opener) (s : Inbound) (bytes : Bytes) : Inbound × InboundOutcome :=
  match decodeHeader bytes with
  | .error _ => (s, .notDcx)
  | .ok (header, tail) =>
    match s.channels.channelAt header.channelId with
    | none => (s, .dcxError (.malformedPayload "unknown channel"))
    | some channel =>
      match decodeAndVerify opener header tail channel.kRecv with
      | .error e => (s, .dcxError e)
      | .ok body =>
        match channel.observeRecv header.msgId with
        | .error _ => (s, .dcxError (.malformedPayload "replay rejected"))
        | .ok channel => (s.accept header channel body, .handled)

/-- A sequence of frames, handed over one after the other. -/
def run (opener : Opener) (s : Inbound) (inputs : List Bytes) : Inbound :=
  inputs.foldl (fun s bytes => (s.tryHandle opener bytes).1) s

def idsOn (s : Inbound) (channelId : Bytes) : List ℕ :=
  (s.dispatched.filter fun d => d.channelId = channelId).map Dispatched.msgId

end Inbound

/-! ## Authentic frames -/

/-- The bytes parse, name a live channel, and verify under its key. -/
def Verifies (opener : Opener) (m : ChannelManager) (bytes : Bytes) (header : FrameHeader)
    (body : FrameBody) : Prop :=
  ∃ tail channel, decodeHeader bytes = .ok (header, tail) ∧
    m.channelAt header.channelId = some channel ∧
    decodeAndVerify opener header tail channel.kRecv = .ok body

def isAuthentic (opener : Opener) (m : ChannelManager) (bytes : Bytes) : Bool :=
  match decodeHeader bytes with
  | .error _ => false
  | .ok (header, tail) =>
    match m.channelAt header.channelId with
    | none => false
    | some channel => (decodeAndVerify opener header tail channel.kRecv).isOk

variable {opener : Opener}

theorem isAuthentic_iff {m : ChannelManager} {bytes : Bytes} :
    isAuthentic opener m bytes = true ↔ ∃ header body, Verifies opener m bytes header body := by
  unfold isAuthentic Verifies
  cases hheader : decodeHeader bytes with
  | error e => simp
  | ok parts =>
    obtain ⟨header, tail⟩ := parts
    cases hchannel : m.channelAt header.channelId with
    | none => simp [hchannel]
    | some channel =>
      cases hbody : decodeAndVerify opener header tail channel.kRecv with
      | error e | ok body => simp [hchannel, hbody, Except.toBool]

namespace Inbound

variable {s : Inbound} {bytes : Bytes} {header : FrameHeader} {body : FrameBody}

/-- **A frame that does not verify changes nothing.** -/
theorem tryHandle_of_not_authentic (h : isAuthentic opener s.channels bytes = false) :
    (s.tryHandle opener bytes).1 = s := by
  unfold isAuthentic at h
  unfold tryHandle
  cases hheader : decodeHeader bytes with
  | error e => rfl
  | ok parts =>
    obtain ⟨header, tail⟩ := parts
    simp only [hheader] at h ⊢
    cases hchannel : s.channels.channelAt header.channelId with
    | none => rfl
    | some channel =>
      simp only [hchannel] at h ⊢
      cases hbody : decodeAndVerify opener header tail channel.kRecv with
      | error e => rfl
      | ok body => simp [hbody, Except.toBool] at h

theorem tryHandle_of_verifies (h : Verifies opener s.channels bytes header body) :
    ∃ channel, s.channels.channelAt header.channelId = some channel ∧
      ((channel.mark < WithBot.some header.msgId ∧ s.tryHandle opener bytes =
          (s.accept header { channel with msgIdRecv := header.msgId, receivedAny := true } body,
            .handled)) ∨
        (¬ channel.mark < WithBot.some header.msgId ∧ s.tryHandle opener bytes =
          (s, .dcxError (.malformedPayload "replay rejected")))) := by
  obtain ⟨tail, channel, hheader, hchannel, hbody⟩ := h
  refine ⟨channel, hchannel, ?_⟩
  unfold tryHandle
  by_cases hlt : channel.mark < WithBot.some header.msgId
  · exact .inl ⟨hlt, by simp [hheader, hchannel, hbody, observeRecv_of_lt hlt]⟩
  · exact .inr ⟨hlt, by simp [hheader, hchannel, hbody, observeRecv_of_not_lt hlt]⟩

theorem tryHandle_cases (opener : Opener) (s : Inbound) (bytes : Bytes) :
    (s.tryHandle opener bytes).1 = s ∨
      ∃ header body channel, Verifies opener s.channels bytes header body ∧
        s.channels.channelAt header.channelId = some channel ∧
          channel.mark < WithBot.some header.msgId ∧
        (s.tryHandle opener bytes).1 =
          s.accept header { channel with msgIdRecv := header.msgId, receivedAny := true } body := by
  cases hauth : isAuthentic opener s.channels bytes with
  | false => exact .inl (tryHandle_of_not_authentic hauth)
  | true =>
    obtain ⟨header, body, hverifies⟩ := isAuthentic_iff.1 hauth
    obtain ⟨channel, hchannel, ⟨hlt, heq⟩ | ⟨-, heq⟩⟩ := tryHandle_of_verifies hverifies
    · exact .inr ⟨header, body, channel, hverifies, hchannel, hlt, by rw [heq]⟩
    · exact .inl (by rw [heq])

end Inbound

/-! ## What an accepted frame changes -/

namespace ChannelManager

variable {m : ChannelManager} {ch old : Channel} {id id' : Bytes}

theorem writeAt_eq_write (h : m.channelAt id = some ch) :
    ∃ arc, m.byChannelId id = some arc ∧ m.arcs[arc]? = some ch ∧ m.writeAt id = m.write arc := by
  obtain ⟨arc, harc, hch⟩ := bind_eq_some_iff.1 h
  exact ⟨arc, harc, hch, by funext ch; simp [writeAt, harc]⟩

theorem channelAt_writeAt_self (h : m.channelAt id = some old) :
    (m.writeAt id ch).channelAt id = some ch := by
  obtain ⟨arc, harc, hold, hwrite⟩ := writeAt_eq_write h
  have hlt : arc < m.arcs.length := (List.getElem?_eq_some_iff.1 hold).1
  rw [hwrite]
  simp [channelAt, write, harc, hlt]

theorem channelAt_writeAt_of_ne (hm : m.Keyed) (hne : id' ≠ id) :
    (m.writeAt id ch).channelAt id' = m.channelAt id' := by
  unfold writeAt
  cases harc : m.byChannelId id with
  | none => rfl
  | some arc =>
    simp only [channelAt, write]
    cases harc' : m.byChannelId id' with
    | none => rfl
    | some arc' =>
      obtain ⟨c, hc, hid⟩ := hm id arc harc
      obtain ⟨c', hc', hid'⟩ := hm id' arc' harc'
      have harcs : arc ≠ arc' := by
        rintro rfl
        rw [hc] at hc'
        exact hne (hid' ▸ some.inj hc' ▸ hid)
      simp only [bind_some]
      rw [getElem?_set_ne harcs]

theorem Keyed.writeAt (hm : m.Keyed) (hid : ch.channelId = id) : (m.writeAt id ch).Keyed := by
  unfold ChannelManager.writeAt
  cases harc : m.byChannelId id with
  | none => exact hm
  | some arc =>
    intro id' arc' harc'
    by_cases harcs : arc = arc'
    · subst harcs
      obtain ⟨c, hc, hkey⟩ := hm id arc harc
      obtain ⟨c', hc', hkey'⟩ := hm id' arc harc'
      rw [hc] at hc'
      have hlt : arc < m.arcs.length := (List.getElem?_eq_some_iff.1 hc).1
      exact ⟨ch, by simp [write, hlt], by rw [hid, ← hkey, ← hkey', some.inj hc']⟩
    · obtain ⟨c', hc', hkey'⟩ := hm id' arc' harc'
      exact ⟨c', by simpa [write, List.getElem?_set_ne harcs] using hc', hkey'⟩

end ChannelManager

open ChannelManager

theorem verifies_congr {m m' : ChannelManager} {bytes : Bytes} {header : FrameHeader}
    {body : FrameBody} (h : ∀ id, (m'.channelAt id).map kRecv = (m.channelAt id).map kRecv) :
    Verifies opener m' bytes header body ↔ Verifies opener m bytes header body := by
  -- the key is all that the check reads of the channel
  have hkey : ∀ m : ChannelManager, Verifies opener m bytes header body ↔
      ∃ tail key, decodeHeader bytes = .ok (header, tail) ∧
        (m.channelAt header.channelId).map kRecv = some key ∧
        decodeAndVerify opener header tail key = .ok body := by
    intro m
    constructor
    · rintro ⟨tail, channel, hheader, hchannel, hbody⟩
      exact ⟨tail, channel.kRecv, hheader, by rw [hchannel]; rfl, hbody⟩
    · rintro ⟨tail, key, hheader, hmap, hbody⟩
      obtain ⟨channel, hchannel, rfl⟩ := map_eq_some_iff.1 hmap
      exact ⟨tail, channel, hheader, hchannel, hbody⟩
  rw [hkey m', hkey m, h]

theorem isAuthentic_congr {m m' : ChannelManager} {bytes : Bytes}
    (h : ∀ id, (m'.channelAt id).map kRecv = (m.channelAt id).map kRecv) :
    isAuthentic opener m' bytes = isAuthentic opener m bytes := by
  rw [Bool.eq_iff_iff, isAuthentic_iff, isAuthentic_iff]
  simp only [verifies_congr h]

namespace Inbound

/-! ## The invariant -/

variable {s : Inbound} {bytes : Bytes} {header : FrameHeader} {body : FrameBody}
  {m : ChannelManager}

/-- A new extension over the channels of a manager. -/
def start (m : ChannelManager) (store : Option CounterStore) : Inbound := ⟨m, store, []⟩

/-- The mark a channel had at the start, and the ids dispatched on it. -/
def marks (s : Inbound) (ch₀ : Channel) (id : Bytes) : List (WithBot ℕ) :=
  ch₀.mark :: (s.idsOn id).map WithBot.some

/-- A channel of the start keeps its key, and the marks it had are increasing up to the one
it has; where there was no channel, nothing is dispatched. -/
structure Marked (m : ChannelManager) (s : Inbound) : Prop where
  keyed : s.channels.Keyed
  live : ∀ id ch₀, m.channelAt id = some ch₀ → ∃ ch, s.channels.channelAt id = some ch ∧
    ch.kRecv = ch₀.kRecv ∧ (s.marks ch₀ id).IsChain (· < ·) ∧
    (s.marks ch₀ id).getLast? = some ch.mark
  dead : ∀ id, m.channelAt id = none → s.channels.channelAt id = none ∧ s.idsOn id = []

theorem marked_start (hm : m.Keyed) (store : Option CounterStore) : Marked m (start m store) where
  keyed := hm
  live _ ch₀ h := ⟨ch₀, h, rfl, .singleton _, rfl⟩
  dead _ h := ⟨h, rfl⟩

theorem Marked.keys (h : Marked m s) (id : Bytes) :
    (s.channels.channelAt id).map kRecv = (m.channelAt id).map kRecv := by
  cases hid : m.channelAt id with
  | none => rw [(h.dead id hid).1]
  | some ch₀ =>
    obtain ⟨ch, hch, hkey, -⟩ := h.live id ch₀ hid
    simp [hch, hkey]

theorem idsOn_accept_self (s : Inbound) (header : FrameHeader) (ch : Channel) (body : FrameBody) :
    (s.accept header ch body).idsOn header.channelId =
      s.idsOn header.channelId ++ [header.msgId] := by
  simp [idsOn, accept]

theorem idsOn_accept_of_ne {id : Bytes} {ch : Channel} (hid : id ≠ header.channelId) :
    (s.accept header ch body).idsOn id = s.idsOn id := by
  simp [idsOn, accept, hid.symm]

theorem Marked.tryHandle (h : Marked m s) (bytes : Bytes) :
    Marked m (s.tryHandle opener bytes).1 := by
  rcases tryHandle_cases opener s bytes with heq | ⟨header, body, ch, -, hch, hlt, heq⟩
  · rwa [heq]
  · rw [heq]
    have hself : ch.channelId = header.channelId := h.keyed.channelId_eq hch
    refine ⟨h.keyed.writeAt hself, fun id ch₀ hid => ?_, fun id hid => ?_⟩
    · obtain ⟨c, hc, hkey, hchain, hlast⟩ := h.live id ch₀ hid
      by_cases hne : id = header.channelId
      · subst hne
        obtain rfl : c = ch := some.inj (hc.symm.trans hch)
        have hmarks : ∀ ch', (s.accept header ch' body).marks ch₀ header.channelId =
            s.marks ch₀ header.channelId ++ [WithBot.some header.msgId] := by
          intro ch'
          simp [marks, idsOn_accept_self]
        refine ⟨_, channelAt_writeAt_self hch, hkey, ?_, ?_⟩
        · rw [hmarks, isChain_append]
          refine ⟨hchain, .singleton _, fun x hx y hy => ?_⟩
          rw [hlast, mem_some_iff] at hx
          rw [head?_cons, mem_some_iff] at hy
          rwa [← hx, ← hy]
        · rw [hmarks, getLast?_concat]
          rfl
      · refine ⟨c, (channelAt_writeAt_of_ne h.keyed hne).trans hc, hkey, ?_⟩
        unfold marks at hchain hlast ⊢
        rw [idsOn_accept_of_ne hne]
        exact ⟨hchain, hlast⟩
    · obtain ⟨hdead, hids⟩ := h.dead id hid
      have hne : id ≠ header.channelId := by
        rintro rfl
        rw [hdead] at hch
        cases hch
      exact ⟨(channelAt_writeAt_of_ne h.keyed hne).trans hdead, (idsOn_accept_of_ne hne).trans hids⟩

theorem Marked.run (h : Marked m s) (inputs : List Bytes) : Marked m (s.run opener inputs) := by
  induction inputs generalizing s with
  | nil => exact h
  | cons bytes inputs ih => exact ih (h.tryHandle bytes)

theorem Marked.pairwise_idsOn (h : Marked m s) (id : Bytes) : (s.idsOn id).Pairwise (· < ·) := by
  cases hid : m.channelAt id with
  | none =>
    rw [(h.dead id hid).2]
    exact Pairwise.nil
  | some ch₀ =>
    obtain ⟨ch, -, -, hchain, -⟩ := h.live id ch₀ hid
    have htail := (pairwise_cons.1 (isChain_iff_pairwise.1 hchain)).2
    exact (pairwise_map.1 htail).imp fun hlt => WithBot.coe_lt_coe.1 hlt

theorem Marked.mark_lt (h : Marked m s) {id : Bytes} {ch₀ ch : Channel} {n : ℕ}
    (hid : m.channelAt id = some ch₀) (hch : s.channels.channelAt id = some ch)
    (h₀ : ch₀.mark < WithBot.some n) (hn : ∀ k ∈ s.idsOn id, k < n) : ch.mark < WithBot.some n := by
  obtain ⟨c, hc, -, -, hlast⟩ := h.live id ch₀ hid
  obtain rfl : c = ch := some.inj (hc.symm.trans hch)
  have hmem : c.mark ∈ s.marks ch₀ id := mem_of_getLast? hlast
  rcases mem_cons.1 hmem with heq | hmem
  · rwa [heq]
  · obtain ⟨k, hk, heq⟩ := mem_map.1 hmem
    rw [← heq]
    exact WithBot.coe_lt_coe.2 (hn k hk)

/-! ## Replay protection -/

theorem run_append (opener : Opener) (s : Inbound) (bytes : Bytes) (inputs : List Bytes) :
    s.run opener (bytes :: inputs) = (s.tryHandle opener bytes).1.run opener inputs := rfl

theorem Marked.run_filter (h : Marked m s) (inputs : List Bytes) :
    s.run opener (inputs.filter (isAuthentic opener m)) = s.run opener inputs := by
  induction inputs generalizing s with
  | nil => rfl
  | cons bytes inputs ih =>
    cases hauth : isAuthentic opener m bytes with
    | true =>
      rw [filter_cons_of_pos hauth, run_append]
      exact ih (h.tryHandle bytes)
    | false =>
      have hforged : isAuthentic opener s.channels bytes = false := by
        rw [isAuthentic_congr h.keys, hauth]
      rw [filter_cons_of_neg (by simp [hauth]), run_append, tryHandle_of_not_authentic hforged]
      exact ih h

theorem Marked.nodup_dispatched (h : Marked m s) :
    (s.dispatched.map fun d => (d.channelId, d.msgId)).Nodup := by
  rw [Nodup, pairwise_map]
  have hids : ∀ id, (s.dispatched.filter fun d => d.channelId = id).Pairwise
      fun d d' => d.msgId < d'.msgId := fun id => pairwise_map.1 (h.pairwise_idsOn id)
  have hne : s.dispatched.Pairwise fun d d' => d.channelId = d'.channelId → d.msgId < d'.msgId := by
    rw [pairwise_iff_forall_sublist]
    intro d d' hsub hid
    have hfilter := hsub.filter fun e => e.channelId = d.channelId
    simp only [filter_cons, hid, decide_true, if_true] at hfilter
    exact pairwise_iff_forall_sublist.1 (hids d'.channelId) hfilter
  refine hne.imp fun {d d'} hlt heq => ?_
  obtain ⟨hid, hmsg⟩ := Prod.mk.inj heq
  exact absurd hmsg (hlt hid).ne

theorem Marked.tryHandle_fresh (h : Marked m s) {ch₀ : Channel}
    (hverifies : Verifies opener m bytes header body)
    (hid : m.channelAt header.channelId = some ch₀) (h₀ : ch₀.mark < WithBot.some header.msgId)
    (hfresh : ∀ n ∈ s.idsOn header.channelId, n < header.msgId) :
    (s.tryHandle opener bytes).2 = .handled ∧
      (s.tryHandle opener bytes).1.dispatched =
        s.dispatched ++ [⟨header.channelId, header.msgId, body⟩] := by
  obtain ⟨ch, hch, hcases⟩ := tryHandle_of_verifies ((verifies_congr h.keys).2 hverifies)
  have hlt : ch.mark < WithBot.some header.msgId := h.mark_lt hid hch h₀ hfresh
  rcases hcases with ⟨-, heq⟩ | ⟨hge, -⟩
  · rw [heq]
    exact ⟨rfl, rfl⟩
  · exact absurd hlt hge

end Inbound

def ChannelManager.after (calls : List ManagerCall) : ChannelManager :=
  calls.foldl (fun m call =>
    match call with
    | .insert ch => m.insert ch
    | .remove id => m.remove id) .new

theorem ChannelManager.keyed_after (calls : List ManagerCall) : (after calls).Keyed := by
  have hfold : ∀ m : ChannelManager, m.Keyed → (calls.foldl (fun m call =>
      match call with
      | .insert ch => m.insert ch
      | .remove id => m.remove id) m).Keyed := by
    induction calls with
    | nil => exact fun m hm => hm
    | cons call calls ih =>
      intro m hm
      refine ih _ ?_
      cases call with
      | insert ch => exact hm.insert ch
      | remove id => exact hm.remove id
  exact hfold _ keyed_new

/-- **Replay protection**: on every channel the dispatched ids are increasing, no frame is
dispatched twice, frames that do not verify change neither the state nor what becomes of the
others, and a frame that verifies with a fresh id is dispatched. -/
theorem Inbound.replay_protected (opener : Opener) (calls : List ManagerCall)
    (store : Option CounterStore) (inputs : List Bytes) :
    let m := after calls
    let s := (start m store).run opener inputs
    (∀ id, (s.idsOn id).Pairwise (· < ·)) ∧
      (s.dispatched.map fun d => (d.channelId, d.msgId)).Nodup ∧
      (∀ bytes, isAuthentic opener s.channels bytes = false → (s.tryHandle opener bytes).1 = s) ∧
      (start m store).run opener (inputs.filter (isAuthentic opener m)) = s ∧
      ∀ bytes header body ch₀, Verifies opener m bytes header body →
        m.channelAt header.channelId = some ch₀ → ch₀.mark < WithBot.some header.msgId →
        (∀ n ∈ s.idsOn header.channelId, n < header.msgId) →
        (s.tryHandle opener bytes).2 = .handled ∧
          (s.tryHandle opener bytes).1.dispatched =
            s.dispatched ++ [⟨header.channelId, header.msgId, body⟩] := by
  intro m s
  have hstart : Marked m (start m store) := marked_start (keyed_after calls) store
  have hs : Marked m s := hstart.run inputs
  exact ⟨hs.pairwise_idsOn, hs.nodup_dispatched, fun _ => tryHandle_of_not_authentic,
    hstart.run_filter inputs, fun _ _ _ _ hverifies hid h₀ hfresh =>
      hs.tryHandle_fresh hverifies hid h₀ hfresh⟩

end Idiom.Dcx
