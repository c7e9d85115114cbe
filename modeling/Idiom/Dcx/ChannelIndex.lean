import Idiom.Dcx.Channel
import Idiom.Lib.Run

/-!
# The three tables of `ChannelManager`

A channel is found by its id, by the DID of its peer and by the routing prefix of its peer.
`insert` overwrites three entries, `remove` deletes three entries; neither looks at what an
entry pointed to before.
-/

namespace Idiom.Dcx
namespace ChannelManager

open Function Option

/-! ## Calls -/

/-- Register a channel for lookup. -/
def insert (m : ChannelManager) (ch : Channel) : ChannelManager :=
  ((m.insertChannel ch).insertPeer ch).insertPrefix ch

/-- The channel that is live under an id. -/
def channelAt (m : ChannelManager) (channelId : Bytes) : Option Channel :=
  (m.byChannelId channelId).bind fun arc => m.arcs[arc]?

def remove (m : ChannelManager) (channelId : Bytes) : ChannelManager :=
  match m.channelAt channelId with
  | none => m
  | some ch => ((m.unregister channelId).removePeer ch).removePrefix ch

/-- Look up by channel id. -/
def getByChannelId (m : ChannelManager) (channelId : Bytes) : Option ℕ := m.byChannelId channelId

/-- Look up by peer DID. -/
def getByPeerDid (m : ChannelManager) (peerDid : String) : Option ℕ :=
  (m.byPeerDid peerDid).bind m.byChannelId

/-- Look up by routing prefix. -/
def getByRoutingPrefix (m : ChannelManager) (routingPrefix : Bytes) : Option ℕ :=
  (m.byRoutingPrefix routingPrefix).bind m.byChannelId

/-- Every arc in the first table holds a channel with that id. -/
def Keyed (m : ChannelManager) : Prop :=
  ∀ id arc, m.byChannelId id = some arc → ∃ ch, m.arcs[arc]? = some ch ∧ ch.channelId = id

/-- Every entry of the two indexes points to a live channel with that key. -/
structure IndexesAgree (m : ChannelManager) : Prop where
  peers : ∀ did id, m.byPeerDid did = some id → ∃ ch, m.channelAt id = some ch ∧ ch.peerDid = did
  routes : ∀ route id, m.byRoutingPrefix route = some id →
    ∃ ch, m.channelAt id = some ch ∧ ch.peerRoutingPrefix = route

/-! ## What a call does to the tables -/

variable {m : ChannelManager} {ch : Channel} {id : Bytes}

@[simp] theorem byPeerDid_insert (m : ChannelManager) (ch : Channel) :
    (m.insert ch).byPeerDid = update m.byPeerDid ch.peerDid (some ch.channelId) := rfl

theorem byChannelId_insert (m : ChannelManager) (ch : Channel) :
    (m.insert ch).byChannelId = update m.byChannelId ch.channelId (some m.arcs.length) :=
  rfl

theorem arcs_insert (m : ChannelManager) (ch : Channel) : (m.insert ch).arcs = m.arcs ++ [ch] := rfl

theorem channelAt_insert_self (m : ChannelManager) (ch : Channel) :
    (m.insert ch).channelAt ch.channelId = some ch := by
  simp [channelAt, byChannelId_insert, arcs_insert]

theorem channelAt_insert_of_ne (hm : m.Keyed) (hid : id ≠ ch.channelId) :
    (m.insert ch).channelAt id = m.channelAt id := by
  unfold channelAt
  rw [byChannelId_insert, arcs_insert, update_of_ne hid]
  cases harc : m.byChannelId id with
  | none => rfl
  | some arc =>
    obtain ⟨old, hold, -⟩ := hm id arc harc
    have hlt : arc < m.arcs.length := (List.getElem?_eq_some_iff.1 hold).1
    simp only [bind_some]
    rw [List.getElem?_append_left hlt]

theorem remove_of_dead (h : m.channelAt id = none) : m.remove id = m := by
  unfold remove
  rw [h]

theorem remove_of_live (h : m.channelAt id = some ch) :
    m.remove id = ((m.unregister id).removePeer ch).removePrefix ch := by
  unfold remove
  rw [h]

theorem channelAt_remove_of_ne {id' : Bytes} (hne : id' ≠ id) :
    (m.remove id).channelAt id' = m.channelAt id' := by
  cases h : m.channelAt id with
  | none => rw [remove_of_dead h]
  | some ch =>
    rw [remove_of_live h]
    simp [channelAt, unregister, removePeer, removePrefix, hne]

theorem keyed_new : Keyed new := by
  rintro id arc ⟨⟩

theorem Keyed.insert (hm : m.Keyed) (ch : Channel) : (m.insert ch).Keyed := by
  intro id arc harc
  rw [byChannelId_insert] at harc
  rw [arcs_insert]
  by_cases hid : id = ch.channelId
  · rw [hid, update_self] at harc
    cases harc
    exact ⟨ch, by simp, hid.symm⟩
  · rw [update_of_ne hid] at harc
    obtain ⟨old, hold, hkey⟩ := hm id arc harc
    have hlt : arc < m.arcs.length := (List.getElem?_eq_some_iff.1 hold).1
    exact ⟨old, by rw [List.getElem?_append_left hlt, hold], hkey⟩

theorem Keyed.remove (hm : m.Keyed) (id : Bytes) : (m.remove id).Keyed := by
  cases h : m.channelAt id with
  | none => rwa [remove_of_dead h]
  | some ch =>
    rw [remove_of_live h]
    intro id' arc harc
    by_cases hid : id' = id
    · simp [unregister, removePeer, removePrefix, hid] at harc
    · simp only [unregister, removePeer, removePrefix, update_of_ne hid] at harc
      exact hm id' arc harc

theorem Keyed.channelId_eq (hm : m.Keyed) (h : m.channelAt id = some ch) : ch.channelId = id := by
  obtain ⟨arc, harc, hch⟩ := bind_eq_some_iff.1 h
  obtain ⟨ch', hch', hkey⟩ := hm id arc harc
  rw [hch'] at hch
  exact some.inj hch ▸ hkey

theorem isSome_byChannelId (h : m.channelAt id = some ch) : (m.byChannelId id).isSome = true := by
  obtain ⟨arc, harc, -⟩ := bind_eq_some_iff.1 h
  rw [harc]
  rfl

/-! ## One index

Both indexes are handled alike: an entry is set by `insert` and deleted by `remove`. -/

section

variable {K : Type} [DecidableEq K] {entry : K → Option Bytes} {key : Channel → K}

/-- The entries of an index point to live channels with their key. -/
def IndexAgrees (m : ChannelManager) (entry : K → Option Bytes) (key : Channel → K) : Prop :=
  ∀ k id, entry k = some id → ∃ ch, m.channelAt id = some ch ∧ key ch = k

theorem IndexAgrees.insert (hm : m.Keyed) (h : IndexAgrees m entry key)
    (hkeeps : ∀ k, entry k = some ch.channelId → k = key ch) :
    IndexAgrees (m.insert ch) (update entry (key ch) (some ch.channelId)) key := by
  intro k id hk
  by_cases hkey : k = key ch
  · rw [hkey, update_self] at hk
    cases hk
    exact ⟨ch, channelAt_insert_self m ch, hkey.symm⟩
  · rw [update_of_ne hkey] at hk
    have hid : id ≠ ch.channelId := fun heq => hkey (hkeeps k (heq ▸ hk))
    rw [channelAt_insert_of_ne hm hid]
    exact h k id hk

theorem not_indexAgrees_insert {k : K} (hentry : entry k = some ch.channelId) (hk : k ≠ key ch) :
    ¬ IndexAgrees (m.insert ch) (update entry (key ch) (some ch.channelId)) key := by
  intro h
  obtain ⟨ch', hch', hkey⟩ := h k ch.channelId (by rw [update_of_ne hk, hentry])
  rw [channelAt_insert_self] at hch'
  exact hk (hkey ▸ some.inj hch' ▸ rfl)

theorem IndexAgrees.remove (h : IndexAgrees m entry key) (hlive : m.channelAt id = some ch) :
    IndexAgrees (m.remove id) (update entry (key ch) none) key := by
  intro k id' hk
  by_cases hkey : k = key ch
  · rw [hkey, update_self] at hk
    cases hk
  · rw [update_of_ne hkey] at hk
    obtain ⟨ch', hch', hkey'⟩ := h k id' hk
    have hid : id' ≠ id := by
      rintro rfl
      exact hkey (hkey' ▸ some.inj (hlive.symm.trans hch') ▸ rfl)
    exact ⟨ch', by rw [channelAt_remove_of_ne hid, hch'], hkey'⟩

end

theorem indexesAgree_iff : IndexesAgree m ↔
    IndexAgrees m m.byPeerDid Channel.peerDid ∧
      IndexAgrees m m.byRoutingPrefix Channel.peerRoutingPrefix :=
  ⟨fun h => ⟨h.peers, h.routes⟩, fun h => ⟨h.1, h.2⟩⟩

theorem IndexesAgree.insert (hm : m.Keyed) (h : m.IndexesAgree)
    (hpeers : ∀ did, m.byPeerDid did = some ch.channelId → did = ch.peerDid)
    (hroutes : ∀ route, m.byRoutingPrefix route = some ch.channelId →
      route = ch.peerRoutingPrefix) : (m.insert ch).IndexesAgree :=
  indexesAgree_iff.2 ⟨IndexAgrees.insert hm h.peers hpeers, IndexAgrees.insert hm h.routes hroutes⟩

theorem IndexesAgree.remove (h : m.IndexesAgree) (id : Bytes) : (m.remove id).IndexesAgree := by
  cases hlive : m.channelAt id with
  | none => rwa [remove_of_dead hlive]
  | some ch =>
    have hpeers := IndexAgrees.remove (m := m) h.peers hlive
    have hroutes := IndexAgrees.remove (m := m) h.routes hlive
    rw [remove_of_live hlive] at hpeers hroutes ⊢
    exact ⟨hpeers, hroutes⟩

end ChannelManager

open ChannelManager

/-! ## Runs -/

inductive ManagerCall where
  | insert (channel : Channel)
  | remove (channelId : Bytes)

/-- The manager, and for each peer the channel inserted last, unless it was removed. -/
structure Tracked where
  manager : ChannelManager
  latest : String → Option Bytes

namespace Tracked

def start : Tracked := ⟨.new, fun _ => none⟩

def step (s : Tracked) : ManagerCall → Option Tracked
  | .insert ch =>
    some ⟨s.manager.insert ch, Function.update s.latest ch.peerDid (some ch.channelId)⟩
  | .remove id =>
    some ⟨s.manager.remove id, fun did => if s.latest did = some id then none else s.latest did⟩

/-- The indexes point to live channels, and a peer whose last channel was not removed is
found. -/
structure Agree (s : Tracked) : Prop where
  indexes : s.manager.IndexesAgree
  found : ∀ did id, s.latest did = some id → (s.manager.getByPeerDid did).isSome = true

/-- No other key points to the id that is inserted; the peer's entry points to the channel
that is removed. -/
def Keeps (s : Tracked) : ManagerCall → Prop
  | .insert ch =>
    (∀ did, s.manager.byPeerDid did = some ch.channelId → did = ch.peerDid) ∧
      ∀ route, s.manager.byRoutingPrefix route = some ch.channelId → route = ch.peerRoutingPrefix
  | .remove id => ∀ ch, s.manager.channelAt id = some ch →
    ∀ id', s.manager.byPeerDid ch.peerDid = some id' → id' = id

/-- The invariant: the entry of a peer is its last channel. -/
structure Invariant (s : Tracked) : Prop where
  keyed : s.manager.Keyed
  indexes : s.manager.IndexesAgree
  latest : s.latest = s.manager.byPeerDid

theorem invariant_start : Invariant start where
  keyed := keyed_new
  indexes := ⟨by rintro did id ⟨⟩, by rintro route id ⟨⟩⟩
  latest := rfl

variable {s t : Tracked} {call : ManagerCall}

theorem Invariant.agree (h : Invariant s) : Agree s where
  indexes := h.indexes
  found did id hlatest := by
    rw [h.latest] at hlatest
    obtain ⟨ch, hch, -⟩ := h.indexes.peers did id hlatest
    unfold getByPeerDid
    rw [hlatest]
    exact isSome_byChannelId hch

theorem Invariant.step (h : Invariant s) (hkeeps : Keeps s call) (hstep : s.step call = some t) :
    Invariant t := by
  cases call with
  | insert ch =>
    cases hstep
    exact
      { keyed := h.keyed.insert ch
        indexes := h.indexes.insert h.keyed hkeeps.1 hkeeps.2
        latest := by simp only [h.latest, byPeerDid_insert] }
  | remove id =>
    cases hstep
    refine ⟨h.keyed.remove id, h.indexes.remove id, funext fun did => ?_⟩
    simp only [h.latest]
    cases hlive : s.manager.channelAt id with
    | none =>
      rw [remove_of_dead hlive, if_neg]
      intro hentry
      obtain ⟨ch, hch, -⟩ := h.indexes.peers did id hentry
      rw [hlive] at hch
      cases hch
    | some ch =>
      rw [remove_of_live hlive]
      simp only [unregister, removePeer, removePrefix]
      by_cases hdid : did = ch.peerDid
      · subst hdid
        rw [Function.update_self]
        cases hentry : s.manager.byPeerDid ch.peerDid with
        | none => rfl
        | some id' => rw [hkeeps ch hlive id' hentry, if_pos rfl]
      · rw [Function.update_of_ne hdid, if_neg]
        intro hentry
        obtain ⟨ch', hch', hpeer⟩ := h.indexes.peers did id hentry
        exact hdid (hpeer ▸ Option.some.inj (hlive.symm.trans hch') ▸ rfl)

theorem Invariant.not_agree (h : Invariant s) (hbad : ¬ Keeps s call) :
    ∃ t, s.step call = some t ∧ ¬ Agree t := by
  cases call with
  | insert ch =>
    refine ⟨_, rfl, fun hagree => ?_⟩
    simp only [Keeps, not_and_or, not_forall] at hbad
    rcases hbad with ⟨did, hentry, hdid⟩ | ⟨route, hentry, hroute⟩
    · exact not_indexAgrees_insert hentry hdid hagree.indexes.peers
    · exact not_indexAgrees_insert hentry hroute hagree.indexes.routes
  | remove id =>
    refine ⟨_, rfl, fun hagree => ?_⟩
    simp only [Keeps, not_forall] at hbad
    obtain ⟨ch, hlive, id', hentry, hid⟩ := hbad
    have hlatest : s.latest ch.peerDid = some id' := by rw [h.latest, hentry]
    have hfound := hagree.found ch.peerDid id' (by simp [hlatest, hid])
    simp [getByPeerDid, remove_of_live hlive, removePeer, removePrefix] at hfound

/-- **The tables agree in every state of a run exactly when every call meets the
condition.** -/
theorem agree_iff (calls : List ManagerCall) :
    (∀ s, Run.Visits step start calls s → Agree s) ↔ Run.Along step Keeps start calls :=
  Run.visits_iff_along_of_invariant (fun _ _ _ h hkeeps hstep => h.step hkeeps hstep)
    (fun _ h => h.agree) (fun _ _ h hbad => h.not_agree hbad) invariant_start

def Sample.channel (peerDid : String) (generation : ℕ) (n : UInt8) : Channel where
  channelId := List.replicate 16 n
  connectionId := "conn-1"
  peerDid := peerDid
  peerKid := peerDid ++ "#key-1"
  peerRoutingPrefix := List.replicate 16 7
  providerId := "classical-x25519/1.0"
  generation := generation
  kSend := List.replicate 32 1
  kRecv := List.replicate 32 2
  authKey := List.replicate 32 3
  msgIdSend := 0
  sendReserved := 0
  msgIdRecv := 0
  receivedAny := false
  state := .activeUnconfirmed

/-- A channel is rotated, and the old one is removed. -/
def Sample.rotation : List ManagerCall :=
  [.insert (Sample.channel "did:bob" 0 0), .insert (Sample.channel "did:bob" 1 1),
    .remove (Sample.channel "did:bob" 0 0).channelId]

/-- After the rotation the new channel is live, and its peer is not found. -/
theorem agree_fails_rotation :
    ∃ s, Run.Visits step start Sample.rotation s ∧
      s.latest "did:bob" = some (Sample.channel "did:bob" 1 1).channelId ∧
      s.manager.getByPeerDid "did:bob" = none ∧ ¬ Agree s := by
  refine ⟨_, Run.Visits.of_exec rfl, rfl, rfl, fun hagree => ?_⟩
  have hfound := hagree.found "did:bob" (Sample.channel "did:bob" 1 1).channelId rfl
  cases hfound

end Tracked
end Idiom.Dcx
