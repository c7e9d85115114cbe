import Idiom.Ajna.Sync
import Idiom.Lib.Network

/-!
# Runs of the synchronization

Any number of nodes announce, fetch and push over a `Net`. What a node knows is kept
twice: the filter decides what it asks for, the DAGs what it can serve. `handlePush`
writes to the filter only.
-/

namespace Idiom.Ajna

open SyncProtocol List Option MerkleDAG Net OpBundle Run

/-- The three messages. -/
inductive SyncMessage where
  | announce (message : AnnounceMessage)
  | fetch (message : FetchMessage)
  | push (message : PushMessage)

/-- A node, with the pushes its `handlePush` has returned `Ok` for. -/
structure Peer where
  sync : SyncProtocol
  accepted : List PushMessage

namespace Peer

/-- A node announces a DID; nothing is sent on an error. -/
def act (host : SyncHost) (peer : Peer) (input : SyncAmbient × String) : Peer × List SyncMessage :=
  match peer.sync.announceToPeer host input.1 input.2 with
  | .error _ => (peer, [])
  | .ok message => (peer, [.announce message])

/-- A node handles a message, from the peer of the given name, and sends its answer. -/
def handle (host : SyncHost) (peer : Peer) (message : SyncMessage) (input : SyncAmbient × String) :
    Peer × List SyncMessage :=
  match message with
  | .announce message =>
    let result := peer.sync.handleAnnounce host input.1 message input.2
    ({ peer with sync := result.1 },
      match result.2 with
      | .ok (some fetch) => [.fetch fetch]
      | _ => [])
  | .fetch message =>
    (peer,
      match peer.sync.handleFetch host input.1 message with
      | .ok push => [.push push]
      | .error _ => [])
  | .push message =>
    let result := peer.sync.handlePush host message
    (⟨result.1,
      match result.2 with
      | .ok _ => peer.accepted ++ [message]
      | .error _ => peer.accepted⟩, [])

theorem handle_announce_of_request {host : SyncHost} (peer : Peer) (input : SyncAmbient × String)
    {message : AnnounceMessage} {fetch : FetchMessage}
    (h : (peer.sync.handleAnnounce host input.1 message input.2).2 = .ok (some fetch)) :
    peer.handle host (.announce message) input =
      ({ peer with sync := (peer.sync.handleAnnounce host input.1 message input.2).1 },
        [.fetch fetch]) := by
  simp only [handle, h]

theorem handle_fetch_of_ok {host : SyncHost} (peer : Peer) (input : SyncAmbient × String)
    {message : FetchMessage} {push : PushMessage}
    (h : peer.sync.handleFetch host input.1 message = .ok push) :
    peer.handle host (.fetch message) input = (peer, [.push push]) := by
  simp only [handle, h]

theorem handle_push_of_ok {host : SyncHost} (peer : Peer) (input : SyncAmbient × String)
    {message : PushMessage} {n : ℕ} (h : (peer.sync.handlePush host message).2 = .ok n) :
    peer.handle host (.push message) input =
      (⟨(peer.sync.handlePush host message).1, peer.accepted ++ [message]⟩, []) := by
  simp only [handle, h]

end Peer

open Peer

/-- Nodes that synchronize. -/
abbrev SyncNet (ι : Type) := Net ι Peer SyncMessage

/-- An announcement by a node, or the delivery of a message to one. -/
abbrev SyncEvent (ι : Type) := Event ι (SyncAmbient × String) (SyncAmbient × String)

/-- One event of the network. -/
abbrev syncStep {ι : Type} [DecidableEq ι] (host : SyncHost) (net : SyncNet ι)
    (event : SyncEvent ι) : Option (SyncNet ι) :=
  net.step (act host) (handle host) event

/-- Nothing was sent or accepted yet, and every node is new or made from a DAG. -/
structure Fresh {ι : Type} (net : SyncNet ι) : Prop where
  wire : net.wire = []
  accepted : ∀ node, (net.nodes node).accepted = []
  nodes : ∀ node, (∃ amb, (net.nodes node).sync = .new amb) ∨
    ∃ amb dag did, (net.nodes node).sync = .fromDag amb dag did

/-! ## The property -/

/-- The answer is a bundle with the operation; only its size or the serializer may stand
in the way. -/
def Answers (host : SyncHost) (op : Operation) : Except AjnaError PushMessage → Prop
  | .ok push => ∃ bundle, host.toVec bundle = .ok push.bundle ∧ op ∈ bundle.operations
  | .error (.bundleTooLarge _ _) => True
  | .error (.serializationError _) => True
  | .error _ => False

/-- The operation can be served by `handleFetch`. -/
structure Serves (host : SyncHost) (sync : SyncProtocol) (doc : String) (op : Operation) :
    Prop where
  /-- It is among the operations gathered for its id. -/
  gathered : ∃ dag, sync.dags.lookup doc = some dag ∧ ∀ amb, op ∈ requestedOps amb dag [op.opId]
  /-- A request for its id is answered with it. -/
  answered : ∀ amb maxBundleSize, Answers host op
    (sync.handleFetch host amb ⟨"bh/opsync/1.0/fetch", doc, [op.opId], maxBundleSize⟩)

def Peer.ServesAccepted (host : SyncHost) (peer : Peer) : Prop :=
  ∀ push ∈ peer.accepted, ∀ bundle, host.fromSlice push.bundle = .ok bundle →
    ∀ op ∈ bundle.operations, Serves host peer.sync push.doc op

/-- A tip of the announcement that the node would not ask for is in its DAG. -/
def Peer.HasUnrequested (host : SyncHost) (peer : Peer) (message : AnnounceMessage) : Prop :=
  ∀ amb peerDid answer, (peer.sync.handleAnnounce host amb message peerDid).2 = .ok answer →
    ∀ tip ∈ message.tips, tip ∉ (answer.map FetchMessage.opIds).getD [] →
      ∃ dag node op, peer.sync.dags.lookup message.doc = some dag ∧ dag.Contains node ∧
        node.getOperationV2 = some op ∧ op.opId = tip

/-- No operation is forgotten. -/
structure Remembers {ι : Type} (host : SyncHost) (net : SyncNet ι) : Prop where
  served : ∀ node, (net.nodes node).ServesAccepted host
  kept : ∀ node message, .announce message ∈ net.wire → (net.nodes node).HasUnrequested host message

/-- No state of the run has forgotten an operation. -/
def RunRemembers {ι : Type} [DecidableEq ι] (host : SyncHost) (start : SyncNet ι)
    (events : List (SyncEvent ι)) : Prop :=
  ∀ net, Visits (syncStep host) start events net → Remembers host net

/-- The filters give no false positive on an announced tip. -/
def ExactOnTips {ι : Type} (host : SyncHost) (net : SyncNet ι) : Prop :=
  ∀ node message, .announce message ∈ net.wire → ∀ tip ∈ message.tips,
    (net.nodes node).sync.bloom.contains host (asBytes tip) = true →
      asBytes tip ∈ (net.nodes node).sync.bloom.inner.inserted

/-! ## Serving -/

variable {host : SyncHost} {sync : SyncProtocol}

theorem serves_iff {doc : String} {op : Operation} :
    Serves host sync doc op ↔ ∃ dag, sync.dags.lookup doc = some dag ∧ dag.Listed op := by
  constructor
  · rintro ⟨⟨dag, hdag, hmem⟩, -⟩
    exact ⟨dag, hdag, (mem_requestedOps.1 (hmem ⟨IterOrder.some, 0, 0⟩)).1⟩
  · rintro ⟨dag, hdag, hlisted⟩
    have hmem : ∀ amb, op ∈ requestedOps amb dag [op.opId] := fun amb =>
      mem_requestedOps.2 ⟨hlisted, List.mem_singleton_self _⟩
    refine ⟨⟨dag, hdag, hmem⟩, fun amb maxBundleSize => ?_⟩
    have hsome := List.ne_nil_of_mem (hmem amb)
    cases hvec : host.toVec (.assemble host amb.now doc (requestedOps amb dag [op.opId])) with
    | error e =>
      unfold handleFetch create toBytes
      simp only [getDag_eq_ok_iff.2 hdag, List.isEmpty_iff, if_neg hsome, hvec]
      trivial
    | ok bytes =>
      rw [handleFetch_eq _ hdag hvec, if_neg hsome]
      split
      · trivial
      · exact ⟨_, hvec, hmem amb⟩

theorem handleFetch_ok {amb : SyncAmbient} {message : FetchMessage} {push : PushMessage}
    (h : sync.handleFetch host amb message = .ok push) :
    ∃ bundle, host.toVec bundle = .ok push.bundle ∧ bundle.operations ≠ [] := by
  cases hdag : sync.dags.lookup message.doc with
  | none =>
    unfold handleFetch getDag at h
    simp [hdag] at h
  | some dag =>
    cases hvec : host.toVec (.assemble host amb.now message.doc
        (requestedOps amb dag message.opIds)) with
    | error e =>
      unfold handleFetch create toBytes at h
      simp only [getDag_eq_ok_iff.2 hdag, hvec] at h
      split at h <;> cases h
    | ok bytes =>
      rw [handleFetch_eq _ hdag hvec] at h
      split_ifs at h with hnone
      cases h
      exact ⟨_, hvec, hnone⟩

/-! ## Pushing -/

theorem foldl_registerOperation (ops : List Operation) (sync : SyncProtocol) :
    ops.foldl registerOperation sync = { sync with
      bloom := ops.foldl (fun bloom op => bloom.insert (asBytes op.opId)) sync.bloom } := by
  induction ops generalizing sync with
  | nil => rfl
  | cons op ops ih => exact ih _

variable {message : PushMessage}

theorem handlePush_of_valid (sync : SyncProtocol) {bundle : OpBundle}
    (hread : host.fromSlice message.bundle = .ok bundle) (hvalid : bundle.validate host = .ok ()) :
    (sync.handlePush host message).1.dags = (sync.getOrCreateDag message.doc).dags ∧
      (sync.handlePush host message).1.bloom.inner.inserted =
        sync.bloom.inner.inserted ++ (bundle.operations.map fun op => asBytes op.opId) ∧
      ∃ n, (sync.handlePush host message).2 = .ok n := by
  have hbloom : (sync.getOrCreateDag message.doc).bloom = sync.bloom := by
    unfold getOrCreateDag
    split <;> rfl
  unfold handlePush fromBytes
  simp only [hread, Except.mapError, hvalid, foldl_registerOperation, BloomFilter.foldl_insert,
    hbloom]
  exact ⟨trivial, trivial, _, rfl⟩

theorem handlePush_of_not_valid (sync : SyncProtocol)
    (h : ¬ ∃ bundle, host.fromSlice message.bundle = .ok bundle ∧ bundle.validate host = .ok ()) :
    ∃ e, sync.handlePush host message = (sync, .error e) := by
  unfold handlePush fromBytes
  cases hread : host.fromSlice message.bundle with
  | error e => exact ⟨_, rfl⟩
  | ok bundle =>
    cases hvalid : bundle.validate host with
    | error e => exact ⟨e, by simp only [Except.mapError, hvalid]⟩
    | ok u => exact absurd ⟨bundle, hread, hvalid⟩ h

theorem getOrCreateDag_of_lookup {did : String} {dag : MerkleDAG}
    (h : sync.dags.lookup did = some dag) : sync.getOrCreateDag did = sync := by
  simp [getOrCreateDag, h]

theorem lookup_getOrCreateDag_of_none {did : String} (h : sync.dags.lookup did = none) :
    (sync.getOrCreateDag did).dags.lookup did = some MerkleDAG.new := by
  simp only [getOrCreateDag, h]
  exact Finmap.lookup_insert _

theorem not_listed_new (op : Operation) : ¬ MerkleDAG.new.Listed op := by
  rintro ⟨hash, node, -, hlook, -⟩
  simp [MerkleDAG.new] at hlook

/-! ## Announcing -/

theorem handleAnnounce_fst (host : SyncHost) (sync : SyncProtocol) (amb : SyncAmbient)
    (message : AnnounceMessage) (peerDid : String) :
    (sync.handleAnnounce host amb message peerDid).1.bloom = sync.bloom ∧
      (sync.handleAnnounce host amb message peerDid).1.dags = sync.dags := by
  unfold handleAnnounce
  split
  · exact ⟨rfl, rfl⟩
  · split
    · exact ⟨rfl, rfl⟩
    · split
      · exact ⟨rfl, rfl⟩
      · dsimp only
        split <;> exact ⟨rfl, rfl⟩

theorem handleAnnounce_ok {amb : SyncAmbient} {message : AnnounceMessage} {peerDid : String}
    {answer : Option FetchMessage}
    (h : (sync.handleAnnounce host amb message peerDid).2 = .ok answer) :
    (∃ dag, sync.dags.lookup message.doc = some dag) ∧
      (answer.map FetchMessage.opIds).getD [] = sync.findMissingFromTips host message.tips := by
  cases hdecode : host.decode64 message.bloom with
  | error e => simp [handleAnnounce, hdecode] at h
  | ok bytes =>
    cases hbloom : BloomFilter.fromBytes amb.seed bytes with
    | error e => simp [handleAnnounce, hdecode, hbloom] at h
    | ok peerBloom =>
      cases hdag : sync.dags.lookup message.doc with
      | none => simp [handleAnnounce, hdecode, hbloom, findMissingOps, getDag, hdag,
          Except.map] at h
      | some dag =>
        rw [handleAnnounce_of_lookup hdecode hbloom hdag] at h
        refine ⟨⟨dag, rfl⟩, ?_⟩
        rw [← Except.ok.inj h]
        split
        · next hnone => simp [hnone]
        · rfl

/-! ## The invariant -/

namespace Peer

/-- Filter and DAGs say the same, and what was accepted is listed. -/
structure Agrees (host : SyncHost) (peer : Peer) : Prop where
  /-- What the filter was given, every DAG lists. -/
  noted : ∀ id ∈ peer.sync.bloom.inner.inserted, ∀ doc dag, peer.sync.dags.lookup doc = some dag →
    ∃ op, dag.Listed op ∧ asBytes op.opId = id
  /-- What a DAG lists, the filter was given. -/
  known : ∀ doc dag op, peer.sync.dags.lookup doc = some dag → dag.Listed op →
    asBytes op.opId ∈ peer.sync.bloom.inner.inserted
  accepted : ∀ push ∈ peer.accepted, ∀ bundle, host.fromSlice push.bundle = .ok bundle →
    ∀ op ∈ bundle.operations, ∃ dag, peer.sync.dags.lookup push.doc = some dag ∧ dag.Listed op

theorem agrees_new (host : SyncHost) (amb : SyncAmbient) : Agrees host ⟨.new amb, []⟩ where
  noted id hid := by cases hid
  known doc dag op hdag := by simp [SyncProtocol.new] at hdag
  accepted push hpush := by cases hpush

theorem agrees_fromDag (host : SyncHost) (amb : SyncAmbient) (dag : MerkleDAG) (did : String) :
    Agrees host ⟨.fromDag amb dag did, []⟩ := by
  have hlook : ∀ doc d, (SyncProtocol.fromDag amb dag did).dags.lookup doc = some d → d = dag := by
    intro doc d h
    rw [show (SyncProtocol.fromDag amb dag did).dags = (∅ : FMap String MerkleDAG).insert did dag
      from rfl, FMap.lookup_insert_ite] at h
    split at h
    · exact (some.inj h).symm
    · simp at h
  refine ⟨fun id hid doc d hd => ?_, fun doc d op hd hop => ?_, fun push hpush => nomatch hpush⟩
  · rw [bloom_fromDag] at hid
    obtain ⟨op, hop, rfl⟩ := mem_map.1 hid
    rw [hlook doc d hd]
    exact ⟨op, (mem_getAllOperationsV2 _).1 hop, rfl⟩
  · rw [bloom_fromDag]
    rw [hlook doc d hd] at hop
    exact mem_map.2 ⟨op, (mem_getAllOperationsV2 _).2 hop, rfl⟩

theorem Agrees.congr {peer peer' : Peer} (h : peer.Agrees host)
    (hbloom : peer'.sync.bloom = peer.sync.bloom) (hdags : peer'.sync.dags = peer.sync.dags)
    (haccepted : peer'.accepted = peer.accepted) : peer'.Agrees host := by
  refine ⟨?_, ?_, ?_⟩
  · rw [hbloom, hdags]
    exact h.noted
  · rw [hbloom, hdags]
    exact h.known
  · rw [haccepted, hdags]
    exact h.accepted

/-- Every operation of the bundle, if it is valid, is listed by the node's DAG for the
DID. -/
def PushKnown (host : SyncHost) (peer : Peer) : SyncMessage → Prop
  | .push message => ∀ bundle, host.fromSlice message.bundle = .ok bundle →
    bundle.validate host = .ok () → ∃ dag, peer.sync.dags.lookup message.doc = some dag ∧
      ∀ op ∈ bundle.operations, dag.Listed op
  | _ => True

theorem Agrees.push {peer : Peer} (h : peer.Agrees host)
    (hknown : peer.PushKnown host (.push message)) (input : SyncAmbient × String) :
    (peer.handle host (.push message) input).1.Agrees host := by
  by_cases hvalid : ∃ bundle, host.fromSlice message.bundle = .ok bundle ∧
      bundle.validate host = .ok ()
  · obtain ⟨bundle, hread, hvalid⟩ := hvalid
    obtain ⟨dag, hdag, hlisted⟩ := hknown bundle hread hvalid
    obtain ⟨hdags, hinserted, n, hok⟩ := handlePush_of_valid peer.sync hread hvalid
    rw [getOrCreateDag_of_lookup hdag] at hdags
    rw [handle_push_of_ok peer input hok]
    refine ⟨fun id hid => ?_, fun doc d op hd hop => ?_, fun push hpush b hb op hop => ?_⟩
    · -- the filter learns nothing new
      rw [hdags]
      rw [hinserted] at hid
      rcases mem_append.1 hid with hold | hnew
      · exact h.noted id hold
      · obtain ⟨op, hop, rfl⟩ := mem_map.1 hnew
        exact h.noted _ (h.known message.doc dag op hdag (hlisted op hop))
    · rw [hdags] at hd
      rw [hinserted]
      exact mem_append_left _ (h.known doc d op hd hop)
    · rw [hdags]
      rcases mem_append.1 hpush with hold | hnew
      · exact h.accepted push hold b hb op hop
      · obtain rfl := mem_singleton.1 hnew
        obtain rfl := Except.ok.inj (hb.symm.trans hread)
        exact ⟨dag, hdag, hlisted op hop⟩
  · obtain ⟨e, he⟩ := handlePush_of_not_valid peer.sync hvalid
    refine h.congr ?_ ?_ ?_ <;> simp only [handle, he]

end Peer

variable {peer : Peer}

theorem Peer.Agrees.handle (h : peer.Agrees host) {message : SyncMessage}
    (hknown : peer.PushKnown host message) (input : SyncAmbient × String) :
    (peer.handle host message input).1.Agrees host := by
  cases message with
  | announce message =>
    obtain ⟨hbloom, hdags⟩ := handleAnnounce_fst host peer.sync input.1 message input.2
    exact h.congr hbloom hdags rfl
  | fetch message => exact h
  | push message => exact h.push hknown input

theorem Peer.Agrees.act (h : peer.Agrees host) (input : SyncAmbient × String) :
    (peer.act host input).1.Agrees host := by
  unfold Peer.act
  split <;> exact h

/-- What is read of a push on the wire is not empty. -/
def SyncMessage.Carries (host : SyncHost) : SyncMessage → Prop
  | .push message => ∀ bundle, host.fromSlice message.bundle = .ok bundle → bundle.operations ≠ []
  | _ => True

theorem Peer.carries_act (peer : Peer) (input : SyncAmbient × String) :
    ∀ message ∈ (peer.act host input).2, message.Carries host := by
  intro message hmem
  unfold act at hmem
  split at hmem
  · cases hmem
  · rw [mem_singleton.1 hmem]
    trivial

theorem Peer.carries_handle (hcodec : host.Lossless) (peer : Peer) (message : SyncMessage)
    (input : SyncAmbient × String) :
    ∀ reply ∈ (peer.handle host message input).2, reply.Carries host := by
  intro reply hreply
  cases message with
  | announce message =>
    simp only [handle] at hreply
    split at hreply
    · rw [mem_singleton.1 hreply]
      trivial
    · cases hreply
  | fetch message =>
    simp only [handle] at hreply
    split at hreply
    · next push hok =>
      obtain ⟨bundle, hvec, hsome⟩ := handleFetch_ok hok
      rw [mem_singleton.1 hreply]
      intro bundle' hread hnone
      have hlength := hcodec bundle _ bundle' hvec hread
      rw [hnone] at hlength
      exact hsome (length_eq_zero_iff.1 hlength.symm)
    · cases hreply
  | push message => cases hreply

/-! ## What the invariant gives -/

theorem Peer.Agrees.servesAccepted (h : peer.Agrees host) :
    peer.ServesAccepted host := fun push hpush bundle hbundle op hop =>
  serves_iff.2 (h.accepted push hpush bundle hbundle op hop)

theorem Peer.Agrees.hasUnrequested (h : peer.Agrees host) {message : AnnounceMessage}
    (hexact : ∀ tip ∈ message.tips, peer.sync.bloom.contains host (asBytes tip) = true →
      asBytes tip ∈ peer.sync.bloom.inner.inserted) : peer.HasUnrequested host message := by
  intro amb peerDid answer hanswer tip htip hunrequested
  obtain ⟨⟨dag, hdag⟩, hmissing⟩ := handleAnnounce_ok hanswer
  rw [hmissing] at hunrequested
  have hcontains : peer.sync.bloom.contains host (asBytes tip) = true := by
    by_contra hnot
    refine hunrequested (mem_filter.2 ⟨htip, ?_⟩)
    simpa using hnot
  obtain ⟨op, hlisted, hid⟩ := h.noted _ (hexact tip htip hcontains) message.doc dag hdag
  obtain ⟨hash, node, -, hlook, hop⟩ := hlisted
  exact ⟨dag, node, op, hdag, ⟨hash, hlook⟩, hop, asBytes_injective hid⟩

section

variable {ι : Type} [DecidableEq ι] {net : SyncNet ι}

omit [DecidableEq ι] in
theorem everywhere_fresh (h : Fresh net) (Q : SyncMessage → Prop) :
    net.Everywhere (Agrees host) Q := by
  refine ⟨fun node => ?_, fun message hmem => ?_⟩
  · have haccepted := h.accepted node
    rcases h.nodes node with ⟨amb, hsync⟩ | ⟨amb, dag, did, hsync⟩
    · refine (agrees_new host amb).congr ?_ ?_ haccepted <;> rw [hsync]
    · refine (agrees_fromDag host amb dag did).congr ?_ ?_ haccepted <;> rw [hsync]
  · rw [h.wire] at hmem
    cases hmem

variable {event : SyncEvent ι}

theorem agrees_syncStep {net' : SyncNet ι} (h : net.Everywhere (Agrees host) fun _ => True)
    (hknown : net.Allowed (PushKnown host) event) (hstep : syncStep host net event = some net') :
    net'.Everywhere (Agrees host) fun _ => True :=
  everywhere_step (fun _ input hpeer => ⟨hpeer.act input, fun _ _ => trivial⟩)
    (fun _ _ input hpeer _ hmessage => ⟨hpeer.handle hmessage input, fun _ _ => trivial⟩) h hknown
    hstep

theorem carries_syncStep (hcodec : host.Lossless) {net' : SyncNet ι}
    (h : net.Everywhere (Agrees host) (SyncMessage.Carries host))
    (hknown : net.Allowed (PushKnown host) event) (hstep : syncStep host net event = some net') :
    net'.Everywhere (Agrees host) (SyncMessage.Carries host) :=
  everywhere_step (fun peer input hpeer => ⟨hpeer.act input, peer.carries_act input⟩)
    (fun peer message input hpeer _ hmessage =>
      ⟨hpeer.handle hmessage input, peer.carries_handle hcodec message input⟩) h hknown hstep

theorem Peer.pushKnown_of_servesAccepted {peer : Peer} {input : SyncAmbient × String}
    (hcarries : (SyncMessage.push message).Carries host)
    (hserves : (peer.handle host (.push message) input).1.ServesAccepted host) :
    peer.PushKnown host (.push message) := by
  intro bundle hread hvalid
  have hsome := hcarries bundle hread
  obtain ⟨hdags, -, n, hok⟩ := handlePush_of_valid peer.sync hread hvalid
  rw [handle_push_of_ok _ _ hok] at hserves
  have hlisted : ∀ op ∈ bundle.operations, ∃ dag,
      (peer.sync.getOrCreateDag message.doc).dags.lookup message.doc = some dag ∧
        dag.Listed op := by
    intro op hop
    rw [← hdags]
    exact serves_iff.1 (hserves message (mem_append_right _ (mem_singleton_self _))
      bundle hread op hop)
  cases hdag : peer.sync.dags.lookup message.doc with
  | some dag =>
    refine ⟨dag, rfl, fun op hop => ?_⟩
    obtain ⟨dag', hdag', hop'⟩ := hlisted op hop
    rw [getOrCreateDag_of_lookup hdag, hdag] at hdag'
    exact some.inj hdag' ▸ hop'
  | none =>
    -- the DAG that was created is empty
    obtain ⟨op, hop⟩ := exists_mem_of_ne_nil _ hsome
    obtain ⟨dag', hdag', hop'⟩ := hlisted op hop
    rw [lookup_getOrCreateDag_of_none hdag] at hdag'
    exact absurd (some.inj hdag' ▸ hop') (not_listed_new op)

theorem not_servesAccepted_of_unknown (h : net.Everywhere (Agrees host) (SyncMessage.Carries host))
    (hunknown : ¬ net.Allowed (PushKnown host) event) :
    ∃ net', syncStep host net event = some net' ∧
      ∃ node, ¬ (net'.nodes node).ServesAccepted host := by
  cases event with
  | act node input => exact absurd trivial hunknown
  | deliver node index input =>
    simp only [Allowed, not_forall] at hunknown
    obtain ⟨message, hwire, hunknown⟩ := hunknown
    refine ⟨_, step_deliver hwire, node, fun hserves => ?_⟩
    cases message with
    | announce message | fetch message => exact hunknown trivial
    | push message =>
      rw [nodes_put_self] at hserves
      exact hunknown (pushKnown_of_servesAccepted (h.wire _ (mem_of_getElem? hwire)) hserves)

end

/-- **A run of announcements, fetches and pushes, in any order, with duplicates and
losses, forgets no operation if every push that is accepted brings only operations that
the node's DAG for the DID lists already; and, if no operation is lost between the codec's
two ends, only if.** -/
theorem remembers_iff {ι : Type} [DecidableEq ι] (host : SyncHost) (start : SyncNet ι)
    (hstart : Fresh start) (events : List (SyncEvent ι))
    (hexact : ∀ net, Visits (syncStep host) start events net → ExactOnTips host net) :
    (Along (syncStep host) (Allowed (PushKnown host)) start events →
      RunRemembers host start events) ∧
    (host.Lossless → RunRemembers host start events →
      Along (syncStep host) (Allowed (PushKnown host)) start events) := by
  constructor
  · intro halong net hnet
    have hagrees := hnet.invariant_along
      (fun _ _ _ h hknown hstep => agrees_syncStep h hknown hstep)
      (everywhere_fresh hstart fun _ => True) halong
    exact ⟨fun node => (hagrees.nodes node).servesAccepted, fun node message hmem =>
      (hagrees.nodes node).hasUnrequested (hexact net hnet node message hmem)⟩
  · intro hcodec hremembers
    refine (visits_iff_along_of_invariant
      (P := fun net : SyncNet ι => ∀ node, (net.nodes node).ServesAccepted host)
      (fun _ _ _ h hknown hstep => carries_syncStep hcodec h hknown hstep)
      (fun net h node => (h.nodes node).servesAccepted) (fun net event h hunknown => ?_)
      (everywhere_fresh hstart _)).1 fun net hnet => (hremembers net hnet).served
    obtain ⟨net', hstep, node, hnot⟩ := not_servesAccepted_of_unknown h hunknown
    exact ⟨net', hstep, fun hall => hnot (hall node)⟩

/-! ## Two nodes -/

namespace Sample

noncomputable def firstPush : PushMessage := ⟨"bh/opsync/1.0/push", did, bytesOf firstBundle⟩

/-- The node that has an operation and the node that has none. -/
noncomputable def startNet : SyncNet Bool where
  nodes node := if node then ⟨firstSync.nodeA, []⟩ else ⟨firstSync.nodeB, []⟩
  wire := []

/-- The first node has announced. -/
noncomputable def announcedNet : SyncNet Bool where
  nodes := startNet.nodes
  wire := [.announce (firstSync.announcement syncHost)]

/-- The second node, once it has heard the announcement. -/
noncomputable def heardNode : Peer :=
  ⟨(firstSync.nodeB.handleAnnounce syncHost syncAmbient (firstSync.announcement syncHost)
    "did:ajna:peer").1, []⟩

/-- The second node has asked for the tip. -/
noncomputable def requestedNet : SyncNet Bool where
  nodes node := if node then ⟨firstSync.nodeA, []⟩ else heardNode
  wire := [.announce (firstSync.announcement syncHost), .fetch (firstSync.request syncHost)]

/-- The first node has answered. -/
noncomputable def pushedNet : SyncNet Bool where
  nodes := requestedNet.nodes
  wire := [.announce (firstSync.announcement syncHost), .fetch (firstSync.request syncHost),
    .push firstPush]

theorem fresh_startNet : Fresh startNet where
  wire := rfl
  accepted node := by cases node <;> rfl
  nodes node := by cases node <;> exact .inr ⟨_, _, _, rfl⟩

theorem step_announce :
    syncStep syncHost startNet (.act true (syncAmbient, did)) = some announcedNet := by
  show some (startNet.put true _) = _
  refine congrArg some (Net.ext ?_ rfl)
  exact Function.update_eq_self _ _

theorem step_request :
    syncStep syncHost announcedNet (.deliver false 0 (syncAmbient, "did:ajna:peer")) =
      some requestedNet := by
  have hanswer := firstSync.handleAnnounce_nodeB decode64_firstSync
  rw [missingTips_firstSync] at hanswer
  have hhandle := handle_announce_of_request (announcedNet.nodes false)
    (syncAmbient, "did:ajna:peer") hanswer
  rw [syncStep, Net.step_deliver (show announcedNet.wire[0]? = some _ from rfl), hhandle]
  refine congrArg some (Net.ext (funext fun node => ?_) rfl)
  cases node <;> rfl

theorem step_push :
    syncStep syncHost requestedNet (.deliver true 1 (syncAmbient, "did:ajna:bob")) =
      some pushedNet := by
  have hvec : syncHost.toVec (firstSync.bundle syncHost) = .ok (bytesOf firstBundle) := by
    rw [bundle_firstSync]
    rfl
  have hfetch := firstSync.handleFetch_nodeA hvec
  rw [served_firstSync, if_neg (cons_ne_nil _ _), if_neg (show ¬ maxBundleSize <
    (bytesOf firstBundle).length by decide +kernel)] at hfetch
  have hhandle := handle_fetch_of_ok (requestedNet.nodes true) (syncAmbient, "did:ajna:bob") hfetch
  rw [syncStep, Net.step_deliver (show requestedNet.wire[1]? = some _ from rfl), hhandle]
  refine congrArg some (Net.ext ?_ rfl)
  exact Function.update_eq_self _ _

/-- The first node announces, the second asks, the first answers. -/
noncomputable def untilPush : List (SyncEvent Bool) :=
  [.act true (syncAmbient, did), .deliver false 0 (syncAmbient, "did:ajna:peer"),
    .deliver true 1 (syncAmbient, "did:ajna:bob")]

theorem exec_untilPush : exec (syncStep syncHost) startNet untilPush = some pushedNet :=
  exec_cons_eq_some.2 ⟨_, step_announce, exec_cons_eq_some.2 ⟨_, step_request,
    exec_cons_eq_some.2 ⟨_, step_push, rfl⟩⟩⟩

theorem along_untilPush {events : List (SyncEvent Bool)}
    (h : Along (syncStep syncHost) (Allowed (PushKnown syncHost)) pushedNet events) :
    Along (syncStep syncHost) (Allowed (PushKnown syncHost)) startNet (untilPush ++ events) := by
  refine ⟨trivial, fun net₁ h₁ => ?_⟩
  obtain rfl := some.inj (step_announce.symm.trans h₁)
  refine ⟨fun message hmessage => ?_, fun net₂ h₂ => ?_⟩
  · obtain rfl := some.inj hmessage
    trivial
  obtain rfl := some.inj (step_request.symm.trans h₂)
  refine ⟨fun message hmessage => ?_, fun net₃ h₃ => ?_⟩
  · obtain rfl := some.inj hmessage
    trivial
  obtain rfl := some.inj (step_push.symm.trans h₃)
  exact h

theorem exactOnTips_syncHost {ι : Type} (net : SyncNet ι) : ExactOnTips syncHost net := by
  intro node message _ tip _ hcontains
  exact contains_iff_mem.1 hcontains

theorem validate_firstBundle : firstBundle.validate syncHost = .ok () := by
  rw [← bundle_firstSync]
  refine (validate_assemble _ _ _).2 ?_
  rw [served_firstSync]
  rfl

end Sample

open Sample

/-- A push that comes back to the node it was sent from brings nothing new. -/
theorem remembers_returned : RunRemembers syncHost startNet
    (untilPush ++ [.deliver true 2 (syncAmbient, "did:ajna:bob")]) := by
  refine (remembers_iff syncHost startNet fresh_startNet _ fun net _ => exactOnTips_syncHost net).1
    (along_untilPush ⟨fun message hmessage => ?_, fun _ _ => trivial⟩)
  obtain rfl := some.inj hmessage
  intro bundle hread _
  obtain rfl := Except.ok.inj (fromSlice_firstBundle.symm.trans hread)
  refine ⟨oneNode rootNode, firstSync.lookup_nodeA, fun op hop => ?_⟩
  refine (mem_getAllOperationsV2 IterOrder.some).1 ?_
  rw [getAllOperationsV2_oneNode]
  exact hop

/-- The second node accepts the push, and cannot serve the operation it brought. -/
theorem remembers_fails_push :
    ¬ ∀ events : List (SyncEvent Bool), RunRemembers syncHost startNet events := by
  intro hclaim
  have hread : syncHost.fromSlice firstPush.bundle = .ok firstBundle := fromSlice_firstBundle
  obtain ⟨hdags, -, n, hok⟩ := handlePush_of_valid heardNode.sync hread validate_firstBundle
  have hstep : syncStep syncHost pushedNet (.deliver false 2 (syncAmbient, "did:ajna:alice")) = _ :=
    step_deliver (show pushedNet.wire[2]? = some (.push firstPush) from rfl)
  have hserved := (hclaim _ _ (Visits.of_exec (exec_append_eq_some.2
    ⟨_, exec_untilPush, exec_cons_eq_some.2 ⟨_, hstep, exec_nil _⟩⟩))).served false
  rw [nodes_put_self, show pushedNet.nodes false = heardNode from rfl,
    handle_push_of_ok _ _ hok] at hserved
  obtain ⟨dag, hdag, hlisted⟩ := serves_iff.1 (hserved firstPush
    (mem_append_right _ (mem_singleton_self _)) firstBundle hread _ mem_cons_self)
  -- the DAG is as empty as it was
  have hlook : heardNode.sync.dags.lookup firstPush.doc = some MerkleDAG.new := by
    rw [heardNode, (handleAnnounce_fst _ _ _ _ _).2]
    exact firstSync.lookup_nodeB
  rw [hdags, getOrCreateDag_of_lookup hlook, hlook] at hdag
  exact not_listed_new _ (some.inj hdag ▸ hlisted)

end Idiom.Ajna
