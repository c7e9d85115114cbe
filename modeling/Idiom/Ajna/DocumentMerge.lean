import Idiom.Ajna.Method
import Idiom.Lib.Run

/-!
# Merging documents

`AjnaDocument::merge` merges fourteen fields, each in its own way. Here the documents of
several replicas are created, changed by the document's mutators and merged, in any order,
with fresh UUIDs and with last-write-wins writes that their key and stamp identify.
-/

namespace Idiom.Ajna

open ORSet Sample Finset Ranked Run

/-! ## The join laws of the fields -/

theorem orSet_mergeNeutral {T : Type*} [DecidableEq T] {x : ORSet T} (h : x.WF) :
    MergeNeutral new merge x := by
  have hleft : new.merge x = x := by
    refine ext_live (nonemptyEntries_merge _ _) h.nonempty (fun e u => ?_) ?_
    · rw [live_merge]
      constructor
      · rintro ⟨hl | hl, -, -⟩
        · exact absurd hl (live_new e u)
        · exact hl
      · exact fun hl => ⟨.inr hl, by simp, h.disjoint e u hl⟩
    · simp
  exact ⟨hleft, by rw [merge_comm, hleft]⟩

theorem lwwMap_mergeNeutral {K V : Type*} [DecidableEq K] (x : LWWMap K V) :
    MergeNeutral LWWMap.new LWWMap.merge x := by
  constructor <;> refine LWWMap.ext_lookup fun k => ?_ <;> simp [LWWMap.lookup_merge, LWWMap.new]

theorem joinAt_orSet {T : Type*} [DecidableEq T] {a : ORSet T} (b c : ORSet T) (ha : a.WF) :
    JoinAt merge a b c :=
  ⟨merge_comm a b, merge_assoc a b c, merge_self ha⟩

theorem joinAt_optionORSet {T : Type*} [DecidableEq T] {a b : Option (ORSet T)}
    (c : Option (ORSet T)) (ha : ∀ x, a = some x → x.WF) (hb : ∀ y, b = some y → y.WF) :
    JoinAt (mergeOption new merge) a b c :=
  joinAt_mergeOption merge_assoc (merge_self wf_new)
    (fun x hx => orSet_mergeNeutral (ha x hx)) (fun y hy => orSet_mergeNeutral (hb y hy))
    (fun x y _ _ => merge_comm x y) (fun x hx => merge_self (ha x hx))

theorem joinAt_optionLWWMap {K V : Type*} [DecidableEq K] {a b : Option (LWWMap K V)}
    (c : Option (LWWMap K V)) (hab : ∀ x y, a = some x → b = some y → LWWMap.TieFree x y) :
    JoinAt (mergeOption LWWMap.new LWWMap.merge) a b c :=
  joinAt_mergeOption LWWMap.merge_assoc (LWWMap.merge_self _)
    (fun x _ => lwwMap_mergeNeutral x) (fun y _ => lwwMap_mergeNeutral y)
    (fun x y hx hy => LWWMap.merge_comm (hab x y hx hy)) (fun x _ => LWWMap.merge_self x)

def Untied (a b : Option BlockchainAnchor) : Prop :=
  ∀ x y, a = some x → b = some y → x.blockNumber = y.blockNumber → x = y

theorem mergeAnchor_eq_join (a b : Option BlockchainAnchor) :
    AjnaDocument.mergeAnchor a b = join (fun x => x.blockNumber.toNat) a b := by
  cases b with
  | none => rfl
  | some y =>
    cases a with
    | none => rfl
    | some x =>
      simp only [AjnaDocument.mergeAnchor, join_some_some, UInt64.lt_iff_toNat_lt]
      split <;> rfl

/-- **Anchors are merged alike on both sides exactly if they are not tied.** -/
theorem mergeAnchor_comm_iff (a b : Option BlockchainAnchor) :
    AjnaDocument.mergeAnchor a b = AjnaDocument.mergeAnchor b a ↔ Untied a b := by
  constructor
  · rintro hcomm x y rfl rfl hblock
    simpa [AjnaDocument.mergeAnchor, hblock] using hcomm
  · intro h
    rw [mergeAnchor_eq_join, mergeAnchor_eq_join]
    exact join_comm fun x y hx hy hrank => h x y hx hy (UInt64.toNat_inj.1 hrank)

theorem joinAt_mergeAnchor {a b : Option BlockchainAnchor} (c : Option BlockchainAnchor)
    (h : Untied a b) : JoinAt AjnaDocument.mergeAnchor a b c := by
  refine ⟨(mergeAnchor_comm_iff a b).2 h, ?_, ?_⟩ <;> simp only [mergeAnchor_eq_join]
  · exact join_assoc a b c
  · exact join_self a

theorem joinAt_mergeDeactivated {a b : Option Bool} (c : Option Bool) (ha : a ≠ some false)
    (hb : b ≠ some false) : JoinAt AjnaDocument.mergeDeactivated a b c := by
  have hcases (o : Option Bool) (h : o ≠ some false) : o = none ∨ o = some true := by
    rcases o with _ | _ | _
    · exact .inl rfl
    · exact absurd rfl h
    · exact .inr rfl
  rcases hcases a ha with rfl | rfl <;> rcases hcases b hb with rfl | rfl <;>
    refine ⟨?_, ?_, ?_⟩ <;> simp [AjnaDocument.mergeDeactivated]

/-! ## The document -/

namespace AjnaDocument

/-- Equality on the merged fields: all but the DID and the node that keeps the document. -/
structure SameMerged (x y : AjnaDocument) : Prop where
  verificationMethods : x.verificationMethods = y.verificationMethods
  purposes : ∀ q, x.purposeSet q = y.purposeSet q
  controller : x.controller = y.controller
  service : x.service = y.service
  policy : x.policy = y.policy
  deactivated : x.deactivated = y.deactivated
  vectorClock : x.vectorClock = y.vectorClock
  created : x.created = y.created
  updated : x.updated = y.updated
  blockchainAnchor : x.blockchainAnchor = y.blockchainAnchor

/-- Merging is commutative at `a`, `b`, associative at `a`, `b`, `c` and idempotent at `a`,
and none of the calls fails. -/
structure IsJoin (a b c : AjnaDocument) : Prop where
  comm : ∃ ab ba, a.merge b = (ab, .ok ()) ∧ b.merge a = (ba, .ok ()) ∧ SameMerged ab ba
  assoc : ∃ ab abc bc abc', a.merge b = (ab, .ok ()) ∧ ab.merge c = (abc, .ok ()) ∧
    b.merge c = (bc, .ok ()) ∧ a.merge bc = (abc', .ok ()) ∧ SameMerged abc abc'
  idem : ∃ aa, a.merge a = (aa, .ok ()) ∧ SameMerged aa a

/-- The document after a merge, field by field. -/
structure Merged (a b d : AjnaDocument) : Prop where
  id : d.id = a.id
  verificationMethods : d.verificationMethods = a.verificationMethods.merge b.verificationMethods
  purposes : ∀ q, d.purposeSet q = mergeOption ORSet.new ORSet.merge (a.purposeSet q)
    (b.purposeSet q)
  controller : d.controller = mergeOption ORSet.new ORSet.merge a.controller b.controller
  service : d.service = mergeOption LWWMap.new LWWMap.merge a.service b.service
  policy : d.policy = mergeOption LWWMap.new LWWMap.merge a.policy b.policy
  deactivated : d.deactivated = mergeDeactivated a.deactivated b.deactivated
  vectorClock : d.vectorClock = a.vectorClock.merge b.vectorClock
  created : d.created = min a.created b.created
  updated : d.updated = max a.updated b.updated
  blockchainAnchor : d.blockchainAnchor = mergeAnchor a.blockchainAnchor b.blockchainAnchor

theorem merge_of_id_eq {a b : AjnaDocument} (h : a.id = b.id) :
    ∃ d, a.merge b = (d, .ok ()) ∧ Merged a b d := by
  unfold merge
  rw [if_neg (not_not.2 h)]
  refine ⟨_, rfl, rfl, rfl, fun q => by cases q <;> rfl, rfl, rfl, rfl, rfl, rfl, ?_, ?_, rfl⟩
  · show (if b.created < a.created then b.created else a.created) = min a.created b.created
    rcases lt_or_ge b.created a.created with hlt | hge
    · rw [if_pos hlt, min_eq_right hlt.le]
    · rw [if_neg hge.not_gt, min_eq_left hge]
  · show (if a.updated < b.updated then b.updated else a.updated) = max a.updated b.updated
    rcases lt_or_ge a.updated b.updated with hlt | hge
    · rw [if_pos hlt, max_eq_right hlt.le]
    · rw [if_neg hge.not_gt, max_eq_left hge]

theorem IsJoin.untied {a b c : AjnaDocument} (h : IsJoin a b c) (hid : a.id = b.id) :
    Untied a.blockchainAnchor b.blockchainAnchor := by
  obtain ⟨ab, ba, hab, hba, hsame⟩ := h.comm
  obtain ⟨d, hd, mab⟩ := merge_of_id_eq hid
  obtain ⟨e, he, mba⟩ := merge_of_id_eq hid.symm
  obtain rfl : d = ab := congrArg Prod.fst (hd.symm.trans hab)
  obtain rfl : e = ba := congrArg Prod.fst (he.symm.trans hba)
  rw [← mergeAnchor_comm_iff, ← mab.blockchainAnchor, ← mba.blockchainAnchor]
  exact hsame.blockchainAnchor

structure FieldsJoin (a b c : AjnaDocument) : Prop where
  verificationMethods :
    JoinAt ORSet.merge a.verificationMethods b.verificationMethods c.verificationMethods
  purposes : ∀ q, JoinAt (mergeOption ORSet.new ORSet.merge) (a.purposeSet q) (b.purposeSet q)
    (c.purposeSet q)
  controller : JoinAt (mergeOption ORSet.new ORSet.merge) a.controller b.controller c.controller
  service : JoinAt (mergeOption LWWMap.new LWWMap.merge) a.service b.service c.service
  policy : JoinAt (mergeOption LWWMap.new LWWMap.merge) a.policy b.policy c.policy
  deactivated : JoinAt mergeDeactivated a.deactivated b.deactivated c.deactivated
  blockchainAnchor : JoinAt mergeAnchor a.blockchainAnchor b.blockchainAnchor c.blockchainAnchor

theorem FieldsJoin.isJoin {a b c : AjnaDocument} (h : FieldsJoin a b c) (hab : a.id = b.id)
    (hbc : b.id = c.id) : IsJoin a b c := by
  obtain ⟨ab, hab', mab⟩ := merge_of_id_eq hab
  obtain ⟨ba, hba', mba⟩ := merge_of_id_eq hab.symm
  obtain ⟨bc, hbc', mbc⟩ := merge_of_id_eq hbc
  obtain ⟨abc, habc, mabc⟩ := merge_of_id_eq (a := ab) (b := c) (by rw [mab.id, hab, hbc])
  obtain ⟨abc', habc', mabc'⟩ := merge_of_id_eq (a := a) (b := bc) (by rw [mbc.id, hab])
  obtain ⟨aa, haa, maa⟩ := merge_of_id_eq (a := a) (b := a) rfl
  refine ⟨⟨ab, ba, hab', hba', ?_⟩, ⟨ab, abc, bc, abc', hab', habc, hbc', habc', ?_⟩, ⟨aa, haa, ?_⟩⟩
  · constructor
    · rw [mab.verificationMethods, mba.verificationMethods, h.verificationMethods.comm]
    · intro q
      rw [mab.purposes, mba.purposes, (h.purposes q).comm]
    · rw [mab.controller, mba.controller, h.controller.comm]
    · rw [mab.service, mba.service, h.service.comm]
    · rw [mab.policy, mba.policy, h.policy.comm]
    · rw [mab.deactivated, mba.deactivated, h.deactivated.comm]
    · rw [mab.vectorClock, mba.vectorClock, (VectorClock.joinAt_merge _ _ c.vectorClock).comm]
    · rw [mab.created, mba.created, min_comm]
    · rw [mab.updated, mba.updated, max_comm]
    · rw [mab.blockchainAnchor, mba.blockchainAnchor, h.blockchainAnchor.comm]
  · constructor
    · rw [mabc.verificationMethods, mabc'.verificationMethods, mab.verificationMethods,
        mbc.verificationMethods, h.verificationMethods.assoc]
    · intro q
      rw [mabc.purposes, mabc'.purposes, mab.purposes, mbc.purposes, (h.purposes q).assoc]
    · rw [mabc.controller, mabc'.controller, mab.controller, mbc.controller, h.controller.assoc]
    · rw [mabc.service, mabc'.service, mab.service, mbc.service, h.service.assoc]
    · rw [mabc.policy, mabc'.policy, mab.policy, mbc.policy, h.policy.assoc]
    · rw [mabc.deactivated, mabc'.deactivated, mab.deactivated, mbc.deactivated,
        h.deactivated.assoc]
    · rw [mabc.vectorClock, mabc'.vectorClock, mab.vectorClock, mbc.vectorClock,
        (VectorClock.joinAt_merge _ _ _).assoc]
    · rw [mabc.created, mabc'.created, mab.created, mbc.created, min_assoc]
    · rw [mabc.updated, mabc'.updated, mab.updated, mbc.updated, max_assoc]
    · rw [mabc.blockchainAnchor, mabc'.blockchainAnchor, mab.blockchainAnchor,
        mbc.blockchainAnchor, h.blockchainAnchor.assoc]
  · constructor
    · rw [maa.verificationMethods, h.verificationMethods.idem]
    · intro q
      rw [maa.purposes, (h.purposes q).idem]
    · rw [maa.controller, h.controller.idem]
    · rw [maa.service, h.service.idem]
    · rw [maa.policy, h.policy.idem]
    · rw [maa.deactivated, h.deactivated.idem]
    · rw [maa.vectorClock, (VectorClock.joinAt_merge _ a.vectorClock a.vectorClock).idem]
    · rw [maa.created, min_self]
    · rw [maa.updated, max_self]
    · rw [maa.blockchainAnchor, h.blockchainAnchor.idem]

end AjnaDocument

/-! ## Replicas -/

/-- The calls that change a document, `merge` apart. -/
inductive Mutation where
  | addVerificationMethod (method : VerificationMethod)
  | removeVerificationMethod (methodId : String)
  | setService (service : Service)
  | setServiceWithTimestamp (service : Service) (timestamp : DateTime) (nodeId : String)
  | removeService (serviceId : String)
  | removeServiceWithTimestamp (serviceId : String) (timestamp : DateTime) (nodeId : String)
  | applyDeltaV2 (delta : Delta)
  | setBlockchainAnchor (anchor : BlockchainAnchor)

namespace Mutation

variable (doc : AjnaDocument) (amb : Ambient)

def run : Mutation → Result AjnaDocument
  | .addVerificationMethod method => .ok (doc.addVerificationMethod method amb)
  | .removeVerificationMethod methodId => .ok (doc.removeVerificationMethod methodId amb)
  | .setService service => .ok (doc.setService service amb)
  | .setServiceWithTimestamp service timestamp nodeId =>
    .ok (doc.setServiceWithTimestamp service timestamp nodeId amb)
  | .removeService serviceId => .ok (doc.removeService serviceId amb)
  | .removeServiceWithTimestamp serviceId timestamp nodeId =>
    .ok (doc.removeServiceWithTimestamp serviceId timestamp nodeId amb)
  | .applyDeltaV2 delta => doc.applyDeltaV2 delta amb
  | .setBlockchainAnchor anchor => .ok (doc.setBlockchainAnchor anchor)

def uuids : Mutation → List Uuid
  | .addVerificationMethod _ => [amb.uuid]
  | .applyDeltaV2 (.vmAdd _) => [amb.uuid]
  | .applyDeltaV2 (.refAdd _ _) => [amb.uuid]
  | .applyDeltaV2 (.controllerAdd _) => [amb.uuid]
  | _ => []

/-- A removal is written only into a map that is there. -/
def removalOf {V : Type} (map : Option (LWWMap String V)) (key : String) (entry : LWWEntry V) :
    List (String × LWWEntry V) :=
  if map.isSome then [(key, entry)] else []

def serviceWrites : Mutation → List (String × LWWEntry Service)
  | .setService s => [(s.id, .withTimestamp s amb.now doc.nodeId)]
  | .setServiceWithTimestamp s timestamp nodeId => [(s.id, .withTimestamp s timestamp nodeId)]
  | .removeService id => removalOf doc.service id (.tombstone amb.now doc.nodeId)
  | .removeServiceWithTimestamp id timestamp nodeId =>
    removalOf doc.service id (.tombstone timestamp nodeId)
  | .applyDeltaV2 (.serviceAdd s) => [(s.id, .withTimestamp s amb.now doc.nodeId)]
  | .applyDeltaV2 (.serviceRemove id) => removalOf doc.service id (.tombstone amb.now doc.nodeId)
  | _ => []

def policyWrites : Mutation → List (String × LWWEntry Json)
  | .applyDeltaV2 (.propSet key value ts) =>
    [(key, .withTimestamp value (ts.toInt64.toInt * 1000000) doc.nodeId)]
  | _ => []

end Mutation

open Mutation

/-- The replicas, with a record of everything they have held, drawn and written. -/
structure Replicas (R : Type*) where
  doc : R → Option AjnaDocument
  /-- Every document some replica has held. -/
  held : List AjnaDocument
  issued : Finset Uuid
  serviceLog : List (String × LWWEntry Service)
  policyLog : List (String × LWWEntry Json)

/-- One step of the replicated system. -/
inductive ReplicaStep (R : Type*) where
  | create (r : R) (did nodeId : String) (created updated : DateTime)
  | createWithGenesis (r : R) (did nodeId : String) (controllers : List String)
      (policy : List (String × Json)) (created updated : DateTime) (uuid : ℕ → Uuid)
      (now : ℕ → DateTime)
  | mutate (r : R) (mutation : Mutation) (amb : Ambient)
  | merge (r source : R)

namespace Replicas

variable {R : Type*} [DecidableEq R]

/-- No documents yet. -/
def start : Replicas R := ⟨fun _ => none, [], ∅, [], []⟩

/-- A replica takes over a document; what was drawn and written for it is recorded. -/
def put (s : Replicas R) (r : R) (doc : AjnaDocument) (uuids : List Uuid)
    (services : List (String × LWWEntry Service)) (policies : List (String × LWWEntry Json)) :
    Replicas R where
  doc := Function.update s.doc r (some doc)
  held := doc :: s.held
  issued := s.issued ∪ uuids.toFinset
  serviceLog := s.serviceLog ++ services
  policyLog := s.policyLog ++ policies

def uuids : ReplicaStep R → List Uuid
  | .createWithGenesis _ _ _ controllers _ _ _ uuid _ => (List.range controllers.length).map uuid
  | .mutate _ mutation amb => mutation.uuids amb
  | _ => []

/-- The policy entries of a genesis document. -/
def genesisWrites (nodeId : String) (policy : List (String × Json)) (now : ℕ → DateTime) :
    List (String × LWWEntry Json) :=
  policy.zipIdx.map fun p => (p.1.1, .withTimestamp p.1.2 (now p.2) nodeId)

def step (s : Replicas R) (a : ReplicaStep R) : Option (Replicas R) :=
  match a with
  | .create r did nodeId created updated =>
    some (s.put r (.new did nodeId created updated) (uuids a) [] [])
  | .createWithGenesis r did nodeId controllers policy created updated uuid now =>
    some (s.put r (.newWithGenesis did nodeId controllers policy created updated uuid now) (uuids a)
      [] (genesisWrites nodeId policy now))
  | .mutate r mutation amb =>
    match s.doc r with
    | none => none
    | some doc =>
      match mutation.run doc amb with
      | .error _ => none
      | .ok doc' =>
        some (s.put r doc' (uuids a) (mutation.serviceWrites doc amb) (mutation.policyWrites doc))
  | .merge r source =>
    match s.doc r, s.doc source with
    | some doc, some other => some (s.put r (doc.merge other).1 (uuids a) [] [])
    | _, _ => none

/-- Key, timestamp and node id identify a write. -/
def UniqueWrites {V : Type} (log : List (String × LWWEntry V)) : Prop :=
  ∀ key e e', (key, e) ∈ log → (key, e') ∈ log → e.stamp = e'.stamp → e = e'

/-- The steps of the runs that are considered: UUIDs are fresh and writes are unique. -/
def Disciplined (s : Replicas R) (a : ReplicaStep R) : Prop :=
  (∀ u ∈ uuids a, u ∉ s.issued) ∧
    ∀ s', step s a = some s' → UniqueWrites s'.serviceLog ∧ UniqueWrites s'.policyLog

end Replicas

/-! ## What a run keeps -/

/-- An OR-Set all of whose UUIDs have been issued. -/
structure Tracked {T : Type} [DecidableEq T] (issued : Finset Uuid) (s : ORSet T) : Prop where
  wf : s.WF
  live : ∀ e u, s.Live e u → u ∈ issued
  removed : ∀ e u, (e, u) ∈ s.tombstones → u ∈ issued

section

variable {T : Type} [DecidableEq T] {issued : Finset Uuid} {s t : ORSet T}

theorem Tracked.mono (h : Tracked issued s) {issued' : Finset Uuid} (hsub : issued ⊆ issued') :
    Tracked issued' s :=
  ⟨h.wf, fun e u hl => hsub (h.live e u hl), fun e u ht => hsub (h.removed e u ht)⟩

theorem tracked_new : Tracked issued (new : ORSet T) :=
  ⟨wf_new, fun e u hl => absurd hl (live_new e u), fun e u ht => by simp at ht⟩

theorem Tracked.add (h : Tracked issued s) {e : T} {u : Uuid} (hu : u ∉ issued) :
    Tracked (issued ∪ [u].toFinset) (s.add e u) := by
  refine ⟨h.wf.add fun ht => hu (h.removed e u ht), fun e' u' hl => ?_, fun e' u' ht => ?_⟩
  · rcases (live_add s e e' u u').1 hl with ⟨-, rfl⟩ | hl
    · simp
    · exact mem_union_left _ (h.live e' u' hl)
  · exact mem_union_left _ (h.removed e' u' ht)

theorem Tracked.remove (h : Tracked issued s) (e : T) : Tracked issued (s.remove e) := by
  refine ⟨h.wf.remove e, fun e' u' hl => ?_, fun e' u' ht => ?_⟩
  · exact h.live e' u' ((live_remove s e e' u').1 hl).2
  · rcases (mem_tombstones_remove s e e' u').1 ht with ht | ⟨-, hl⟩
    · exact h.removed e' u' ht
    · exact h.live _ u' hl

theorem Tracked.merge (hs : Tracked issued s) (ht : Tracked issued t) :
    Tracked issued (s.merge t) := by
  refine ⟨wf_merge s t, fun e u hl => ?_, fun e u hu => ?_⟩
  · rcases ((live_merge s t e u).1 hl).1 with hl | hl
    · exact hs.live e u hl
    · exact ht.live e u hl
  · rw [tombstones_merge, mem_union] at hu
    rcases hu with hu | hu
    · exact hs.removed e u hu
    · exact ht.removed e u hu

theorem Tracked.removeFirstMethod {s : ORSet VerificationMethod} (h : Tracked issued s)
    (order : IterOrder VerificationMethod) (methodId : String) :
    Tracked issued (AjnaDocument.removeFirstMethod s order methodId) := by
  unfold AjnaDocument.removeFirstMethod
  split
  · exact h.remove _
  · exact h

/-- The same for an optional set, where a missing one counts as empty. -/
def TrackedOption (issued : Finset Uuid) (o : Option (ORSet T)) : Prop :=
  ∀ x, o = some x → Tracked issued x

variable {o : Option (ORSet T)}

theorem TrackedOption.getD (h : TrackedOption issued o) : Tracked issued (o.getD new) := by
  cases o with
  | none => exact tracked_new
  | some x => exact h x rfl

theorem Tracked.some (h : Tracked issued s) : TrackedOption issued (some s) := by
  rintro x ⟨⟩
  exact h

theorem TrackedOption.mono (h : TrackedOption issued o) {issued' : Finset Uuid}
    (hsub : issued ⊆ issued') : TrackedOption issued' o :=
  fun x hx => (h x hx).mono hsub

theorem TrackedOption.map_remove (h : TrackedOption issued o) (e : T) :
    TrackedOption issued (o.map fun s => s.remove e) := by
  cases o with
  | none => rintro x ⟨⟩
  | some s => exact (h.getD.remove e).some

theorem TrackedOption.merge {o p : Option (ORSet T)} (ho : TrackedOption issued o)
    (hp : TrackedOption issued p) : TrackedOption issued (mergeOption new merge o p) := by
  cases p with
  | none => exact ho
  | some y => exact (ho.getD.merge hp.getD).some

end

/-- A map all of whose entries are in the log. -/
def Logged {V : Type} (log : List (String × LWWEntry V)) (o : Option (LWWMap String V)) : Prop :=
  ∀ key e, (o.getD LWWMap.new).entries.lookup key = some e → (key, e) ∈ log

section

variable {V : Type} {log : List (String × LWWEntry V)} {o p : Option (LWWMap String V)}

theorem Logged.mono (h : Logged log o) (log' : List (String × LWWEntry V)) :
    Logged (log ++ log') o :=
  fun key e he => List.mem_append_left _ (h key e he)

theorem logged_none : Logged log (none : Option (LWWMap String V)) := by
  intro key e he
  simp [LWWMap.new] at he

theorem Logged.setAll (h : Logged log o) (writes : List (String × LWWEntry V)) :
    Logged (log ++ writes) (some ((o.getD LWWMap.new).setAll writes)) := by
  intro key e he
  rcases LWWMap.lookup_setAll_cases he with hold | hmem
  · exact List.mem_append_left _ (h key e hold)
  · exact List.mem_append_right _ hmem

theorem Logged.map_setEntry (h : Logged log o) (key : String) (entry : LWWEntry V) :
    Logged (log ++ removalOf o key entry) (o.map fun m => m.setEntry key entry) := by
  cases o with
  | none => exact logged_none
  | some m => exact h.setAll [(key, entry)]

theorem Logged.merge (ho : Logged log o) (hp : Logged log p) :
    Logged log (mergeOption LWWMap.new LWWMap.merge o p) := by
  cases p with
  | none => exact ho
  | some y =>
    intro key e he
    simp only [mergeOption, Option.getD_some, LWWMap.lookup_merge] at he
    rcases join_eq_some he with hold | ⟨hnew, -⟩
    · exact ho key e hold
    · exact hp key e hnew

end

/-- What a run keeps of a document. -/
structure Recorded (issued : Finset Uuid) (serviceLog : List (String × LWWEntry Service))
    (policyLog : List (String × LWWEntry Json)) (doc : AjnaDocument) : Prop where
  methods : Tracked issued doc.verificationMethods
  purposes : ∀ q, TrackedOption issued (doc.purposeSet q)
  controller : TrackedOption issued doc.controller
  service : Logged serviceLog doc.service
  policy : Logged policyLog doc.policy
  deactivated : doc.deactivated ≠ some false

section

variable {issued : Finset Uuid} {services : List (String × LWWEntry Service)}
  {policies : List (String × LWWEntry Json)} {doc other doc' : AjnaDocument}

theorem Recorded.mono (h : Recorded issued services policies doc) (uuids : List Uuid)
    (services' : List (String × LWWEntry Service)) (policies' : List (String × LWWEntry Json)) :
    Recorded (issued ∪ uuids.toFinset) (services ++ services') (policies ++ policies') doc where
  methods := h.methods.mono subset_union_left
  purposes q := (h.purposes q).mono subset_union_left
  controller := h.controller.mono subset_union_left
  service := h.service.mono _
  policy := h.policy.mono _
  deactivated := h.deactivated

theorem recorded_new (did nodeId : String) (created updated : DateTime) :
    Recorded issued services policies (.new did nodeId created updated) where
  methods := tracked_new
  purposes q := by cases q <;> rintro x ⟨⟩
  controller := by rintro x ⟨⟩
  service := logged_none
  policy := logged_none
  deactivated := by rintro ⟨⟩

theorem Recorded.merge (h : Recorded issued services policies doc)
    (ho : Recorded issued services policies other) :
    Recorded issued services policies (doc.merge other).1 := by
  by_cases hid : doc.id = other.id
  · obtain ⟨d, hd, hm⟩ := AjnaDocument.merge_of_id_eq hid
    rw [hd]
    refine ⟨?_, fun q => ?_, ?_, ?_, ?_, ?_⟩
    · rw [hm.verificationMethods]
      exact h.methods.merge ho.methods
    · rw [hm.purposes]
      exact (h.purposes q).merge (ho.purposes q)
    · rw [hm.controller]
      exact h.controller.merge ho.controller
    · rw [hm.service]
      exact h.service.merge ho.service
    · rw [hm.policy]
      exact h.policy.merge ho.policy
    · rw [hm.deactivated, AjnaDocument.mergeDeactivated]
      split
      · simp
      · exact h.deactivated
  · rw [AjnaDocument.merge, if_pos hid]
    exact h

theorem tracked_addAll {T : Type} [DecidableEq T] {l : List (T × ℕ)} {uuid : ℕ → Uuid}
    (hl : ∀ p ∈ l, uuid p.2 ∈ issued) {s : ORSet T} (hs : Tracked issued s)
    (hempty : s.tombstones = ∅) : Tracked issued (l.foldl (fun s p => s.add p.1 (uuid p.2)) s) := by
  induction l generalizing s with
  | nil => exact hs
  | cons p l ih =>
    refine ih (fun q hq => hl q (List.mem_cons_of_mem _ hq)) ⟨?_, fun e u hlive => ?_, ?_⟩ hempty
    · exact hs.wf.add (by simp [hempty])
    · rcases (live_add s p.1 e (uuid p.2) u).1 hlive with ⟨-, rfl⟩ | hlive
      · exact hl p List.mem_cons_self
      · exact hs.live e u hlive
    · exact hs.removed

theorem recorded_newWithGenesis (did nodeId : String) (controllers : List String)
    (policy : List (String × Json)) (created updated : DateTime) (uuid : ℕ → Uuid)
    (now : ℕ → DateTime) :
    Recorded (issued ∪ ((List.range controllers.length).map uuid).toFinset) (services ++ [])
      (policies ++ Replicas.genesisWrites nodeId policy now)
      (.newWithGenesis did nodeId controllers policy created updated uuid now) where
  methods := tracked_new
  purposes q := by cases q <;> rintro x ⟨⟩
  controller := by
    show TrackedOption _ (if controllers.isEmpty then none else _)
    split
    · rintro x ⟨⟩
    · refine (tracked_addAll (fun p hp => ?_) tracked_new rfl).some
      have hlt : p.2 < controllers.length := by
        simpa using (List.mem_zipIdx hp).2.1
      refine mem_union_right _ ?_
      simpa using ⟨p.2, hlt, rfl⟩
  service := logged_none
  policy := by
    show Logged _ (if policy.isEmpty then none else _)
    split
    · exact logged_none
    · have hwrites : (policy.zipIdx.foldl (fun m p => m.set p.1.1 p.1.2 nodeId (now p.2))
          LWWMap.new) = LWWMap.new.setAll (Replicas.genesisWrites nodeId policy now) := by
        rw [LWWMap.setAll, Replicas.genesisWrites, List.foldl_map]
        rfl
      show Logged _ (some (policy.zipIdx.foldl (fun m p => m.set p.1.1 p.1.2 nodeId (now p.2))
        LWWMap.new))
      rw [hwrites]
      exact logged_none.setAll _
  deactivated := by rintro ⟨⟩

theorem Recorded.change (h : Recorded issued services policies doc)
    (hmethods : Tracked issued doc'.verificationMethods) (hservice : Logged services doc'.service)
    (hpurposes : ∀ q, doc'.purposeSet q = doc.purposeSet q)
    (hcontroller : doc'.controller = doc.controller) (hpolicy : doc'.policy = doc.policy)
    (hdeactivated : doc'.deactivated = doc.deactivated) :
    Recorded issued services policies doc' where
  methods := hmethods
  purposes q := by
    rw [hpurposes]
    exact h.purposes q
  controller := by
    rw [hcontroller]
    exact h.controller
  service := hservice
  policy := by
    rw [hpolicy]
    exact h.policy
  deactivated := by
    rw [hdeactivated]
    exact h.deactivated

theorem Recorded.delta (h : Recorded issued services policies doc) {delta : Delta} {amb : Ambient}
    (hfresh : ∀ u ∈ (applyDeltaV2 delta).uuids amb, u ∉ issued)
    (hrun : doc.applyDeltaV2 delta amb = .ok doc') :
    Recorded (issued ∪ ((applyDeltaV2 delta).uuids amb).toFinset)
      (services ++ (applyDeltaV2 delta).serviceWrites doc amb)
      (policies ++ (applyDeltaV2 delta).policyWrites doc) doc' := by
  have ha := AjnaDocument.applied_of_ok hrun
  have hm := h.mono ((applyDeltaV2 delta).uuids amb) ((applyDeltaV2 delta).serviceWrites doc amb)
    ((applyDeltaV2 delta).policyWrites doc)
  refine ⟨?_, fun q => ?_, ?_, ?_, ?_, ?_⟩
  · rw [ha.verificationMethods]
    cases delta with
    | vmAdd entry => exact h.methods.add (hfresh _ List.mem_cons_self)
    | vmRemove id => exact hm.methods.removeFirstMethod _ _
    | _ => exact hm.methods
  · rw [ha.purposeSet]
    cases delta with
    | refAdd p r =>
      simp only [Delta.onPurposeSet]
      split
      · exact ((h.purposes q).getD.add (hfresh _ List.mem_cons_self)).some
      · exact hm.purposes q
    | refRemove p r =>
      simp only [Delta.onPurposeSet]
      split
      · exact (hm.purposes q).map_remove r
      · exact hm.purposes q
    | _ => exact hm.purposes q
  · rw [ha.controller]
    cases delta with
    | controllerAdd did => exact (h.controller.getD.add (hfresh _ List.mem_cons_self)).some
    | controllerRemove did => exact hm.controller.map_remove did
    | _ => exact hm.controller
  · rw [ha.service]
    cases delta with
    | serviceAdd entry => exact h.service.setAll [_]
    | serviceRemove id => exact h.service.map_setEntry _ _
    | _ => exact hm.service
  · rw [ha.policy]
    cases delta with
    | propSet key value ts => exact h.policy.setAll [_]
    | _ => exact hm.policy
  · rw [ha.deactivated]
    cases delta with
    | deactivate reason => simp [Delta.onDeactivated]
    | _ => exact hm.deactivated

theorem Recorded.mutate (h : Recorded issued services policies doc) {mutation : Mutation}
    {amb : Ambient} (hfresh : ∀ u ∈ mutation.uuids amb, u ∉ issued)
    (hrun : mutation.run doc amb = .ok doc') :
    Recorded (issued ∪ (mutation.uuids amb).toFinset)
      (services ++ mutation.serviceWrites doc amb) (policies ++ mutation.policyWrites doc)
        doc' := by
  have hm := h.mono (mutation.uuids amb) (mutation.serviceWrites doc amb)
    (mutation.policyWrites doc)
  cases mutation with
  | addVerificationMethod method =>
    cases hrun
    exact hm.change (h.methods.add (hfresh _ List.mem_cons_self)) hm.service
      (fun q => by cases q <;> rfl) rfl rfl rfl
  | removeVerificationMethod methodId =>
    cases hrun
    exact hm.change (hm.methods.removeFirstMethod _ _) hm.service (fun q => by cases q <;> rfl) rfl
      rfl rfl
  | setService service | setServiceWithTimestamp service timestamp nodeId =>
    cases hrun
    exact hm.change hm.methods (h.service.setAll [_]) (fun q => by cases q <;> rfl) rfl rfl rfl
  | removeService serviceId | removeServiceWithTimestamp serviceId timestamp nodeId =>
    cases hrun
    exact hm.change hm.methods (h.service.map_setEntry _ _) (fun q => by cases q <;> rfl) rfl rfl
      rfl
  | applyDeltaV2 delta => exact h.delta hfresh hrun
  | setBlockchainAnchor anchor =>
    cases hrun
    exact hm.change hm.methods hm.service (fun q => by cases q <;> rfl) rfl rfl rfl

end

/-! ## Runs -/

namespace Replicas

variable {R : Type*} [DecidableEq R]

/-- The invariant of a run. -/
structure Invariant (s : Replicas R) : Prop where
  current : ∀ r doc, s.doc r = some doc → doc ∈ s.held
  recorded : ∀ doc ∈ s.held, Recorded s.issued s.serviceLog s.policyLog doc
  services : UniqueWrites s.serviceLog
  policies : UniqueWrites s.policyLog

omit [DecidableEq R] in
theorem invariant_start : Invariant (start : Replicas R) where
  current := by rintro r doc ⟨⟩
  recorded doc h := by cases h
  services := by rintro key e e' h; cases h
  policies := by rintro key e e' h; cases h

theorem Invariant.put {s : Replicas R} (h : Invariant s) {r : R} {doc : AjnaDocument}
    {uuids : List Uuid} {services : List (String × LWWEntry Service)}
    {policies : List (String × LWWEntry Json)}
    (hdoc : Recorded (s.issued ∪ uuids.toFinset) (s.serviceLog ++ services)
      (s.policyLog ++ policies) doc)
    (hservices : UniqueWrites (s.serviceLog ++ services))
    (hpolicies : UniqueWrites (s.policyLog ++ policies)) :
    Invariant (s.put r doc uuids services policies) where
  current := by
    intro q d hd
    simp only [Replicas.put, Function.update_apply] at hd
    split at hd
    · cases hd
      exact List.mem_cons_self
    · exact List.mem_cons_of_mem _ (h.current q d hd)
  recorded d hd := by
    rcases List.mem_cons.1 hd with rfl | hd
    · exact hdoc
    · exact (h.recorded d hd).mono _ _ _
  services := hservices
  policies := hpolicies

theorem step_cases {s s' : Replicas R} {a : ReplicaStep R} (hs : Invariant s)
    (hfresh : ∀ u ∈ uuids a, u ∉ s.issued) (h : step s a = some s') :
    ∃ r doc services policies, s' = s.put r doc (uuids a) services policies ∧
      Recorded (s.issued ∪ (uuids a).toFinset) (s.serviceLog ++ services)
        (s.policyLog ++ policies) doc := by
  cases a with
  | create r did nodeId created updated =>
    cases h
    exact ⟨r, _, [], [], rfl, recorded_new _ _ _ _⟩
  | createWithGenesis r did nodeId controllers policy created updated uuid now =>
    cases h
    exact ⟨r, _, [], _, rfl, recorded_newWithGenesis _ _ _ _ _ _ _ _⟩
  | mutate r mutation amb =>
    simp only [step] at h
    split at h
    · cases h
    next doc hdoc =>
      split at h
      · cases h
      next doc' hrun =>
        cases h
        exact ⟨r, doc', _, _, rfl, (hs.recorded doc (hs.current r doc hdoc)).mutate hfresh hrun⟩
  | merge r source =>
    simp only [step] at h
    split at h
    next doc other hdoc hother =>
      cases h
      refine ⟨r, _, [], [], rfl, ?_⟩
      exact ((hs.recorded doc (hs.current r doc hdoc)).mono _ _ _).merge
        ((hs.recorded other (hs.current source other hother)).mono _ _ _)
    · cases h

theorem Invariant.step {s s' : Replicas R} {a : ReplicaStep R} (hs : Invariant s)
    (hd : Disciplined s a) (h : step s a = some s') : Invariant s' := by
  obtain ⟨r, doc, services, policies, rfl, hdoc⟩ := step_cases hs hd.1 h
  obtain ⟨hservices, hpolicies⟩ := hd.2 _ h
  exact hs.put hdoc hservices hpolicies

omit [DecidableEq R] in
theorem Invariant.fieldsJoin {s : Replicas R} (hs : Invariant s) {a b c : AjnaDocument}
    (ha : a ∈ s.held) (hb : b ∈ s.held) (hanchor : Untied a.blockchainAnchor b.blockchainAnchor) :
    AjnaDocument.FieldsJoin a b c := by
  have ra := hs.recorded a ha
  have rb := hs.recorded b hb
  have htie {V : Type} {log : List (String × LWWEntry V)} {o p : Option (LWWMap String V)}
      (hlog : UniqueWrites log) (ho : Logged log o) (hp : Logged log p) :
      ∀ x y, o = some x → p = some y → LWWMap.TieFree x y := by
    rintro x y rfl rfl key e e' he he' hstamp
    exact hlog key e e' (ho key e he) (hp key e' he') hstamp
  exact
    { verificationMethods := joinAt_orSet _ _ ra.methods.wf
      purposes := fun q => joinAt_optionORSet _ (fun x hx => (ra.purposes q x hx).wf)
        fun y hy => (rb.purposes q y hy).wf
      controller := joinAt_optionORSet _ (fun x hx => (ra.controller x hx).wf)
        fun y hy => (rb.controller y hy).wf
      service := joinAt_optionLWWMap _ (htie hs.services ra.service rb.service)
      policy := joinAt_optionLWWMap _ (htie hs.policies ra.policy rb.policy)
      deactivated := joinAt_mergeDeactivated _ ra.deactivated rb.deactivated
      blockchainAnchor := joinAt_mergeAnchor _ hanchor }

/-- **Merging the documents of a run is a join exactly where two anchors of one block are
the same anchor**, and documents with different DIDs are refused and left alone. -/
theorem merge_isJoin_iff (l : List (ReplicaStep R)) (s : Replicas R)
    (hl : Along step Disciplined start l) (h : exec step start l = some s) :
    (∀ a b c, a ∈ s.held → b ∈ s.held → c ∈ s.held → a.id = b.id → b.id = c.id →
      (AjnaDocument.IsJoin a b c ↔ Untied a.blockchainAnchor b.blockchainAnchor)) ∧
    ∀ a b : AjnaDocument, a.id ≠ b.id → a.merge b =
      (a, .error (.err (.invalidOperation "Cannot merge documents with different DIDs"))) := by
  have hs : Invariant s :=
    exec_invariant_along (fun _ _ _ hs hd h => hs.step hd h) invariant_start hl h
  refine ⟨fun a b c ha hb _ hab hbc => ⟨fun hjoin => ?_, fun hanchor => ?_⟩, fun a b hid => ?_⟩
  · exact hjoin.untied hab
  · exact (hs.fieldsJoin ha hb hanchor).isJoin hab hbc
  · rw [AjnaDocument.merge, if_pos hid]

/-! ## Two replicas -/

def Sample.anchor (txHash : String) (blockNumber : UInt64) : BlockchainAnchor :=
  ⟨"ajna-mainnet", txHash, blockNumber, 0, "root"⟩

theorem along_cons_of_silent {s s' : Replicas R} {a : ReplicaStep R} {l : List (ReplicaStep R)}
    (hstep : step s a = some s') (huuids : uuids a = []) (hservices : s'.serviceLog = [])
    (hpolicies : s'.policyLog = []) (hl : Along step Disciplined s' l) :
    Along step Disciplined s (a :: l) := by
  refine ⟨⟨by simp [huuids], fun t ht => ?_⟩, fun t ht => ?_⟩
  · obtain rfl := Option.some.inj (hstep.symm.trans ht)
    rw [hservices, hpolicies]
    constructor <;> · rintro key e e' hmem; cases hmem
  · obtain rfl := Option.some.inj (hstep.symm.trans ht)
    exact hl

noncomputable def Sample.anchorRun (x y : BlockchainAnchor) : List (ReplicaStep Bool) :=
  [.create false did "node1" 0 0, .create true did "node2" 0 0,
    .mutate false (.setBlockchainAnchor x) (env.amb 0),
    .mutate true (.setBlockchainAnchor y) (env.amb 0)]

def Sample.anchored (nodeId : String) (x : BlockchainAnchor) : AjnaDocument :=
  (AjnaDocument.new did nodeId 0 0).setBlockchainAnchor x

theorem Sample.along_anchorRun (x y : BlockchainAnchor) :
    Along step Disciplined start (anchorRun x y) := by
  refine along_cons_of_silent rfl rfl rfl rfl ?_
  refine along_cons_of_silent rfl rfl rfl rfl ?_
  refine along_cons_of_silent rfl rfl rfl rfl ?_
  refine along_cons_of_silent rfl rfl rfl rfl ?_
  trivial

theorem Sample.exec_anchorRun (x y : BlockchainAnchor) :
    ∃ s, exec step start (anchorRun x y) = some s ∧
      anchored "node1" x ∈ s.held ∧ anchored "node2" y ∈ s.held := by
  refine ⟨_, rfl, ?_, ?_⟩
  · exact List.mem_cons_of_mem _ List.mem_cons_self
  · exact List.mem_cons_self

/-- Anchors in different blocks merge to the later one on both sides. -/
theorem merge_isJoin_laterBlock :
    AjnaDocument.IsJoin (Sample.anchored "node1" (Sample.anchor "tx1" 1))
      (Sample.anchored "node2" (Sample.anchor "tx2" 2))
      (Sample.anchored "node2" (Sample.anchor "tx2" 2)) := by
  obtain ⟨s, hexec, ha, hb⟩ := Sample.exec_anchorRun (Sample.anchor "tx1" 1) (Sample.anchor "tx2" 2)
  refine ((merge_isJoin_iff _ s (Sample.along_anchorRun _ _) hexec).1 _ _ _ ha hb hb rfl rfl).2 ?_
  rintro x y ⟨⟩ ⟨⟩ hblock
  exact absurd hblock (by decide)

/-- Two anchors in one block: each replica keeps its own. -/
theorem merge_isJoin_fails_sameBlock :
    ∃ (l : List (ReplicaStep Bool)) (s : Replicas Bool) (a b : AjnaDocument),
      Along step Disciplined start l ∧ exec step start l = some s ∧
      a ∈ s.held ∧ b ∈ s.held ∧ a.id = b.id ∧ ¬ AjnaDocument.IsJoin a b b := by
  obtain ⟨s, hexec, ha, hb⟩ := Sample.exec_anchorRun (Sample.anchor "tx1" 1) (Sample.anchor "tx2" 1)
  refine ⟨_, s, _, _, Sample.along_anchorRun _ _, hexec, ha, hb, rfl, fun hjoin => ?_⟩
  have hsame := hjoin.untied rfl _ _ rfl rfl rfl
  exact absurd (congrArg BlockchainAnchor.txHash hsame) (by decide)

end Replicas

end Idiom.Ajna
