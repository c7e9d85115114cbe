import Idiom.Ajna.LegacyReplay

/-!
# An update delivered twice

`merge_update` replays the operations of an update on the stored document and then, under
the comment "Merge vector clock", increments the clock of each node as often as the update
counts. A join would take the maximum and could be repeated; this cannot.
-/

namespace Idiom.Ajna

open CRDTOperation List AjnaDocument Option LWWMap VectorClock ORSet Call

/-! ## What the update carries -/

namespace CRDTOperation

def removedId : CRDTOperation → Option String
  | .removeVerificationMethod methodId _ _ _ => some methodId
  | _ => none

def addsMethod : CRDTOperation → Bool
  | .addVerificationMethod _ _ _ => true
  | _ => false

def removedIds (ops : List CRDTOperation) : List String := ops.filterMap removedId

end CRDTOperation

namespace DIDUpdate

/-- The counter an update carries for a node, `0` for a node it does not list. -/
def clockEntry (update : DIDUpdate) (node : String) : UInt64 :=
  ((update.clock.filter fun p => p.1 = node).map Prod.snd).foldl max 0

/-- The nodes whose counters the update increments, each as often as it does so, in a
document kept by `keeper`. -/
def ticks (update : DIDUpdate) (keeper : String) : List String :=
  update.operations.flatMap (CRDTOperation.ticks keeper) ++
    update.clock.flatMap fun p => replicate p.2.toNat p.1

end DIDUpdate

/-! ## The method set -/

def countId (methods : ORSet VerificationMethod) (id : String) : ℕ :=
  (methods.keys.filter fun m => m.id = id).card

theorem keys_remove (methods : ORSet VerificationMethod) (m : VerificationMethod) :
    (methods.remove m).keys = methods.keys.erase m := by
  ext e
  rw [mem_keys_iff, contains_remove, Finset.mem_erase, mem_keys_iff]

theorem countId_removeFirstMethod (methods : ORSet VerificationMethod)
    (order : IterOrder VerificationMethod) (id i : String) :
    countId (removeFirstMethod methods order id) i =
      countId methods i - if i = id then 1 else 0 := by
  unfold removeFirstMethod
  split
  · next m hm =>
    obtain ⟨hmem, hid⟩ := order.mem_of_find? hm
    have hid : m.id = id := by simpa using hid
    unfold countId
    rw [keys_remove, Finset.filter_erase]
    by_cases hi : i = id
    · rw [Finset.card_erase_of_mem (Finset.mem_filter.2 ⟨hmem, by simp [hid, hi]⟩), if_pos hi]
    · have hout : m ∉ methods.keys.filter fun m => m.id = i := by
        simp [hid, Ne.symm hi]
      rw [Finset.erase_eq_of_notMem hout, if_neg hi, Nat.sub_zero]
  · next hnone =>
    by_cases hi : i = id
    · have hzero : countId methods i = 0 := by
        rw [countId, Finset.card_eq_zero, Finset.filter_eq_empty_iff]
        intro m hm hid
        have := order.find?_eq_none.1 hnone m hm
        simp [hid, hi] at this
      omega
    · rw [if_neg hi, Nat.sub_zero]

theorem removeFirstMethod_of_countId {methods : ORSet VerificationMethod}
    {order : IterOrder VerificationMethod} {id : String} (h : countId methods id = 0) :
    removeFirstMethod methods order id = methods := by
  have hnone : (order.list methods.keys).find? (fun m => m.id = id) = none := by
    rw [order.find?_eq_none]
    intro m hm
    rw [countId, Finset.card_eq_zero, Finset.filter_eq_empty_iff] at h
    simpa using h hm
  rw [removeFirstMethod, hnone]

section

variable {l : List (CRDTOperation × Ambient)} {methods : ORSet VerificationMethod}

theorem countId_methodsAll (h : ∀ p ∈ l, p.1.addsMethod = false) (id : String) :
    countId (methodsAll l methods) id =
      countId methods id - (removedIds (l.map Prod.fst)).count id := by
  induction l generalizing methods with
  | nil => simp [methodsAll, removedIds]
  | cons p l ih =>
    have htail : ∀ q ∈ l, q.1.addsMethod = false := fun q hq => h q (mem_cons_of_mem _ hq)
    rw [methodsAll, foldl_cons]
    refine (ih htail).trans ?_
    obtain ⟨op, amb⟩ := p
    cases op with
    | addVerificationMethod m t n => cases h _ mem_cons_self
    | removeVerificationMethod methodId m t n =>
      have hcount : (removedIds (((.removeVerificationMethod methodId m t n, amb) ::
          l : List (CRDTOperation × Ambient)).map Prod.fst)).count id =
          (removedIds (l.map Prod.fst)).count id + if id = methodId then 1 else 0 := by
        simp only [removedIds, map_cons, filterMap_cons, removedId, count_cons,
          beq_iff_eq, @eq_comm _ methodId id]
      rw [onMethods, countId_removeFirstMethod]
      omega
    | _ => rfl

theorem methodsAll_eq_self (h : ∀ p ∈ l, p.1.addsMethod = false)
    (hzero : ∀ id ∈ removedIds (l.map Prod.fst), countId methods id = 0) :
    methodsAll l methods = methods := by
  induction l with
  | nil => rfl
  | cons p l ih =>
    have htail : ∀ q ∈ l, q.1.addsMethod = false := fun q hq => h q (mem_cons_of_mem _ hq)
    have hrest : ∀ id ∈ removedIds (l.map Prod.fst), countId methods id = 0 := by
      intro id hid
      refine hzero id ?_
      simp only [removedIds, map_cons, filterMap_cons]
      split
      · exact hid
      · exact mem_cons_of_mem _ hid
    have hstep : p.1.onMethods p.2 methods = methods := by
      obtain ⟨op, amb⟩ := p
      cases op with
      | addVerificationMethod m t n => cases h _ mem_cons_self
      | removeVerificationMethod methodId m t n =>
        exact removeFirstMethod_of_countId (hzero methodId (by simp [removedIds, removedId]))
      | _ => rfl
    rw [methodsAll, foldl_cons, hstep]
    exact ih htail hrest

/-- The instance is present or was removed. -/
def Known (methods : ORSet VerificationMethod) (m : VerificationMethod) (u : Uuid) : Prop :=
  methods.Live m u ∨ (m, u) ∈ methods.tombstones

theorem Known.onMethods {m : VerificationMethod} {u : Uuid} (h : Known methods m u)
    (op : CRDTOperation) (amb : Ambient) : Known (op.onMethods amb methods) m u := by
  cases op with
  | addVerificationMethod e t n =>
    rcases h with hlive | htomb
    · exact .inl ((live_add _ _ _ _ _).2 (.inr hlive))
    · exact .inr htomb
  | removeVerificationMethod methodId e t n =>
    rw [CRDTOperation.onMethods, removeFirstMethod]
    split
    · next m' hm' =>
      rcases h with hlive | htomb
      · by_cases he : m = m'
        · subst he
          exact .inr ((mem_tombstones_remove _ _ _ _).2 (.inr ⟨rfl, hlive⟩))
        · exact .inl ((live_remove _ _ _ _).2 ⟨he, hlive⟩)
      · exact .inr ((mem_tombstones_remove _ _ _ _).2 (.inl htomb))
    · exact h
  | _ => exact h

theorem Known.methodsAll {m : VerificationMethod} {u : Uuid} (h : Known methods m u) :
    Known (methodsAll l methods) m u := by
  induction l generalizing methods with
  | nil => exact h
  | cons p l ih => exact ih (h.onMethods p.1 p.2)

theorem known_methodsAll {p : CRDTOperation × Ambient} (hp : p ∈ l)
    (hadds : p.1.addsMethod = true) : ∃ m, Known (methodsAll l methods) m p.2.uuid := by
  induction l generalizing methods with
  | nil => cases hp
  | cons q l ih =>
    rcases mem_cons.1 hp with rfl | hl
    · obtain ⟨op, amb⟩ := p
      cases op with
      | addVerificationMethod m t n =>
        have hadded : Known (methods.add m amb.uuid) m amb.uuid :=
          .inl ((live_add _ _ _ _ _).2 (.inl ⟨rfl, rfl⟩))
        exact ⟨m, hadded.methodsAll⟩
      | _ => cases hadds
    · exact ih hl

/-- **A second replay leaves the method set alone** exactly if nothing is added and the
first one removed every method with an id it removes. -/
theorem methodsAll_twice_iff {ops : List CRDTOperation} {amb amb' : ℕ → Ambient}
    (hfresh : ∀ i m, ¬ Known (methodsAll (stamped ops amb) methods) m (amb' i).uuid) :
    methodsAll (stamped ops amb') (methodsAll (stamped ops amb) methods) =
        methodsAll (stamped ops amb) methods ↔
      (∀ op ∈ ops, op.addsMethod = false) ∧
        ∀ id ∈ removedIds ops, countId methods id ≤ (removedIds ops).count id := by
  have hfst (amb : ℕ → Ambient) {p : CRDTOperation × Ambient} (hp : p ∈ stamped ops amb) :
      p.1 ∈ ops := by
    rw [← map_fst_stamped ops amb]
    exact mem_map_of_mem hp
  constructor
  · intro h
    have hadds : ∀ op ∈ ops, op.addsMethod = false := by
      intro op hop
      rw [Bool.eq_false_iff]
      intro hadd
      obtain ⟨i, hi, rfl⟩ := getElem_of_mem hop
      have hmem : (ops[i], amb' i) ∈ stamped ops amb' := by
        refine mem_map.2 ⟨(ops[i], i), ?_, rfl⟩
        simp [mem_zipIdx_iff_getElem?]
      have hknown : ∃ m, Known (methodsAll (stamped ops amb')
          (methodsAll (stamped ops amb) methods)) m (amb' i).uuid := known_methodsAll hmem hadd
      obtain ⟨m, hm⟩ := hknown
      rw [h] at hm
      exact hfresh i m hm
    refine ⟨hadds, fun id hid => ?_⟩
    have hcount := congrArg (fun methods => countId methods id) h
    simp only [countId_methodsAll (fun p hp => hadds p.1 (hfst _ hp)), map_fst_stamped] at hcount
    have hpos : 0 < (removedIds ops).count id := count_pos_iff.2 hid
    omega
  · rintro ⟨hadds, hcount⟩
    refine methodsAll_eq_self (fun p hp => hadds p.1 (hfst _ hp)) fun id hid => ?_
    rw [map_fst_stamped] at hid
    rw [countId_methodsAll (fun p hp => hadds p.1 (hfst _ hp)), map_fst_stamped]
    exact Nat.sub_eq_zero_of_le (hcount id hid)

end

/-! ## Services -/

def RemovalsOutranked (ops : List CRDTOperation) : Prop :=
  ∀ op ∈ beforeFirstService ops, ∀ key entry, op.serviceWrite = some (key, entry) →
    ∃ op' ∈ fromFirstService ops, ∃ entry', op'.serviceWrite = some (key, entry') ∧
      entry.stamp ≤ entry'.stamp

theorem setAll_twice (m : LWWMap String Service) (writes : List (String × LWWEntry Service)) :
    (m.setAll writes).setAll writes = m.setAll writes :=
  setAll_eq_self_iff.2 fun _ _ he => below_setAll he

theorem below_setAll_new_iff {writes : List (String × LWWEntry Service)} {key : String}
    {entry : LWWEntry Service} :
    Ranked.Below LWWEntry.stamp entry ((LWWMap.new.setAll writes).entries.lookup key) ↔
      ∃ entry', (key, entry') ∈ writes ∧ entry.stamp ≤ entry'.stamp := by
  constructor
  · rintro ⟨top, htop, hle⟩
    rcases LWWMap.lookup_setAll_cases htop with hnew | hmem
    · simp [LWWMap.new] at hnew
    · exact ⟨top, hmem, hle⟩
  · rintro ⟨entry', hmem, hle⟩
    obtain ⟨top, htop, hle'⟩ := LWWMap.below_setAll (m := LWWMap.new) hmem
    exact ⟨top, htop, hle.trans hle'⟩

/-- **A second replay leaves the services alone** exactly if there was a service map, or no
service is set, or no removal was lost for good. -/
theorem serviceAll_twice_iff (ops : List CRDTOperation) (service : Option (LWWMap String Service)) :
    serviceAll ops (serviceAll ops service) = serviceAll ops service ↔
      service.isSome = true ∨ fromFirstService ops = [] ∨ RemovalsOutranked ops := by
  cases service with
  | some m =>
    refine iff_of_true ?_ (.inl rfl)
    rw [serviceAll_some, serviceAll_some, setAll_twice]
  | none =>
    rw [serviceAll_none]
    split
    · next hnil =>
      refine iff_of_true ?_ (.inr (.inl hnil))
      rw [serviceAll_none, if_pos hnil]
    · next hset =>
      -- everything from the first service on is in the map, the removals before it are not
      have hsplit : ops = beforeFirstService ops ++ fromFirstService ops :=
        (takeWhile_append_dropWhile).symm
      have hwrites : ∀ key entry, (key, entry) ∈ ops.filterMap CRDTOperation.serviceWrite ↔
          (∃ op ∈ beforeFirstService ops, op.serviceWrite = some (key, entry)) ∨
            (key, entry) ∈ (fromFirstService ops).filterMap CRDTOperation.serviceWrite := by
        intro key entry
        conv_lhs => rw [hsplit]
        rw [filterMap_append, mem_append, mem_filterMap]
      rw [serviceAll_some, some.injEq, setAll_eq_self_iff]
      simp only [isSome_none, Bool.false_eq_true, hset, false_or]
      constructor
      · intro h op hop key entry hw
        obtain ⟨entry', hmem, hle⟩ :=
          below_setAll_new_iff.1 (h key entry ((hwrites key entry).2 (.inl ⟨op, hop, hw⟩)))
        obtain ⟨op', hop', hw'⟩ := mem_filterMap.1 hmem
        exact ⟨op', hop', entry', hw', hle⟩
      · intro h key entry hmem
        rcases (hwrites key entry).1 hmem with ⟨op, hop, hw⟩ | hlate
        · obtain ⟨op', hop', entry', hw', hle⟩ := h op hop key entry hw
          exact below_setAll_new_iff.2 ⟨entry', mem_filterMap.2 ⟨op', hop', hw'⟩, hle⟩
        · exact below_setAll hlate

/-! ## The clock -/

theorem max_eq_left_iff_le (a b : UInt64) : max a b = a ↔ b ≤ a := by
  rw [← UInt64.toNat_inj, toNat_max, UInt64.le_iff_toNat_le]
  omega

theorem incrementAll_replicate (c : VectorClock) (node : String) (k : ℕ) :
    (fun c : VectorClock => c.increment node)^[k] c = c.incrementAll (replicate k node) := by
  induction k generalizing c with
  | zero => rfl
  | succ k ih =>
    rw [Function.iterate_succ_apply, ih]
    rfl

theorem vectorClock_advanceClock (clock : List (String × UInt64)) (doc : AjnaDocument) :
    (AjnaMethod.advanceClock clock doc).vectorClock =
      doc.vectorClock.incrementAll (clock.flatMap fun p => replicate p.2.toNat p.1) := by
  unfold AjnaMethod.advanceClock
  generalize doc.vectorClock = c
  induction clock generalizing c with
  | nil => rfl
  | cons p clock ih =>
    rw [foldl_cons, ih, flatMap_cons, incrementAll_append, incrementAll_replicate]

/-! ## The document after a delivery -/

namespace AjnaMethod

/-- The document an update is merged into: the stored one, or a new one. -/
def target (m : AjnaMethod) (did : String) (env : CallAmbient) : AjnaDocument :=
  (m.registry.lookup did).getD (AjnaDocument.new did m.nodeId env.created env.updated)

/-- What a delivery makes of the document. -/
def delivered (update : DIDUpdate) (env : CallAmbient) (document : AjnaDocument) : AjnaDocument :=
  advanceClock update.clock (applyAll update.operations document env.amb)

theorem lookup_mergeUpdate (host : Host) (m : AjnaMethod) (update : DIDUpdate) (env : CallAmbient) :
    (m.mergeUpdate host update env).1.registry.lookup update.did =
      some (delivered update env (m.target update.did env)) := by
  have hform := perform_eq host m env (.mergeUpdate update)
  have hperform : perform host m env (.mergeUpdate update) = m.mergeUpdate host update env :=
    rfl
  rw [hperform] at hform
  rw [hform, target]
  simp only [onlyCreates, Bool.false_eq_true, if_false, did, createsMissing, if_true]
  cases hl : m.registry.lookup update.did with
  | some document | none =>
    rw [registry_modify]
    simp only [transform, Finmap.lookup_insert]
    rfl

end AjnaMethod

section

open AjnaMethod

variable (update : DIDUpdate) (env : CallAmbient) (doc : AjnaDocument)

theorem verificationMethods_delivered :
    (delivered update env doc).verificationMethods =
      methodsAll (stamped update.operations env.amb) doc.verificationMethods :=
  verificationMethods_applyAll update.operations doc env.amb

theorem service_delivered :
    (delivered update env doc).service = serviceAll update.operations doc.service :=
  service_applyAll update.operations doc env.amb

theorem nodeId_delivered : (delivered update env doc).nodeId = doc.nodeId :=
  nodeId_applyAll update.operations doc env.amb

theorem vectorClock_delivered :
    (delivered update env doc).vectorClock =
      doc.vectorClock.incrementAll (update.ticks doc.nodeId) := by
  rw [delivered, vectorClock_advanceClock, vectorClock_applyAll, DIDUpdate.ticks,
    incrementAll_append]

end

/-! ## Delivery as a join -/

open AjnaMethod

/-- The update `u` is taken as a join, at its delivery and at its redelivery: each counter
becomes the maximum of its value and that of `u`, and the second delivery leaves methods,
services and clock as they are. -/
def MergesAsJoin (host : Host) (m : AjnaMethod) (u : DIDUpdate) (env env' : CallAmbient) : Prop :=
  ∃ d₁ d₂, (m.mergeUpdate host u env).1.registry.lookup u.did = some d₁ ∧
    ((m.mergeUpdate host u env).1.mergeUpdate host u env').1.registry.lookup u.did = some d₂ ∧
    (∀ n, d₁.vectorClock.get n = max ((m.target u.did env).vectorClock.get n) (u.clockEntry n)) ∧
    d₂.verificationMethods = d₁.verificationMethods ∧ d₂.service = d₁.service ∧
    d₂.vectorClock = d₁.vectorClock

/-- The updates that `doc` takes as a join. -/
structure Repeatable (doc : AjnaDocument) (u : DIDUpdate) : Prop where
  /-- No method is added. -/
  noAdds : ∀ op ∈ u.operations, op.addsMethod = false
  /-- An id that is removed at all is removed as often as the document has methods with
  it. -/
  removals : ∀ id ∈ removedIds u.operations,
    countId doc.verificationMethods id ≤ (removedIds u.operations).count id
  /-- No removal of a service gets lost before the first service. -/
  services : doc.service.isSome = true ∨ fromFirstService u.operations = [] ∨
    RemovalsOutranked u.operations
  /-- The increments of each counter add up to a multiple of `2 ^ 64`. -/
  rounds : ∀ n, 2 ^ 64 ∣ (u.ticks doc.nodeId).count n
  /-- The update is not ahead of the document. -/
  behind : ∀ n, u.clockEntry n ≤ doc.vectorClock.get n

/-- The UUIDs of a redelivery occur nowhere in the document. -/
def FreshUuids (doc : AjnaDocument) (env : CallAmbient) : Prop :=
  ∀ i m, ¬ Known doc.verificationMethods m (env.amb i).uuid

section

variable {u : DIDUpdate} {env env' : CallAmbient} {doc : AjnaDocument}

theorem verificationMethods_redelivered_iff (hfresh : FreshUuids (delivered u env doc) env') :
    (delivered u env' (delivered u env doc)).verificationMethods =
        (delivered u env doc).verificationMethods ↔
      (∀ op ∈ u.operations, op.addsMethod = false) ∧
        ∀ id ∈ removedIds u.operations,
          countId doc.verificationMethods id ≤ (removedIds u.operations).count id := by
  rw [verificationMethods_delivered, verificationMethods_delivered]
  refine methodsAll_twice_iff ?_
  rw [← verificationMethods_delivered]
  exact hfresh

variable (u env env' doc)

theorem service_redelivered_iff :
    (delivered u env' (delivered u env doc)).service = (delivered u env doc).service ↔
      doc.service.isSome = true ∨ fromFirstService u.operations = [] ∨
        RemovalsOutranked u.operations := by
  rw [service_delivered, service_delivered]
  exact serviceAll_twice_iff u.operations doc.service

theorem vectorClock_redelivered_iff :
    (delivered u env' (delivered u env doc)).vectorClock = (delivered u env doc).vectorClock ↔
      ∀ n, 2 ^ 64 ∣ (u.ticks doc.nodeId).count n := by
  rw [vectorClock_delivered, nodeId_delivered, vectorClock_delivered]
  exact incrementAll_twice_iff doc.vectorClock (u.ticks doc.nodeId)

end

/-- **Merging an update is a join exactly for the updates that change no counter, add no
method and lose no removal.** -/
theorem mergesAsJoin_iff (host : Host) (m : AjnaMethod) (u : DIDUpdate) (env env' : CallAmbient)
    (hfresh : FreshUuids (delivered u env (m.target u.did env)) env') :
    MergesAsJoin host m u env env' ↔ Repeatable (m.target u.did env) u := by
  generalize hdoc : m.target u.did env = doc at hfresh
  have hfirst := lookup_mergeUpdate host m u env
  have hsecond := lookup_mergeUpdate host (m.mergeUpdate host u env).1 u env'
  have htarget : (m.mergeUpdate host u env).1.target u.did env' = delivered u env doc := by
    rw [target, hfirst, getD_some, hdoc]
  rw [hdoc] at hfirst
  rw [htarget] at hsecond
  have hmethods := verificationMethods_redelivered_iff hfresh
  have hservice := service_redelivered_iff u env env' doc
  have hclock := vectorClock_redelivered_iff u env env' doc
  have hget (hrounds : ∀ n, 2 ^ 64 ∣ (u.ticks doc.nodeId).count n) (n : String) :
      (delivered u env doc).vectorClock.get n = doc.vectorClock.get n := by
    rw [vectorClock_delivered]
    exact get_incrementAll_of_dvd (hrounds n)
  constructor
  · rintro ⟨d₁, d₂, h₁, h₂, hmax, hm, hs, hc⟩
    obtain rfl : delivered u env doc = d₁ := some.inj (hfirst.symm.trans h₁)
    obtain rfl : delivered u env' (delivered u env doc) = d₂ :=
      some.inj (hsecond.symm.trans h₂)
    obtain ⟨hadds, hremovals⟩ := hmethods.1 hm
    have hrounds := hclock.1 hc
    refine ⟨hadds, hremovals, hservice.1 hs, hrounds, fun n => ?_⟩
    have hn := hmax n
    rw [hget hrounds, hdoc] at hn
    exact (max_eq_left_iff_le _ _).1 hn.symm
  · rintro ⟨hadds, hremovals, hservices, hrounds, hbehind⟩
    refine ⟨_, _, hfirst, hsecond, fun n => ?_, hmethods.2 ⟨hadds, hremovals⟩,
      hservice.2 hservices, hclock.2 hrounds⟩
    rw [hget hrounds, hdoc]
    exact ((max_eq_left_iff_le _ _).2 (hbehind n)).symm

/-! ## Two deliveries -/

namespace Sample

/-- An update that brings nothing. -/
def emptyUpdate : DIDUpdate := ⟨did, [], [], 0, "node2", none⟩

/-- An update that brings only the counter of its node. -/
def clockUpdate : DIDUpdate := ⟨did, [], [("node2", 1)], 0, "node2", none⟩

/-- An update without operations leaves the method set empty, so every UUID is fresh. -/
theorem freshUuids_of_noOperations {u : DIDUpdate} (h : u.operations = [])
    (env₁ env₂ : CallAmbient) : FreshUuids (delivered u env₁ document) env₂ := by
  have hnone : (delivered u env₁ document).verificationMethods = ORSet.new := by
    rw [verificationMethods_delivered, h]
    rfl
  intro i m hknown
  rw [hnone] at hknown
  rcases hknown with hlive | htomb
  · exact ORSet.live_new m _ hlive
  · simp at htomb

end Sample

open Sample

/-- The empty update is a join. -/
theorem mergesAsJoin_emptyUpdate : MergesAsJoin Sample.host method emptyUpdate env env := by
  refine (mergesAsJoin_iff _ method emptyUpdate env env ?_).2 ?_
  · rw [emptyUpdate]
    exact freshUuids_of_noOperations rfl _ _
  · exact ⟨by simp [emptyUpdate], by simp [emptyUpdate, removedIds],
      .inr (.inl rfl), fun n => by simp [emptyUpdate, DIDUpdate.ticks],
      fun n => UInt64.zero_le⟩

/-- Delivered twice, one increment counts twice. -/
theorem mergesAsJoin_fails_clockUpdate :
    FreshUuids (delivered clockUpdate env (method.target did env)) env ∧
    ¬ MergesAsJoin Sample.host method clockUpdate env env := by
  refine ⟨freshUuids_of_noOperations rfl _ _, ?_⟩
  rintro ⟨d₁, d₂, h₁, h₂, -, -, -, hclock⟩
  have hfirst := lookup_mergeUpdate Sample.host method clockUpdate env
  have hsecond := lookup_mergeUpdate Sample.host
    (method.mergeUpdate Sample.host clockUpdate env).1 clockUpdate env
  rw [AjnaMethod.target, hfirst, getD_some, h₂] at hsecond
  rw [h₁] at hfirst
  rw [some.inj hfirst, some.inj hsecond, vectorClock_redelivered_iff] at hclock
  have hround := hclock "node2"
  revert hround
  decide

end Idiom.Ajna
