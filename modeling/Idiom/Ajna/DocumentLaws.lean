import Idiom.Ajna.Redelivery

/-!
# Three laws of a document's updates

What a caller expects of single updates, and when the code keeps it.
-/

namespace Idiom.Ajna

open CRDTOperation List LWWMap Ranked Option Delta

/-! ## Removing a key -/

namespace AjnaDocument

/-- After either removal of `id` no method with that id is found. -/
def RemovesKey (doc : AjnaDocument) (id : String) (amb : Ambient)
    (order : IterOrder VerificationMethod) : Prop :=
  (doc.removeVerificationMethod id amb).getVerificationMethod order id = none ∧
    ∃ doc', doc.applyDeltaV2 (.vmRemove id) amb = .ok doc' ∧
      doc'.getVerificationMethod order id = none

theorem getVerificationMethod_eq_none {doc : AjnaDocument} {order : IterOrder VerificationMethod}
    {id : String} :
    doc.getVerificationMethod order id = none ↔ countId doc.verificationMethods id = 0 := by
  rw [getVerificationMethod, countId, Finset.card_eq_zero]
  simp

/-- **A removal by id removes the key** exactly if at most one method has the id. -/
theorem removesKey_iff (doc : AjnaDocument) (id : String) (amb : Ambient)
    (order : IterOrder VerificationMethod) :
    doc.RemovesKey id amb order ↔
      ∀ m ∈ doc.verificationMethods.keys, ∀ m' ∈ doc.verificationMethods.keys,
        m.id = id → m'.id = id → m = m' := by
  have hleft : countId (removeFirstMethod doc.verificationMethods amb.order id) id = 0 ↔
      ∀ m ∈ doc.verificationMethods.keys, ∀ m' ∈ doc.verificationMethods.keys,
        m.id = id → m'.id = id → m = m' := by
    rw [countId_removeFirstMethod, if_pos rfl, Nat.sub_eq_zero_iff_le, countId, Finset.card_le_one]
    simp only [Finset.mem_filter, and_imp]
    constructor
    · intro h m hm m' hm' hid hid'
      exact h m hm hid m' hm' hid'
    · intro h m hm hid m' hm' hid'
      exact h m hm m' hm' hid hid'
  rw [RemovesKey, getVerificationMethod_eq_none]
  constructor
  · rintro ⟨hcall, -⟩
    exact hleft.1 hcall
  · intro h
    refine ⟨hleft.2 h, _, rfl, ?_⟩
    rw [getVerificationMethod_eq_none]
    exact hleft.2 h

/-- A new document to which two methods of one id were added: `key` and `key'` are their
public keys. -/
def twoKeys (key key' : String) : AjnaDocument :=
  let doc := new "did:ajna:z1" "n" 0 0
  let method := fun key => (⟨"did:ajna:z1#key-1", "Multikey", "did:ajna:z1", key, none⟩ :
    VerificationMethod)
  { doc with
    verificationMethods := (doc.verificationMethods.add (method key) 1).add (method key') 2 }

theorem removesKey_fails : ∃ amb order,
    ¬ (twoKeys "z6MkA" "z6MkB").RemovesKey "did:ajna:z1#key-1" amb order := by
  refine ⟨⟨1, 0, 0, .some⟩, .some, ?_⟩
  rintro ⟨hcall, -⟩
  rw [getVerificationMethod_eq_none] at hcall
  have hcount := countId_removeFirstMethod (twoKeys "z6MkA" "z6MkB").verificationMethods .some
    "did:ajna:z1#key-1" "did:ajna:z1#key-1"
  have htwo : 1 < countId (twoKeys "z6MkA" "z6MkB").verificationMethods "did:ajna:z1#key-1" := by
    rw [countId, Finset.one_lt_card]
    refine ⟨⟨"did:ajna:z1#key-1", "Multikey", "did:ajna:z1", "z6MkA", none⟩, ?_,
      ⟨"did:ajna:z1#key-1", "Multikey", "did:ajna:z1", "z6MkB", none⟩, ?_, by simp⟩ <;>
      simp [twoKeys, ORSet.mem_keys_iff, ORSet.contains_add]
  rw [if_pos rfl] at hcount
  have hzero : countId (removeFirstMethod (twoKeys "z6MkA" "z6MkB").verificationMethods .some
      "did:ajna:z1#key-1") "did:ajna:z1#key-1" = 0 := hcall
  omega

end AjnaDocument

open AjnaDocument

/-! ## Services -/

namespace CRDTOperation

/-- Timestamp first, node id second. -/
def stamp : CRDTOperation → DateTime ×ₗ String
  | .addVerificationMethod _ timestamp nodeId => toLex (timestamp, nodeId)
  | .removeVerificationMethod _ _ timestamp nodeId => toLex (timestamp, nodeId)
  | .setService _ timestamp nodeId => toLex (timestamp, nodeId)
  | .removeService _ timestamp nodeId => toLex (timestamp, nodeId)

def setId : CRDTOperation → Option String
  | .setService service _ _ => some service.id
  | _ => none

def removedServiceId : CRDTOperation → Option String
  | .removeService serviceId _ _ => some serviceId
  | _ => none

end CRDTOperation

/-- Service operations, no two of which have the same timestamp and node id. -/
structure ServiceOperations where
  ops : List CRDTOperation
  services : ∀ op ∈ ops, (op.serviceWrite).isSome = true
  stamps : (ops.map stamp).Nodup

/-- In whatever order they are applied, the operations leave the same services. -/
def Commutes (doc : AjnaDocument) (l : ServiceOperations) : Prop :=
  ∀ ops ops' amb amb', ops.Perm l.ops → ops'.Perm l.ops → ∀ serviceId,
    (applyAll ops doc amb).getService serviceId = (applyAll ops' doc amb').getService serviceId

def RemovalsUndone (l : ServiceOperations) : Prop :=
  ∀ r ∈ l.ops, ∀ serviceId, r.removedServiceId = some serviceId →
    (∃ op ∈ l.ops, op.setId = some serviceId) →
      ∃ op ∈ l.ops, op.setId = some serviceId ∧ r.stamp < op.stamp

section

variable {ops : List CRDTOperation} {key : String} {entry : LWWEntry Service}

theorem mem_writes (h : (key, entry) ∈ ops.filterMap CRDTOperation.serviceWrite) :
    ∃ op ∈ ops, op.serviceWrite = some (key, entry) ∧ op.stamp = entry.stamp ∧
      ((op.setId = some key ∧ op.setsService = true ∧ entry.isTombstone = false) ∨
        op.removedServiceId = some key ∧ entry.isTombstone = true) := by
  obtain ⟨op, hop, hw⟩ := mem_filterMap.1 h
  refine ⟨op, hop, hw, ?_⟩
  cases op with
  | setService s timestamp nodeId =>
    cases hw
    exact ⟨rfl, .inl ⟨rfl, rfl, rfl⟩⟩
  | removeService serviceId timestamp nodeId =>
    cases hw
    exact ⟨rfl, .inr ⟨rfl, rfl⟩⟩
  | _ => cases hw

variable {op : CRDTOperation}

theorem write_of_setId (h : op.setId = some key) :
    ∃ entry, op.serviceWrite = some (key, entry) ∧ entry.stamp = op.stamp ∧
      entry.isTombstone = false ∧ op.setsService = true := by
  cases op with
  | setService s timestamp nodeId =>
    cases h
    exact ⟨_, rfl, rfl, rfl, rfl⟩
  | _ => cases h

theorem write_of_removedServiceId (h : op.removedServiceId = some key) :
    ∃ entry, op.serviceWrite = some (key, entry) ∧ entry.stamp = op.stamp ∧
      op.setsService = false := by
  cases op with
  | removeService serviceId timestamp nodeId =>
    cases h
    exact ⟨_, rfl, rfl, rfl⟩
  | _ => cases h

variable {doc : AjnaDocument}

theorem getService_applyAll_none (h : doc.service = none) (amb : ℕ → Ambient) (serviceId : String) :
    (applyAll ops doc amb).getService serviceId =
      (new.setAll ((fromFirstService ops).filterMap CRDTOperation.serviceWrite)).get
        serviceId := by
  rw [getService, service_applyAll, h, serviceAll_none]
  split
  · next hnil =>
    rw [hnil]
    rfl
  · rfl

theorem mem_fromFirstService (hop : op ∈ ops) (hsets : op.setsService = true) :
    op ∈ fromFirstService ops := by
  have hmem : op ∈ beforeFirstService ops ++ fromFirstService ops := by
    rw [beforeFirstService, fromFirstService, takeWhile_append_dropWhile]
    exact hop
  rcases mem_append.1 hmem with hbefore | hlate
  · have hnot : (!op.setsService) = true := all_eq_true.1 all_takeWhile op hbefore
    simp [hsets] at hnot
  · exact hlate

theorem ServiceOperations.eq_of_stamp (l : ServiceOperations) {op op' : CRDTOperation}
    (h : op ∈ l.ops) (h' : op' ∈ l.ops) (heq : op.stamp = op'.stamp) : op = op' :=
  inj_on_of_nodup_map l.stamps h h' heq

theorem get_fromFirstService (l : ServiceOperations) (hundone : RemovalsUndone l)
    (hperm : ops.Perm l.ops) :
    (new.setAll ((fromFirstService ops).filterMap CRDTOperation.serviceWrite)).get key =
      (new.setAll (ops.filterMap CRDTOperation.serviceWrite)).get key := by
  have hsub : ∀ op ∈ fromFirstService ops, op ∈ ops := fun op hop =>
    (dropWhile_sublist _).subset hop
  by_cases hset : ∃ op ∈ l.ops, op.setId = some key
  · obtain ⟨s, hs, hskey⟩ := hset
    obtain ⟨entry, hwrite, -, -, -⟩ := write_of_setId hskey
    obtain ⟨top, htop, htopmem, hmax⟩ := lookup_setAll_new
      (mem_filterMap.2 ⟨s, hperm.mem_iff.2 hs, hwrite⟩)
    obtain ⟨op, hop, hopwrite, hopstamp, hkind⟩ := mem_writes htopmem
    -- the highest write of all is that of a set, which is not lost
    rcases hkind with ⟨-, hsets, -⟩ | ⟨hremoves, -⟩
    · have hlate : (key, top) ∈ (fromFirstService ops).filterMap CRDTOperation.serviceWrite :=
        mem_filterMap.2 ⟨op, mem_fromFirstService hop hsets, hopwrite⟩
      obtain ⟨top', htop', htopmem', hmax'⟩ := lookup_setAll_new hlate
      obtain ⟨op', hop', hopwrite', hopstamp', -⟩ := mem_writes htopmem'
      have hle : top'.stamp ≤ top.stamp :=
        hmax top' (mem_filterMap.2 ⟨op', hsub op' hop', hopwrite'⟩)
      have hstamp : op.stamp = op'.stamp := by
        rw [hopstamp, hopstamp']
        exact le_antisymm (hmax' top hlate) hle
      have hsame : op = op' :=
        l.eq_of_stamp (hperm.mem_iff.1 hop) (hperm.mem_iff.1 (hsub op' hop')) hstamp
      rw [← hsame, hopwrite] at hopwrite'
      cases hopwrite'
      rw [LWWMap.get, LWWMap.get, htop, htop']
    · obtain ⟨op', hop', hset', hlt⟩ :=
        hundone op (hperm.mem_iff.1 hop) key hremoves ⟨s, hs, hskey⟩
      obtain ⟨entry', hwrite', hstamp', -, -⟩ := write_of_setId hset'
      have hle : entry'.stamp ≤ top.stamp :=
        hmax entry' (mem_filterMap.2 ⟨op', hperm.mem_iff.2 hop', hwrite'⟩)
      rw [hstamp', ← hopstamp] at hle
      exact absurd hle hlt.not_ge
  · have hnone : ∀ ops' : List CRDTOperation, (∀ op ∈ ops', op ∈ ops) →
        (new.setAll (ops'.filterMap CRDTOperation.serviceWrite)).get key = none := by
      intro ops' hops'
      refine get_setAll_new_eq_none fun entry hmem => ?_
      obtain ⟨op, hop, -, -, hkind⟩ := mem_writes hmem
      rcases hkind with ⟨hsets, -⟩ | ⟨-, htomb⟩
      · exact absurd ⟨op, hperm.mem_iff.1 (hops' op hop), hsets⟩ hset
      · exact htomb
    rw [hnone _ hsub, hnone ops fun op hop => hop]

theorem ServiceOperations.nodup_writes (l : ServiceOperations) (hperm : ops.Perm l.ops) :
    ((ops.filterMap CRDTOperation.serviceWrite).map fun w => w.2.stamp).Nodup := by
  have hstamps : (ops.map stamp).Nodup := (hperm.map _).nodup_iff.2 l.stamps
  have heq : (ops.filterMap CRDTOperation.serviceWrite).map (fun w => w.2.stamp) =
      ops.map stamp := by
    have hservices : ∀ op ∈ ops, (op.serviceWrite).isSome = true := fun op hop =>
      l.services op (hperm.mem_iff.1 hop)
    clear hperm hstamps
    induction ops with
    | nil => rfl
    | cons op ops ih =>
      have hhead := hservices op mem_cons_self
      rw [map_cons, ← ih fun op' hop' => hservices op' (mem_cons_of_mem _ hop')]
      cases op with
      | setService s timestamp nodeId | removeService serviceId timestamp nodeId => rfl
      | _ => cases hhead
  rw [heq]
  exact hstamps

theorem getService_applyAll_some {m : LWWMap String Service} (h : doc.service = some m)
    (amb : ℕ → Ambient) (serviceId : String) :
    (applyAll ops doc amb).getService serviceId =
      (m.setAll (ops.filterMap CRDTOperation.serviceWrite)).get serviceId := by
  rw [getService, service_applyAll, h, serviceAll_some, bind_some]

theorem getService_removals_first (l : ServiceOperations) (h : doc.service = none)
    (amb : ℕ → Ambient) (hset : ∃ op ∈ l.ops, op.setId = some key) :
    ((applyAll (l.ops.filter (fun op => !op.setsService) ++ l.ops.filter setsService) doc
      amb).getService key).isSome = true := by
  have hlate : fromFirstService (l.ops.filter (fun op => !op.setsService) ++
      l.ops.filter setsService) = fromFirstService (l.ops.filter setsService) := by
    unfold fromFirstService
    rw [dropWhile_append_of_pos]
    intro op hop
    exact (mem_filter.1 hop).2
  obtain ⟨s, hs, hskey⟩ := hset
  obtain ⟨entry, hwrite, -, -, hsets⟩ := write_of_setId hskey
  have hmem : s ∈ fromFirstService (l.ops.filter setsService) :=
    mem_fromFirstService (mem_filter.2 ⟨hs, hsets⟩) hsets
  obtain ⟨top, htop, htopmem, -⟩ :=
    LWWMap.lookup_setAll_new (mem_filterMap.2 ⟨s, hmem, hwrite⟩)
  obtain ⟨op, hop, hopwrite, -, -⟩ := mem_writes htopmem
  have hopsets : op.setsService = true :=
    (mem_filter.1 ((dropWhile_sublist _).subset hop)).2
  have hvalue : top.isTombstone = false := by
    cases op with
    | setService s timestamp nodeId => cases hopwrite; rfl
    | _ => cases hopsets
  rw [getService_applyAll_none h, hlate, LWWMap.get, htop, bind_some, hvalue]
  rfl

theorem getService_removals_last (l : ServiceOperations) (h : doc.service = none)
    (amb : ℕ → Ambient) {r : CRDTOperation} (hr : r ∈ l.ops)
    (hremoves : r.removedServiceId = some key) (hset : ∃ op ∈ l.ops, op.setId = some key)
    (hlast : ∀ op ∈ l.ops, op.setId = some key → ¬ r.stamp < op.stamp) :
    (applyAll (l.ops.filter setsService ++ l.ops.filter (fun op => !op.setsService)) doc
      amb).getService key = none := by
  have hall : fromFirstService (l.ops.filter setsService ++
      l.ops.filter (fun op => !op.setsService)) =
        l.ops.filter setsService ++ l.ops.filter (fun op => !op.setsService) := by
    obtain ⟨s, hs, hskey⟩ := hset
    obtain ⟨-, -, -, -, hsets⟩ := write_of_setId hskey
    have hmem : s ∈ l.ops.filter setsService := mem_filter.2 ⟨hs, hsets⟩
    cases hfilter : l.ops.filter setsService with
    | nil => rw [hfilter] at hmem; cases hmem
    | cons op rest =>
      have hop : op ∈ l.ops.filter setsService := by
        rw [hfilter]
        exact mem_cons_self
      rw [fromFirstService, cons_append]
      simp [(mem_filter.1 hop).2]
  have hperm := filter_append_perm setsService l.ops
  obtain ⟨entry, hwrite, hstamp, -⟩ := write_of_removedServiceId hremoves
  obtain ⟨top, htop, htopmem, hmax⟩ :=
    LWWMap.lookup_setAll_new (mem_filterMap.2 ⟨r, hperm.mem_iff.2 hr, hwrite⟩)
  obtain ⟨op, hop, -, hopstamp, hkind⟩ := mem_writes htopmem
  rw [getService_applyAll_none h, hall, LWWMap.get, htop, bind_some]
  rcases hkind with ⟨hsetid, -, -⟩ | ⟨-, htomb⟩
  · have hle : r.stamp ≤ op.stamp := by
      rw [← hstamp, hopstamp]
      exact hmax entry (mem_filterMap.2 ⟨r, hperm.mem_iff.2 hr, hwrite⟩)
    have hopmem : op ∈ l.ops := hperm.mem_iff.1 hop
    have hne : r.stamp ≠ op.stamp := by
      intro heq
      rw [l.eq_of_stamp hr hopmem heq] at hremoves
      cases op <;> simp [setId, removedServiceId] at hsetid hremoves
    exact absurd (lt_of_le_of_ne hle hne) (hlast op hopmem hsetid)
  · rw [if_pos htomb]

end

/-- Removals first and removals last agree only on services that are set once more. -/
theorem removalsUndone_of_commutes {doc : AjnaDocument} {l : ServiceOperations}
    (hservice : doc.service = none) (h : Commutes doc l) : RemovalsUndone l := by
  intro r hr serviceId hremoves hset
  by_contra hlast
  push Not at hlast
  have amb : ℕ → Ambient := fun _ => ⟨0, 0, 0, .some⟩
  have hperm := filter_append_perm setsService l.ops
  have hfirst := getService_removals_first l hservice amb hset
  rw [h _ _ amb amb (perm_append_comm.trans hperm) hperm,
    getService_removals_last l hservice amb hr hremoves hset
      fun op hop hid => not_lt_of_ge (hlast op hop hid)] at hfirst
  cases hfirst

/-- **Service operations commute** exactly if the document has a service map, or every
service that is set and removed is set again after the removal. -/
theorem commutes_iff (doc : AjnaDocument) (l : ServiceOperations) :
    Commutes doc l ↔ doc.service.isSome = true ∨ RemovalsUndone l := by
  have hwrites : ∀ {ops ops' : List CRDTOperation}, ops.Perm l.ops → ops'.Perm l.ops →
      (ops.filterMap CRDTOperation.serviceWrite).Perm (ops'.filterMap CRDTOperation.serviceWrite) :=
    fun hperm hperm' => (hperm.trans hperm'.symm).filterMap _
  cases hservice : doc.service with
  | some m =>
    refine iff_of_true ?_ (.inl rfl)
    intro ops ops' amb amb' hperm hperm' serviceId
    rw [getService_applyAll_some hservice, getService_applyAll_some hservice,
      setAll_perm m (hwrites hperm hperm') (l.nodup_writes hperm)]
  | none =>
    simp only [isSome_none, Bool.false_eq_true, false_or]
    constructor
    · intro h
      exact removalsUndone_of_commutes hservice h
    · intro hundone ops ops' amb amb' hperm hperm' serviceId
      rw [getService_applyAll_none hservice, getService_applyAll_none hservice,
        get_fromFirstService l hundone hperm, get_fromFirstService l hundone hperm',
        setAll_perm new (hwrites hperm hperm') (l.nodup_writes hperm)]

def setThenRemoved : ServiceOperations where
  ops := [.setService ⟨"#agent", "DIDCommMessaging", "https://a.example", ∅⟩ 1 "n",
    .removeService "#agent" 2 "n"]
  services := by simp [CRDTOperation.serviceWrite]
  stamps := by simp [stamp]

theorem commutes_fails : ¬ Commutes (new "did:ajna:z1" "n" 0 0) setThenRemoved := by
  intro h
  obtain ⟨op, hop, hset, hlt⟩ := removalsUndone_of_commutes rfl h
    (.removeService "#agent" 2 "n") (by simp [setThenRemoved]) "#agent" rfl
    ⟨_, mem_cons_self, rfl⟩
  rcases mem_pair.1 hop with rfl | rfl
  · exact absurd hlt (by simp [stamp, Prod.Lex.toLex_lt_toLex])
  · cases hset

/-! ## Policy writes -/

/-- A Lamport time that, read as a signed number of milliseconds, is a date. -/
def IsDate (ts : UInt64) : Prop :=
  ts.toNat ≤ 8210266876799999 ∨ 2 ^ 64 - 8334601228800000 ≤ ts.toNat

theorem toInt_toInt64 (ts : UInt64) :
    ts.toInt64.toInt = if ts.toNat < 2 ^ 63 then (ts.toNat : ℤ) else ts.toNat - 2 ^ 64 := by
  have h : ts.toInt64.toInt = ts.toBitVec.toInt := rfl
  rw [h, BitVec.toInt_eq_toNat_cond]
  have hn : ts.toBitVec.toNat = ts.toNat := rfl
  split <;> split <;> omega

theorem timestampMillisOpt_isSome (ms : ℤ) :
    (timestampMillisOpt ms).isSome = true ↔ -8334601228800000 ≤ ms ∧ ms ≤ 8210266876799999 := by
  unfold timestampMillisOpt
  split
  · next h => exact iff_of_true rfl h
  · next h => exact iff_of_false (by simp) h

theorem applies_propSet {key : String} {value : Json} {ts : UInt64} :
    (propSet key value ts).Applies ↔ IsDate ts := by
  have hlt := ts.toNat_lt
  rw [Applies, timestampMillisOpt_isSome, toInt_toInt64, IsDate]
  split <;> omega

theorem toInt64_lt_iff {ts₁ ts₂ : UInt64} (h : ts₁ < ts₂) :
    ts₁.toInt64.toInt < ts₂.toInt64.toInt ↔ (ts₁.toNat < 2 ^ 63 ↔ ts₂.toNat < 2 ^ 63) := by
  have hlt := UInt64.lt_iff_toNat_lt.1 h
  have hbound := ts₂.toNat_lt
  rw [toInt_toInt64, toInt_toInt64]
  split <;> split <;> omega

/-- The clock reading a policy write is stamped with. -/
def lamportTime (ts : UInt64) : DateTime := ts.toInt64.toInt * 1000000

namespace AjnaDocument

/-- What the policy holds at a key, a tombstone included. -/
def policyEntry (doc : AjnaDocument) (key : String) : Option (LWWEntry Json) :=
  doc.policy.bind fun p => p.entries.lookup key

theorem getPolicy_eq (doc : AjnaDocument) (key : String) :
    doc.getPolicy key =
      (doc.policyEntry key).bind fun e => if e.isTombstone then none else some e.value := by
  unfold getPolicy policyEntry
  cases doc.policy <;> rfl

def policyStamp (doc : AjnaDocument) (ts : UInt64) : DateTime ×ₗ String :=
  toLex (lamportTime ts, doc.nodeId)

/-- The entry that a policy write offers. -/
def policyWrite (doc : AjnaDocument) (value : Json) (ts : UInt64) : LWWEntry Json :=
  .withTimestamp value (lamportTime ts) doc.nodeId

theorem policyWrite_congr {doc d : AjnaDocument} (h : d.nodeId = doc.nodeId) (value : Json)
    (ts : UInt64) : d.policyWrite value ts = doc.policyWrite value ts := by
  rw [policyWrite, policyWrite, h]

theorem policyEntry_propSet {doc d : AjnaDocument} {key : String} {value : Json} {ts : UInt64}
    {amb : Ambient} (h : doc.applyDeltaV2 (.propSet key value ts) amb = .ok d) :
    d.policyEntry key =
        join LWWEntry.stamp (doc.policyEntry key) (some (doc.policyWrite value ts)) ∧
      d.nodeId = doc.nodeId := by
  have happlied := applied_of_ok h
  refine ⟨?_, happlied.nodeId⟩
  rw [policyEntry, happlied.policy, onPolicy, bind_some, setWithTimestamp,
    lookup_setEntry, if_pos rfl, policyEntry, policyWrite]
  cases doc.policy <;> rfl

/-- Of two writes of a policy key, in either order, the second one's value is kept. -/
def WritesInOrder (doc : AjnaDocument) (key : String) (ts₁ ts₂ : UInt64) : Prop :=
  ∀ value₁ value₂ amb₁ amb₂,
    (∃ d d', doc.applyDeltaV2 (.propSet key value₁ ts₁) amb₁ = .ok d ∧
      d.applyDeltaV2 (.propSet key value₂ ts₂) amb₂ = .ok d' ∧
      d'.getPolicy key = some value₂) ∧
    ∃ d d', doc.applyDeltaV2 (.propSet key value₂ ts₂) amb₂ = .ok d ∧
      d.applyDeltaV2 (.propSet key value₁ ts₁) amb₁ = .ok d' ∧
      d'.getPolicy key = some value₂

section

variable {doc : AjnaDocument} {key : String} {ts₁ ts₂ : UInt64}

theorem policyStamp_lt_iff (h : ts₁ < ts₂) :
    doc.policyStamp ts₁ < doc.policyStamp ts₂ ↔ (ts₁.toNat < 2 ^ 63 ↔ ts₂.toNat < 2 ^ 63) := by
  rw [← toInt64_lt_iff h, policyStamp, policyStamp, Prod.Lex.toLex_lt_toLex]
  simp only [lt_irrefl, and_false, or_false]
  show ts₁.toInt64.toInt * 1000000 < ts₂.toInt64.toInt * 1000000 ↔ _
  omega

/-- The condition is enough: the second write outranks whatever is there, and stays. -/
theorem writesInOrder_of (hdate₁ : IsDate ts₁) (hdate₂ : IsDate ts₂)
    (hlt : doc.policyStamp ts₁ < doc.policyStamp ts₂)
    (hold : ∀ entry, doc.policyEntry key = some entry → entry.stamp < doc.policyStamp ts₂) :
    doc.WritesInOrder key ts₁ ts₂ := by
  intro value₁ value₂ amb₁ amb₂
  have happlies₁ : (propSet key value₁ ts₁).Applies := applies_propSet.2 hdate₁
  have happlies₂ : (propSet key value₂ ts₂).Applies := applies_propSet.2 hdate₂
  constructor
  · obtain ⟨d, hd⟩ := applyDeltaV2_ok happlies₁ doc amb₁
    obtain ⟨d', hd'⟩ := applyDeltaV2_ok happlies₂ d amb₂
    refine ⟨d, d', hd, hd', ?_⟩
    obtain ⟨hentry, hnode⟩ := policyEntry_propSet hd
    rw [getPolicy_eq, (policyEntry_propSet hd').1, hentry, policyWrite_congr hnode, join_eq_right]
    · rfl
    · intro a ha
      rcases join_eq_some ha with hstored | ⟨hfirst, -⟩
      · exact hold a hstored
      · cases hfirst
        exact hlt
  · obtain ⟨d, hd⟩ := applyDeltaV2_ok happlies₂ doc amb₂
    obtain ⟨d', hd'⟩ := applyDeltaV2_ok happlies₁ d amb₁
    refine ⟨d, d', hd, hd', ?_⟩
    obtain ⟨hentry, hnode⟩ := policyEntry_propSet hd
    have hsecond : d.policyEntry key = some (doc.policyWrite value₂ ts₂) := by
      rw [hentry]
      exact join_eq_right hold
    rw [getPolicy_eq, (policyEntry_propSet hd').1, hsecond, policyWrite_congr hnode,
      join_some_some, if_neg]
    · rfl
    · exact not_lt_of_gt hlt

/-- The condition is necessary: a value that is nowhere else can only come from the second
write. -/
theorem of_writesInOrder (h : doc.WritesInOrder key ts₁ ts₂) :
    IsDate ts₁ ∧ IsDate ts₂ ∧ doc.policyStamp ts₁ < doc.policyStamp ts₂ ∧
      ∀ entry, doc.policyEntry key = some entry → entry.stamp < doc.policyStamp ts₂ := by
  -- the first write repeats what the policy holds, so that the value of the second is new
  obtain ⟨old, hstored⟩ : ∃ old, ∀ entry, doc.policyEntry key = some entry → entry.value = old := by
    cases hentry : doc.policyEntry key with
    | none => exact ⟨.null, by simp⟩
    | some entry => exact ⟨entry.value, by simp⟩
  obtain ⟨fresh, hfresh⟩ : ∃ fresh, fresh ≠ old := by
    cases old with
    | null => exact ⟨.bool true, by simp⟩
    | _ => exact ⟨.null, by simp⟩
  obtain ⟨⟨d, d', hd, hd', hget⟩, -⟩ :=
    h old fresh ⟨0, 0, 0, .some⟩ ⟨0, 0, 0, .some⟩
  refine ⟨applies_propSet.1 (applies_of_ok hd), applies_propSet.1 (applies_of_ok hd'), ?_⟩
  obtain ⟨hentry, hnode⟩ := policyEntry_propSet hd
  rw [getPolicy_eq, (policyEntry_propSet hd').1, policyWrite_congr hnode, bind_eq_some_iff] at hget
  obtain ⟨e, he, hvalue⟩ := hget
  have hvalue : e.value = fresh := by
    split at hvalue
    · cases hvalue
    · simpa using hvalue
  have hbelow : ∀ a, d.policyEntry key = some a → a.stamp < doc.policyStamp ts₂ := by
    rcases join_eq_some he with hheld | ⟨hsecond, hbelow⟩
    · rw [hentry] at hheld
      rcases join_eq_some hheld with hdoc | ⟨hfirst, -⟩
      · exact absurd (hvalue ▸ hstored e hdoc) hfresh
      · cases hfirst
        exact absurd hvalue.symm hfresh
    · cases hsecond
      exact hbelow
  have hunder : ∀ {x}, Below LWWEntry.stamp x (d.policyEntry key) →
      x.stamp < doc.policyStamp ts₂ := by
    rintro x ⟨a, ha, hle⟩
    exact hle.trans_lt (hbelow a ha)
  constructor
  · refine hunder (x := doc.policyWrite old ts₁) ?_
    rw [hentry]
    exact (below_self _).join_right _
  · intro entry hstored'
    refine hunder ?_
    rw [hentry, hstored']
    exact (below_self _).join_left _

/-- Of two policy writes, **the later Lamport time is kept**, in either order, exactly if
both times are dates, the first is not cast to a later one, and the policy holds nothing
as late as the second. -/
theorem writesInOrder_iff (h : ts₁ < ts₂) :
    doc.WritesInOrder key ts₁ ts₂ ↔
      IsDate ts₁ ∧ IsDate ts₂ ∧ (ts₁.toNat < 2 ^ 63 ↔ ts₂.toNat < 2 ^ 63) ∧
        ∀ entry, doc.policyEntry key = some entry → entry.stamp < doc.policyStamp ts₂ := by
  constructor
  · intro hwrites
    obtain ⟨hdate₁, hdate₂, hlt, hold⟩ := of_writesInOrder hwrites
    exact ⟨hdate₁, hdate₂, (policyStamp_lt_iff h).1 hlt, hold⟩
  · rintro ⟨hdate₁, hdate₂, hside, hold⟩
    exact writesInOrder_of hdate₁ hdate₂ ((policyStamp_lt_iff h).2 hside) hold

end

end AjnaDocument

theorem fromOperationV2_ok_iff (host : Host) (op : Operation) (nodeId : String) :
    (∃ node, DagNode.fromOperationV2 host op nodeId = .ok node) ↔
      -8334601228800000 ≤ op.timestampMs.toInt ∧ op.timestampMs.toInt ≤ 8210266876799999 := by
  rw [← timestampMillisOpt_isSome]
  unfold DagNode.fromOperationV2
  cases timestampMillisOpt op.timestampMs.toInt with
  | none => exact iff_of_false (by simp) (by simp)
  | some timestamp => exact iff_of_true ⟨_, rfl⟩ rfl

/-- **Policy writes**: a delta applies exactly if its Lamport time is a date, a history
node is made exactly if the operation's timestamp is one, and of two writes the later one
is kept exactly as `writesInOrder_iff` says. -/
theorem policyWrites_iff (doc : AjnaDocument) (key : String) :
    (∀ value ts amb, (∃ d, doc.applyDeltaV2 (.propSet key value ts) amb = .ok d) ↔ IsDate ts) ∧
    (∀ host (op : Operation) nodeId, (∃ node, DagNode.fromOperationV2 host op nodeId = .ok node) ↔
        -8334601228800000 ≤ op.timestampMs.toInt ∧ op.timestampMs.toInt ≤ 8210266876799999) ∧
    ∀ ts₁ ts₂, ts₁ < ts₂ →
      (doc.WritesInOrder key ts₁ ts₂ ↔
        IsDate ts₁ ∧ IsDate ts₂ ∧ (ts₁.toNat < 2 ^ 63 ↔ ts₂.toNat < 2 ^ 63) ∧
          ∀ entry, doc.policyEntry key = some entry → entry.stamp < doc.policyStamp ts₂) := by
  refine ⟨fun value ts amb => ?_, fromOperationV2_ok_iff, fun ts₁ ts₂ h =>
    writesInOrder_iff h⟩
  constructor
  · rintro ⟨d, hd⟩
    exact applies_propSet.1 (applies_of_ok hd)
  · intro hdate
    exact applyDeltaV2_ok (applies_propSet.2 hdate) doc amb

theorem policyWrites_iff_new : (new "did:ajna:z1" "n" 0 0).WritesInOrder "threshold" 1 2 := by
  have hnew : ∀ entry,
      (new "did:ajna:z1" "n" 0 0).policyEntry "threshold" = some entry →
        entry.stamp < (new "did:ajna:z1" "n" 0 0).policyStamp 2 := by
    intro entry hentry
    cases hentry
  exact ((policyWrites_iff _ "threshold").2.2 1 2 (by decide)).2
    ⟨.inl (by decide), .inl (by decide), by decide, hnew⟩

/-- The time `2 ^ 63 - 1` is not a date, and `2 ^ 64 - 1` is read as the millisecond before
the epoch. -/
theorem policyWrites_fails : ∃ amb,
    (new "did:ajna:z1" "n" 0 0).applyDeltaV2
        (.propSet "threshold" .null 9223372036854775807) amb = .error .panicked ∧
      ¬ (new "did:ajna:z1" "n" 0 0).WritesInOrder "threshold" 0 18446744073709551615 := by
  refine ⟨⟨0, 0, 0, .some⟩, ?_, ?_⟩
  · refine applyDeltaV2_panicked ?_ _ _
    rw [applies_propSet]
    rintro (hle | hge)
    · exact absurd hle (by decide)
    · exact absurd hge (by decide)
  · intro h
    obtain ⟨-, -, hside, -⟩ := (writesInOrder_iff (by decide)).1 h
    exact absurd (hside.1 (by decide)) (by decide)

end Idiom.Ajna
