import Idiom.Crdt.VectorClock
import Mathlib.Order.Preorder.Finite

/-!
# The causal order of vector clocks (`did/src/ajna/vector_clock.rs`)

`happens_before` runs over the nodes of one clock and then over those of the other; `compare` asks
first whether the two maps are equal.
-/

namespace Idiom

open Finmap

/-- Ordering relationship between two vector clocks. -/
inductive ClockOrdering where
  | equal
  | before
  | after
  | concurrent
  deriving DecidableEq

namespace VectorClock

/-! ## The comparison -/

/-- Check all nodes in `self`; `none` is the early return. -/
def checkOwn (self other : VectorClock) : List String → Bool → Option Bool
  | [], strictlyLess => some strictlyLess
  | node :: nodes, strictlyLess =>
    let time := self.get node
    let otherTime := other.get node
    if time > otherTime then none
    else self.checkOwn other nodes (if time < otherTime then true else strictlyLess)

/-- Check nodes that exist in `other` but not in `self`. -/
def checkOther (self other : VectorClock) : List String → Bool → Bool
  | [], strictlyLess => strictlyLess
  | node :: nodes, strictlyLess =>
    let time := other.get node
    self.checkOther other nodes (if node ∉ self.clocks ∧ time > 0 then true else strictlyLess)

/-- Every map has an iteration order of its own. -/
def happensBefore (order order' : IterOrder String) (self other : VectorClock) : Bool :=
  match self.checkOwn other (self.nodeIds order) false with
  | none => false
  | some strictlyLess => self.checkOther other (other.nodeIds order') strictlyLess

instance : DecidableEq VectorClock := fun c d =>
  decidable_of_iff (c.clocks = d.clocks) VectorClock.ext_iff.symm

def isConcurrent (order order' : IterOrder String) (self other : VectorClock) : Bool :=
  !self.happensBefore order order' other && !other.happensBefore order' order self && self ≠ other

def compare (order order' : IterOrder String) (self other : VectorClock) : ClockOrdering :=
  if self = other then .equal
  else if self.happensBefore order order' other then .before
  else if other.happensBefore order' order self then .after
  else .concurrent

/-! ## The order -/

/-- Clocks are ordered node by node. -/
instance : Preorder VectorClock := Preorder.lift fun c n => (c.get n).toNat

theorem le_def {c d : VectorClock} : c ≤ d ↔ ∀ n, c.get n ≤ d.get n := by
  exact Iff.rfl

theorem lt_def {c d : VectorClock} : c < d ↔ c ≤ d ∧ ∃ n, c.get n < d.get n := by
  rw [lt_iff_le_not_ge, le_def (c := d)]
  simp only [not_forall, UInt64.not_le]

variable {order order' : IterOrder String} {c d : VectorClock}

theorem get_of_notMem {n : String} (h : n ∉ c.clocks) : c.get n = 0 := by
  rw [get, lookup_eq_none.2 h]
  rfl

/-- The first loop goes to its end if no node is ahead, and says whether one is behind. -/
theorem checkOwn_eq_some_iff {nodes : List String} {strictlyLess result : Bool} :
    c.checkOwn d nodes strictlyLess = some result ↔
      (∀ n ∈ nodes, c.get n ≤ d.get n) ∧
        (result = true ↔ strictlyLess = true ∨ ∃ n ∈ nodes, c.get n < d.get n) := by
  induction nodes generalizing strictlyLess with
  | nil =>
    simp only [checkOwn, Option.some.injEq, List.not_mem_nil, false_and, exists_false, or_false,
      false_implies, implies_true, true_and]
    exact ⟨fun h => by rw [h], fun h => (Bool.eq_iff_iff.2 h).symm⟩
  | cons node nodes ih =>
    simp only [checkOwn, List.forall_mem_cons]
    split_ifs with hahead hbehind
    · have hnot : ¬ c.get node ≤ d.get node := UInt64.not_le.2 hahead
      simp [hnot]
    · rw [ih]
      have hle : c.get node ≤ d.get node := UInt64.le_of_lt hbehind
      simp [hle, hbehind]
    · rw [ih]
      have hle : c.get node ≤ d.get node := UInt64.not_lt.1 hahead
      simp [hle, hbehind]

theorem checkOther_iff {nodes : List String} {strictlyLess : Bool} :
    c.checkOther d nodes strictlyLess = true ↔
      strictlyLess = true ∨ ∃ n ∈ nodes, n ∉ c.clocks ∧ 0 < d.get n := by
  induction nodes generalizing strictlyLess with
  | nil => simp [checkOther]
  | cons node nodes ih =>
    simp only [checkOther, ih, List.exists_mem_cons_iff]
    split_ifs with hnew
    · simp [hnew.1, hnew.2]
    · have hnew' : ¬ (node ∉ c.clocks ∧ 0 < d.get node) := hnew
      simp only [hnew', false_or]

theorem mem_nodeIds {n : String} : n ∈ c.nodeIds order ↔ n ∈ c.clocks := by
  rw [nodeIds, IterOrder.mem_list, mem_keys]

/-- **The two loops decide the strict order**, whatever order they run in. -/
theorem happensBefore_iff : c.happensBefore order order' d = true ↔ c < d := by
  have hle : (∀ n ∈ c.nodeIds order, c.get n ≤ d.get n) ↔ c ≤ d := by
    rw [le_def]
    refine ⟨fun h n => ?_, fun h n _ => h n⟩
    by_cases hn : n ∈ c.clocks
    · exact h n (mem_nodeIds.2 hn)
    · rw [get_of_notMem hn]
      exact UInt64.zero_le
  have hlt : ((∃ n ∈ c.nodeIds order, c.get n < d.get n) ∨
      ∃ n ∈ d.nodeIds order', n ∉ c.clocks ∧ 0 < d.get n) ↔ ∃ n, c.get n < d.get n := by
    constructor
    · rintro (⟨n, -, hn⟩ | ⟨n, -, hnew, hpos⟩)
      · exact ⟨n, hn⟩
      · exact ⟨n, by rwa [get_of_notMem hnew]⟩
    · rintro ⟨n, hn⟩
      by_cases hown : n ∈ c.clocks
      · exact .inl ⟨n, mem_nodeIds.2 hown, hn⟩
      · rw [get_of_notMem hown] at hn
        have hother : n ∈ d.clocks := by
          by_contra hother
          rw [get_of_notMem hother] at hn
          exact absurd hn (UInt64.lt_irrefl 0)
        exact .inr ⟨n, mem_nodeIds.2 hother, hown, hn⟩
  rw [lt_def, ← hle, ← hlt]
  unfold happensBefore
  cases hloop : c.checkOwn d (c.nodeIds order) false with
  | none =>
    have hahead : ¬ ∀ n ∈ c.nodeIds order, c.get n ≤ d.get n := fun h => by
      have hsome := (@checkOwn_eq_some_iff c d (c.nodeIds order) false
        (decide (∃ n ∈ c.nodeIds order, c.get n < d.get n))).2 ⟨h, by simp⟩
      cases hloop.symm.trans hsome
    simp [hahead]
  | some strictlyLess =>
    obtain ⟨hall, hstrict⟩ := checkOwn_eq_some_iff.1 hloop
    simp only [Bool.false_eq_true, false_or] at hstrict
    rw [checkOther_iff, hstrict]
    exact (and_iff_right hall).symm

/-! ## Merging -/

theorem get_merge (c d : VectorClock) (n : String) : (c.merge d).get n =
    max (c.get n) (d.get n) := by
  unfold get
  rw [lookup_merge]
  cases c.clocks.lookup n with
  | none =>
    cases d.clocks.lookup n with
    | none => rfl
    | some t =>
      show t = max 0 t
      rw [← UInt64.toNat_inj]
      exact (Nat.zero_max _).symm
  | some t =>
    cases d.clocks.lookup n with
    | none =>
      show t = max t 0
      rw [← UInt64.toNat_inj, toNat_max]
      exact (Nat.max_zero _).symm
    | some t' => rfl

/-- **A merge is the least upper bound.** -/
theorem isLUB_merge (c d : VectorClock) : IsLUB {c, d} (c.merge d) := by
  have hmax : ∀ n, ((c.merge d).get n).toNat = max (c.get n).toNat (d.get n).toNat := fun n => by
    rw [get_merge, toNat_max]
  constructor
  · rintro e (rfl | rfl) n
    · show (e.get n).toNat ≤ ((e.merge d).get n).toNat
      rw [hmax]
      exact le_max_left _ _
    · show (e.get n).toNat ≤ ((c.merge e).get n).toNat
      rw [hmax]
      exact le_max_right _ _
  · intro e he n
    show ((c.merge d).get n).toNat ≤ (e.get n).toNat
    rw [hmax]
    exact max_le (he (Set.mem_insert c {d}) n) (he (Set.mem_insert_of_mem c rfl) n)

/-! ## Zeros -/

/-- The clocks that increments and merges make. -/
inductive Reachable : VectorClock → Prop where
  | new : Reachable new
  | increment {c : VectorClock} (nodeId : String) : Reachable c → Reachable (c.increment nodeId)
  | merge {c d : VectorClock} : Reachable c → Reachable d → Reachable (c.merge d)

/-- Those in which no counter has gone beyond `u64::MAX`. -/
inductive InRange : VectorClock → Prop where
  | new : InRange new
  | increment {c : VectorClock} (nodeId : String) :
      InRange c → (c.get nodeId).toNat < UInt64.size - 1 → InRange (c.increment nodeId)
  | merge {c d : VectorClock} : InRange c → InRange d → InRange (c.merge d)

/-- The map has an entry for the node, and it is zero. -/
def StoresZero (c : VectorClock) (n : String) : Prop := c.clocks.lookup n = some 0

theorem InRange.not_storesZero (h : InRange c) (n : String) : ¬ c.StoresZero n := by
  induction h with
  | new =>
    intro hzero
    cases (lookup_empty n).symm.trans hzero
  | @increment c nodeId _ hlt ih =>
    unfold StoresZero VectorClock.increment at *
    rw [FMap.lookup_alter]
    split
    · next hn =>
      intro hzero
      have hzero : (c.get nodeId + 1).toNat = (0 : UInt64).toNat :=
        congrArg UInt64.toNat (Option.some.inj hzero)
      rw [UInt64.toNat_add] at hzero
      have hsize : (c.get nodeId).toNat + 1 < 2 ^ 64 := by
        have hsize : UInt64.size = 2 ^ 64 := rfl
        omega
      rw [show (1 : UInt64).toNat = 1 from rfl, Nat.mod_eq_of_lt hsize] at hzero
      exact Nat.succ_ne_zero _ hzero
    · exact ih
  | @merge c d _ _ ihc ihd =>
    unfold StoresZero at *
    rw [lookup_merge]
    cases hc : c.clocks.lookup n with
    | none =>
      cases hd : d.clocks.lookup n with
      | none => exact fun h => (nomatch h)
      | some t =>
        rw [hd] at ihd
        exact ihd
    | some t =>
      cases hd : d.clocks.lookup n with
      | none =>
        rw [hc] at ihc
        exact ihc
      | some t' =>
        intro hzero
        have hmax : (max t t').toNat = (0 : UInt64).toNat :=
          congrArg UInt64.toNat (Option.some.inj hzero)
        have hle : t.toNat ≤ (0 : UInt64).toNat := by
          rw [← hmax, toNat_max]
          exact le_max_left _ _
        rw [hc] at ihc
        exact ihc (congrArg some (UInt64.toNat_inj.1 (Nat.le_zero.1 hle)))

def Agree (c d : VectorClock) : Prop := ∀ n, c.get n = d.get n

theorem agree_iff_le : c.Agree d ↔ c ≤ d ∧ d ≤ c := by
  rw [le_def, le_def, ← forall_and]
  exact forall_congr' fun n => by rw [← UInt64.le_antisymm_iff]

theorem Agree.eq_iff (h : c.Agree d) : c = d ↔ ∀ n, c.StoresZero n ↔ d.StoresZero n := by
  refine ⟨fun heq n => by rw [heq], fun hzero => VectorClock.ext (ext_lookup fun n => ?_)⟩
  have hget := h n
  have hzero := hzero n
  unfold get at hget
  unfold StoresZero at hzero
  cases hc : c.clocks.lookup n with
  | none =>
    cases hd : d.clocks.lookup n with
    | none => rfl
    | some t =>
      rw [hc, hd] at hget hzero
      cases hzero.2 (congrArg some (by simpa using hget.symm))
  | some t =>
    cases hd : d.clocks.lookup n with
    | none =>
      rw [hc, hd] at hget hzero
      cases hzero.1 (congrArg some (by simpa using hget))
    | some t' =>
      rw [hc, hd] at hget
      exact congrArg some (by simpa using hget)

/-! ## What the comparison says -/

/-- The comparison says what the order says. -/
structure Compares (order order' : IterOrder String) (c d : VectorClock) : Prop where
  equal : c.compare order order' d = .equal ↔ c.Agree d
  before : c.compare order order' d = .before ↔ c ≤ d ∧ ¬ d ≤ c
  after : c.compare order order' d = .after ↔ d ≤ c ∧ ¬ c ≤ d
  concurrent : c.compare order order' d = .concurrent ↔ ¬ c ≤ d ∧ ¬ d ≤ c

theorem compare_eq (order order' : IterOrder String) (c d : VectorClock) [Decidable (c < d)]
    [Decidable (d < c)] : c.compare order order' d =
      if c = d then .equal else if c < d then .before else if d < c then .after else
        .concurrent := by
  simp only [compare, happensBefore_iff]

/-- `compare` goes by the order exactly when clocks that agree everywhere are equal. -/
theorem compares_iff_eq : Compares order order' c d ↔ (c.Agree d → c = d) := by
  classical
  constructor
  · intro h hagree
    have hequal := h.equal.2 hagree
    rw [compare_eq] at hequal
    by_contra hne
    rw [if_neg hne] at hequal
    split_ifs at hequal
  · intro h
    have hagree : c = d ↔ c ≤ d ∧ d ≤ c :=
      ⟨fun heq => by rw [heq]; exact ⟨le_rfl, le_rfl⟩, fun hle => h (agree_iff_le.2 hle)⟩
    constructor
    all_goals
      rw [compare_eq]
      simp only [agree_iff_le, lt_iff_le_not_ge, hagree]
      by_cases hcd : c ≤ d
      iterate 2
        by_cases hdc : d ≤ c
        · simp [hcd, hdc]
        · simp [hcd, hdc]

theorem isStrictOrder_happensBefore (order order' : IterOrder String) :
    IsStrictOrder VectorClock fun c d => c.happensBefore order order' d = true where
  irrefl c h := lt_irrefl c (happensBefore_iff.1 h)
  trans _ _ _ h h' := happensBefore_iff.2 (lt_trans (happensBefore_iff.1 h)
    (happensBefore_iff.1 h'))

theorem InRange.compares (hc : InRange c) (hd : InRange d) : Compares order order' c d :=
  compares_iff_eq.2 fun hagree => hagree.eq_iff.2 fun n =>
    ⟨fun h => absurd h (hc.not_storesZero n), fun h => absurd h (hd.not_storesZero n)⟩

/-- **`compare` goes by the order exactly when two clocks that agree everywhere store the same
zeros**, which they do as long as no counter wraps; and the order is one, with merges as least
upper bounds. -/
theorem compares_iff (order order' : IterOrder String) (c d : VectorClock) :
    (Compares order order' c d ↔ (∃ n, c.get n ≠ d.get n) ∨ ∀ n, c.StoresZero n ↔ d.StoresZero n) ∧
      (InRange c → InRange d → Compares order order' c d) ∧
      (IsStrictOrder VectorClock fun c d => c.happensBefore order order' d = true) ∧
      IsLUB {c, d} (c.merge d) := by
  refine ⟨?_, InRange.compares, isStrictOrder_happensBefore order order', isLUB_merge c d⟩
  rw [compares_iff_eq]
  by_cases hagree : c.Agree d
  · have hnone : ¬ ∃ n, c.get n ≠ d.get n := fun ⟨n, hn⟩ => hn (hagree n)
    rw [hagree.eq_iff]
    exact ⟨fun h => .inr (h hagree), fun h _ => h.resolve_left hnone⟩
  · exact ⟨fun _ => .inl (not_forall.1 hagree), fun _ h => absurd h hagree⟩

/-! ## A counter that goes all the way round -/

theorem reachable_incrementAll (nodes : List String) : Reachable (new.incrementAll nodes) := by
  induction nodes using List.reverseRecOn with
  | nil => exact .new
  | append_singleton l n ih =>
    rw [incrementAll_append]
    exact .increment n ih

theorem compares_fails :
    ¬ ∀ (order order' : IterOrder String) (c d : VectorClock), Reachable c → Reachable d →
      Compares order order' c d := by
  intro hall
  let nodes := List.replicate (2 ^ 64) "node"
  have hcount : ∀ n, 2 ^ 64 ∣ nodes.count n := by
    intro n
    rw [List.count_replicate]
    split
    · exact dvd_rfl
    · exact Nat.dvd_zero _
  have hagree : (new.incrementAll nodes).Agree new := fun n => get_incrementAll_of_dvd (hcount n)
  have heq := compares_iff_eq.1 (hall .some .some _ _ (reachable_incrementAll nodes) .new) hagree
  have hlookup := lookup_incrementAll new nodes "node"
  rw [heq] at hlookup
  cases (lookup_empty "node").symm.trans hlookup

end VectorClock
end Idiom
