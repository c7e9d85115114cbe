import Idiom.Lib.FiniteMap
import Idiom.Lib.IterOrder
import Idiom.Lib.JoinLaws

/-!
# The vector clock of `did/src/ajna/vector_clock.rs`

One `u64` counter per node. `increment` is `*counter += 1`, which wraps.
-/

namespace Idiom

/-- Vector clock for tracking causality in distributed updates. -/
@[ext] structure VectorClock where
  /-- Node id to logical timestamp. -/
  clocks : FMap String UInt64

namespace VectorClock

def new : VectorClock := ⟨∅⟩

/-- The timestamp of a node; a node without an entry is at `0`. -/
def get (c : VectorClock) (nodeId : String) : UInt64 := (c.clocks.lookup nodeId).getD 0

def increment (c : VectorClock) (nodeId : String) : VectorClock :=
  ⟨c.clocks.alter nodeId fun counter => some (counter.getD 0 + 1)⟩

/-- Merge two vector clocks: the maximum for each node. -/
def merge (c other : VectorClock) : VectorClock :=
  ⟨other.clocks.forEach c.clocks fun _ time o =>
    match o with
    | some t => some (max t time)
    | none => some time⟩

def nodeIds (c : VectorClock) (order : IterOrder String) : List String := order.list c.clocks.keys

theorem get_increment (c : VectorClock) (nodeId n : String) :
    (c.increment nodeId).get n = if n = nodeId then c.get n + 1 else c.get n := by
  unfold get increment
  rw [FMap.lookup_alter]
  split
  · next h => rw [h]; rfl
  · rfl

theorem increment_ne (c : VectorClock) (nodeId : String) : c.increment nodeId ≠ c := by
  intro h
  have hget : (c.increment nodeId).get nodeId = c.get nodeId := by rw [h]
  rw [get_increment] at hget
  simp at hget

/-! ## Merging is a join -/

theorem toNat_max (a b : UInt64) : (max a b).toNat = max a.toNat b.toNat := by
  show (if a ≤ b then b else a).toNat = max a.toNat b.toNat
  split
  · next h =>
    rw [UInt64.le_iff_toNat_le] at h
    omega
  · next h =>
    rw [UInt64.le_iff_toNat_le] at h
    omega

theorem lookup_merge (c d : VectorClock) (n : String) :
    (c.merge d).clocks.lookup n = (c.clocks.lookup n).merge max (d.clocks.lookup n) := by
  rw [merge, FMap.lookup_forEach]
  cases c.clocks.lookup n <;> cases d.clocks.lookup n <;> rfl

theorem joinAt_merge (a b c : VectorClock) : JoinAt merge a b c := by
  have hcomm : ∀ x y : UInt64, max x y = max y x := by
    intro x y
    rw [← UInt64.toNat_inj, toNat_max, toNat_max, max_comm]
  have hassoc : ∀ x y z : UInt64, max (max x y) z = max x (max y z) := by
    intro x y z
    rw [← UInt64.toNat_inj]
    simp only [toNat_max, max_assoc]
  have hidem : ∀ x : UInt64, max x x = x := by
    intro x
    rw [← UInt64.toNat_inj, toNat_max, max_self]
  refine ⟨?_, ?_, ?_⟩ <;> refine VectorClock.ext (Finmap.ext_lookup fun n => ?_) <;>
    simp only [lookup_merge]
  · cases a.clocks.lookup n <;> cases b.clocks.lookup n <;> simp [hcomm]
  · cases a.clocks.lookup n <;> cases b.clocks.lookup n <;> cases c.clocks.lookup n <;>
      simp [hassoc]
  · cases a.clocks.lookup n <;> simp [hidem]

/-! ## One increment after another -/

/-- The clock after an increment for each node of a list. -/
def incrementAll (c : VectorClock) (nodes : List String) : VectorClock :=
  nodes.foldl increment c

theorem incrementAll_append (c : VectorClock) (l₁ l₂ : List String) :
    c.incrementAll (l₁ ++ l₂) = (c.incrementAll l₁).incrementAll l₂ :=
  List.foldl_append

theorem get_incrementAll (c : VectorClock) (nodes : List String) (n : String) :
    (c.incrementAll nodes).get n = c.get n + UInt64.ofNat (nodes.count n) := by
  induction nodes generalizing c with
  | nil => simp [incrementAll]
  | cons node l ih =>
    rw [incrementAll]
    refine (ih _).trans ?_
    rw [get_increment]
    by_cases h : n = node
    · simp [h, UInt64.add_assoc, UInt64.add_comm 1]
    · simp [h, Ne.symm h]

theorem lookup_incrementAll (c : VectorClock) (nodes : List String) (n : String) :
    (c.incrementAll nodes).clocks.lookup n =
      if n ∈ nodes then some ((c.incrementAll nodes).get n) else c.clocks.lookup n := by
  induction nodes generalizing c with
  | nil => simp [incrementAll]
  | cons node l ih =>
    rw [incrementAll, List.foldl_cons]
    refine (ih _).trans ?_
    by_cases hl : n ∈ l
    · simp [hl, incrementAll]
    · by_cases hn : n = node
      · subst hn
        have hcount : l.count n = 0 := List.count_eq_zero.2 hl
        have hget : ((c.increment n).incrementAll l).get n = (c.increment n).get n := by
          rw [get_incrementAll, hcount]
          simp
        simp only [List.mem_cons, true_or]
        rw [show l.foldl increment (c.increment n) = (c.increment n).incrementAll l from rfl, hget]
        simp [increment, get, FMap.lookup_alter]
      · simp [hl, hn, increment, FMap.lookup_alter]

theorem ofNat_eq_zero_iff (k : ℕ) : UInt64.ofNat k = 0 ↔ 2 ^ 64 ∣ k := by
  rw [← UInt64.toNat_inj, Nat.dvd_iff_mod_eq_zero]
  rfl

theorem get_incrementAll_of_dvd {c : VectorClock} {nodes : List String} {n : String}
    (h : 2 ^ 64 ∣ nodes.count n) : (c.incrementAll nodes).get n = c.get n := by
  rw [get_incrementAll, (ofNat_eq_zero_iff _).2 h, UInt64.add_zero]

/-- The same increments once more change nothing exactly if each counter goes all the way
round. -/
theorem incrementAll_twice_iff (c : VectorClock) (nodes : List String) :
    (c.incrementAll nodes).incrementAll nodes = c.incrementAll nodes ↔
      ∀ n, 2 ^ 64 ∣ nodes.count n := by
  constructor
  · intro h n
    have hget := congrArg (fun c : VectorClock => c.get n) h
    simp only [get_incrementAll _ nodes n] at hget
    exact (ofNat_eq_zero_iff _).1 (by simpa using hget)
  · intro h
    refine VectorClock.ext (Finmap.ext_lookup fun n => ?_)
    rw [lookup_incrementAll]
    by_cases hn : n ∈ nodes
    · rw [if_pos hn, lookup_incrementAll c, if_pos hn, get_incrementAll_of_dvd (h n)]
    · rw [if_neg hn]

end VectorClock
end Idiom
