import Idiom.Lib.FiniteMap
import Idiom.Lib.IterOrder
import Idiom.Lib.RankedJoin
import Mathlib.Data.Prod.Lex
import Mathlib.Data.String.Basic

/-!
# The last-write-wins map of `did/src/ajna/lww_map.rs`

Each key holds one entry: a value, the clock reading it was written at, the node
that wrote it, and whether it is a tombstone. An incoming entry replaces the
stored one only if it *wins*: a later timestamp, or the same timestamp and a
greater node id. Two entries with the same timestamp and node id tie, and then the
stored one stays.
-/

namespace Idiom

open Ranked List Option

/-- A clock reading, in nanoseconds since the Unix epoch. -/
abbrev DateTime := ℤ

/-- Entry in the LWW-Map with timestamp and node ID for tie-breaking. -/
@[ext] structure LWWEntry (V : Type*) where
  value : V
  timestamp : DateTime
  nodeId : String
  isTombstone : Bool
  deriving DecidableEq

namespace LWWEntry

variable {V : Type*}

/-- A new entry, written at the clock reading `timestamp`. -/
def withTimestamp (value : V) (timestamp : DateTime) (nodeId : String) : LWWEntry V :=
  ⟨value, timestamp, nodeId, false⟩

/-- A deletion marker. It still carries a value, the default one. -/
def tombstone [Inhabited V] (timestamp : DateTime) (nodeId : String) : LWWEntry V :=
  ⟨default, timestamp, nodeId, true⟩

/-- Does `self` win over `other`? -/
def winsOver (self other : LWWEntry V) : Bool :=
  match compare self.timestamp other.timestamp with
  | .gt => true
  | .lt => false
  | .eq => decide (other.nodeId < self.nodeId)

/-- Timestamp first, node id second. -/
def stamp (e : LWWEntry V) : DateTime ×ₗ String := toLex (e.timestamp, e.nodeId)

theorem stamp_eq_iff {a b : LWWEntry V} :
    a.stamp = b.stamp ↔ a.timestamp = b.timestamp ∧ a.nodeId = b.nodeId := by
  rw [stamp, stamp, EmbeddingLike.apply_eq_iff_eq, Prod.mk.injEq]

theorem winsOver_iff (a b : LWWEntry V) : a.winsOver b = true ↔ b.stamp < a.stamp := by
  rw [stamp, stamp, Prod.Lex.toLex_lt_toLex]
  unfold winsOver
  rcases lt_trichotomy a.timestamp b.timestamp with h | h | h
  · rw [compare_lt_iff_lt.2 h]
    simp only [Bool.false_eq_true, false_iff, not_or, not_and]
    exact ⟨h.not_gt, fun he => absurd he h.ne'⟩
  · simp [h]
  · rw [compare_gt_iff_gt.2 h]
    simp [h]

end LWWEntry

open LWWEntry

/-- LWW-Map CRDT for conflict-free map operations. -/
@[ext] structure LWWMap (K V : Type*) where
  entries : FMap K (LWWEntry V)

namespace LWWMap

variable {K V : Type*} [DecidableEq K]

/-! ## The operations -/

/-- The empty map. -/
def new : LWWMap K V := ⟨∅⟩

/-- Store an entry if the key is free or the entry wins over the stored one. -/
def setEntry (m : LWWMap K V) (key : K) (entry : LWWEntry V) : LWWMap K V :=
  match m.entries.lookup key with
  | some existing =>
    if entry.winsOver existing then ⟨m.entries.insert key entry⟩ else m
  | none => ⟨m.entries.insert key entry⟩

def setWithTimestamp (m : LWWMap K V) (key : K) (value : V) (timestamp : DateTime)
    (nodeId : String) : LWWMap K V :=
  m.setEntry key (.withTimestamp value timestamp nodeId)

/-- Set a value at the clock reading `now`. -/
def set (m : LWWMap K V) (key : K) (value : V) (nodeId : String) (now : DateTime) : LWWMap K V :=
  m.setEntry key (.withTimestamp value now nodeId)

/-- Remove a key with a specific timestamp, which stores a tombstone. -/
def removeWithTimestamp [Inhabited V] (m : LWWMap K V) (key : K) (timestamp : DateTime)
    (nodeId : String) : LWWMap K V :=
  m.setEntry key (.tombstone timestamp nodeId)

/-- Remove a key at the clock reading `now`. -/
def remove [Inhabited V] (m : LWWMap K V) (key : K) (nodeId : String) (now : DateTime) :
    LWWMap K V :=
  m.setEntry key (.tombstone now nodeId)

/-- The value at a key; a tombstone counts as absent. -/
def get (m : LWWMap K V) (key : K) : Option V :=
  (m.entries.lookup key).bind fun entry => if entry.isTombstone then none else some entry.value

/-- The keys and values in iteration order, without the tombstones. -/
def entryList (m : LWWMap K V) (order : IterOrder K) : List (K × V) :=
  (order.list m.entries.keys).filterMap fun key => (m.get key).map fun value => (key, value)

/-- Merge another LWW-Map into this one: offer it every entry of the other. -/
def merge (m other : LWWMap K V) : LWWMap K V :=
  ⟨other.entries.forEach m.entries fun _ entry o =>
    match o with
    | some existing => if entry.winsOver existing then some entry else some existing
    | none => some entry⟩

/-! ## What a write and a merge leave behind -/

theorem lookup_setEntry (m : LWWMap K V) (key k : K) (entry : LWWEntry V) :
    (m.setEntry key entry).entries.lookup k =
      if k = key then join stamp (m.entries.lookup key) (some entry)
      else m.entries.lookup k := by
  unfold setEntry
  cases hl : m.entries.lookup key with
  | none => simp only [FMap.lookup_insert_ite, none_join]
  | some existing =>
    rw [join_some_some]
    dsimp only
    by_cases hw : entry.winsOver existing = true
    · rw [if_pos hw, if_pos ((winsOver_iff _ _).1 hw), FMap.lookup_insert_ite]
    · rw [if_neg hw, if_neg (mt (winsOver_iff _ _).2 hw)]
      split
      · next hk => rw [hk, hl]
      · rfl

theorem lookup_merge (m other : LWWMap K V) (k : K) :
    (m.merge other).entries.lookup k =
      join stamp (m.entries.lookup k) (other.entries.lookup k) := by
  unfold merge
  rw [FMap.lookup_forEach]
  cases other.entries.lookup k with
  | none => rfl
  | some e =>
    cases m.entries.lookup k with
    | none => rfl
    | some a =>
      rw [join_some_some]
      by_cases hw : e.winsOver a = true
      · simp only [hw, if_true]
        rw [if_pos ((winsOver_iff _ _).1 hw)]
      · simp only [hw]
        rw [if_neg (mt (winsOver_iff _ _).2 hw)]
        rfl

variable {m : LWWMap K V} {key : K}

theorem setEntry_eq_self_iff {entry : LWWEntry V} :
    m.setEntry key entry = m ↔ Below stamp entry (m.entries.lookup key) := by
  unfold setEntry
  cases hl : m.entries.lookup key with
  | none =>
    refine iff_of_false (fun h => ?_) (by rintro ⟨a, ha, -⟩; cases ha)
    have hkey := congrArg (fun m : LWWMap K V => m.entries.lookup key) h
    simp [hl] at hkey
  | some existing =>
    dsimp only
    by_cases hw : entry.winsOver existing = true
    · have hlt := (winsOver_iff _ _).1 hw
      rw [if_pos hw]
      refine iff_of_false (fun h => ?_) ?_
      · have hkey := congrArg (fun m : LWWMap K V => m.entries.lookup key) h
        simp only [Finmap.lookup_insert, hl, some.injEq] at hkey
        exact hlt.ne (by rw [hkey])
      · rintro ⟨a, ha, hle⟩
        cases ha
        exact hle.not_gt hlt
    · rw [if_neg hw]
      exact iff_of_true rfl ⟨existing, rfl, not_lt.1 (mt (winsOver_iff _ _).2 hw)⟩

/-! ## One write after another -/

/-- The map after a list of writes. -/
def setAll (m : LWWMap K V) (writes : List (K × LWWEntry V)) : LWWMap K V :=
  writes.foldl (fun m w => m.setEntry w.1 w.2) m

variable {k : K} {e : LWWEntry V}

theorem below_setEntry {entry : LWWEntry V} (h : Below stamp e (m.entries.lookup k)) :
    Below stamp e ((m.setEntry key entry).entries.lookup k) := by
  rw [lookup_setEntry]
  split
  · next hk =>
    rw [← hk]
    exact h.join_left _
  · exact h

variable {writes : List (K × LWWEntry V)}

theorem below_setAll_of_below (h : Below stamp e (m.entries.lookup k)) :
    Below stamp e ((m.setAll writes).entries.lookup k) := by
  induction writes generalizing m with
  | nil => exact h
  | cons w l ih => exact ih (below_setEntry h)

theorem below_setAll (h : (k, e) ∈ writes) :
    Below stamp e ((m.setAll writes).entries.lookup k) := by
  induction writes generalizing m with
  | nil => cases h
  | cons w l ih =>
    rcases mem_cons.1 h with rfl | hl
    · have htop : Below stamp e ((m.setEntry k e).entries.lookup k) := by
        rw [lookup_setEntry, if_pos rfl]
        exact (below_self e).join_right _
      show Below stamp e (((m.setEntry k e).setAll l).entries.lookup k)
      exact below_setAll_of_below htop
    · exact ih hl

theorem setAll_eq_self_iff :
    m.setAll writes = m ↔ ∀ k e, (k, e) ∈ writes → Below stamp e (m.entries.lookup k) := by
  constructor
  · intro h k e he
    rw [← h]
    exact below_setAll he
  · intro h
    induction writes with
    | nil => rfl
    | cons w l ih =>
      have hw : m.setEntry w.1 w.2 = m := setEntry_eq_self_iff.2 (h w.1 w.2 mem_cons_self)
      rw [setAll, foldl_cons, hw]
      exact ih fun k e he => h k e (mem_cons_of_mem _ he)

theorem lookup_setAll_cases (h : (m.setAll writes).entries.lookup k = some e) :
    m.entries.lookup k = some e ∨ (k, e) ∈ writes := by
  induction writes generalizing m with
  | nil => exact .inl h
  | cons w l ih =>
    rcases ih h with hold | hmem
    · rw [lookup_setEntry] at hold
      split at hold
      · next hk =>
        rcases join_eq_some hold with hm | ⟨hw, -⟩
        · exact .inl (hk ▸ hm)
        · cases hw
          exact .inr (by rw [hk]; exact mem_cons_self)
      · exact .inl hold
    · exact .inr (mem_cons_of_mem _ hmem)

/-- After some writes to an empty map a key that was written holds the highest of its
writes. -/
theorem lookup_setAll_new (h : (k, e) ∈ writes) :
    ∃ top, ((new : LWWMap K V).setAll writes).entries.lookup k = some top ∧ (k, top) ∈ writes ∧
      ∀ e', (k, e') ∈ writes → e'.stamp ≤ top.stamp := by
  obtain ⟨top, htop, -⟩ := below_setAll (m := new) h
  refine ⟨top, htop, (lookup_setAll_cases htop).resolve_left (by simp [new]), fun e' he' => ?_⟩
  obtain ⟨top', htop', hle⟩ := below_setAll (m := new) he'
  rw [htop] at htop'
  cases htop'
  exact hle

theorem get_setAll_new_eq_none (h : ∀ e, (k, e) ∈ writes → e.isTombstone = true) :
    ((new : LWWMap K V).setAll writes).get k = none := by
  unfold get
  cases hl : ((new : LWWMap K V).setAll writes).entries.lookup k with
  | none => rfl
  | some e =>
    have hmem := (lookup_setAll_cases hl).resolve_left (by simp [new])
    rw [bind_some, if_pos (h e hmem)]

theorem ext_lookup {n : LWWMap K V} (h : ∀ k, m.entries.lookup k = n.entries.lookup k) : m = n :=
  LWWMap.ext (Finmap.ext_lookup h)

theorem setEntry_comm (m : LWWMap K V) {w w' : K × LWWEntry V} (h : w.2.stamp ≠ w'.2.stamp) :
    (m.setEntry w.1 w.2).setEntry w'.1 w'.2 = (m.setEntry w'.1 w'.2).setEntry w.1 w.2 := by
  refine ext_lookup fun k => ?_
  have hne : ∀ x y, some w.2 = some x → some w'.2 = some y → x.stamp = y.stamp → x = y := by
    intro x y hx hy heq
    cases hx
    cases hy
    exact absurd heq h
  by_cases hk : w.1 = w'.1
  · simp only [lookup_setEntry, hk, if_true]
    rw [join_assoc, join_comm hne, ← join_assoc]
    split
    · rfl
    · rfl
  · have hk' : w'.1 ≠ w.1 := fun heq => hk heq.symm
    simp only [lookup_setEntry, if_neg hk]
    split
    · next h₁ => rw [if_neg (fun h₂ => hk (h₁.symm.trans h₂).symm)]
    · rfl

theorem setAll_perm (m : LWWMap K V) {l l' : List (K × LWWEntry V)} (h : l.Perm l')
    (hstamps : (l.map fun w => w.2.stamp).Nodup) : m.setAll l = m.setAll l' := by
  refine h.foldl_eq' (fun w hw w' hw' m => ?_) m
  by_cases heq : w.2.stamp = w'.2.stamp
  · rw [inj_on_of_nodup_map hstamps hw hw' heq]
  · exact setEntry_comm m heq

theorem merge_self (m : LWWMap K V) : m.merge m = m :=
  ext_lookup fun k => by rw [lookup_merge, join_self]

theorem merge_assoc (a b c : LWWMap K V) : (a.merge b).merge c = a.merge (b.merge c) :=
  ext_lookup fun k => by simp only [lookup_merge, join_assoc]

/-- Two maps are tie-free: entries they hold under one key with one stamp are
equal. -/
def TieFree (a b : LWWMap K V) : Prop :=
  ∀ k x y, a.entries.lookup k = some x → b.entries.lookup k = some y → x.stamp = y.stamp → x = y

theorem mem_entryList {order : IterOrder K} {value : V} :
    (key, value) ∈ m.entryList order ↔ m.get key = some value := by
  simp only [entryList, mem_filterMap, IterOrder.mem_list, map_eq_some_iff, Prod.mk.injEq]
  constructor
  · rintro ⟨k, -, v, hv, rfl, rfl⟩
    exact hv
  · intro h
    refine ⟨key, ?_, value, h, rfl, rfl⟩
    obtain ⟨entry, hentry, -⟩ := bind_eq_some_iff.1 h
    exact Finmap.mem_of_lookup_eq_some hentry

theorem nodup_entryList (m : LWWMap K V) (order : IterOrder K) : (m.entryList order).Nodup := by
  refine (order.nodup_list _).filterMap fun k k' p hp hp' => ?_
  obtain ⟨v, -, rfl⟩ := map_eq_some_iff.1 hp
  obtain ⟨v', -, heq⟩ := map_eq_some_iff.1 hp'
  exact (congrArg Prod.fst heq).symm

theorem entryList_perm {m' : LWWMap K V} (h : ∀ key, m.get key = m'.get key)
    (order order' : IterOrder K) : (m.entryList order).Perm (m'.entryList order') := by
  refine (perm_ext_iff_of_nodup (nodup_entryList _ _) (nodup_entryList _ _)).2 ?_
  rintro ⟨key, value⟩
  rw [mem_entryList, mem_entryList, h]

theorem merge_comm {a b : LWWMap K V} (h : TieFree a b) : a.merge b = b.merge a :=
  ext_lookup fun k => by
    rw [lookup_merge, lookup_merge]
    exact join_comm (h k)

end LWWMap
end Idiom
