import Idiom.Lib.FiniteMap

/-!
# The observed-remove set of `did/src/ajna/or_set.rs`

Every `add` tags the element with a fresh UUID. `elements` maps an element to the
UUIDs under which it is present, `tombstones` records the `(element, UUID)` pairs
that have been removed, and `merge` unites both sides and then applies the
tombstones.

* `ORSet.WF` — the invariant the source never states: no pair is both live and
  tombstoned, and no element is kept with an empty UUID set.
-/

namespace Idiom

open Finset FMap Option

/-- A UUID. Only equality of UUIDs is ever used. -/
abbrev Uuid := ℕ

/-- OR-Set CRDT for conflict-free set operations. -/
@[ext] structure ORSet (T : Type*) where
  /-- Element to the set of UUIDs of its additions. -/
  elements : FMap T (Finset Uuid)
  /-- The removed `(element, UUID)` pairs. -/
  tombstones : Finset (T × Uuid)

namespace ORSet

variable {T : Type*} [DecidableEq T]

/-! ## The operations -/

/-- The empty OR-Set. -/
def new : ORSet T := ⟨∅, ∅⟩

/-- Add an element under the UUID that `Uuid::new_v4` returned. -/
def add (s : ORSet T) (element : T) (uuid : Uuid) : ORSet T :=
  { s with elements := s.elements.alter element fun o => some (insert uuid (o.getD ∅)) }

/-- Remove all instances of an element, moving their UUIDs to the tombstones. -/
def remove (s : ORSet T) (element : T) : ORSet T :=
  match s.elements.lookup element with
  | none => s
  | some uuids =>
    { elements := s.elements.erase element
      tombstones := s.tombstones ∪ uuids.image fun uuid => (element, uuid) }

/-- Remove one instance of an element. Nothing happens where the instance is not
present. -/
def removeInstance (s : ORSet T) (element : T) (uuid : Uuid) : ORSet T :=
  match s.elements.lookup element with
  | none => s
  | some uuids =>
    if uuid ∈ uuids then
      { elements :=
          if uuids.erase uuid = ∅ then s.elements.erase element
          else s.elements.insert element (uuids.erase uuid)
        tombstones := insert (element, uuid) s.tombstones }
    else s

/-- Is the element a key of the map? -/
def contains (s : ORSet T) (element : T) : Bool :=
  (s.elements.lookup element).isSome

/-- The elements of the set, `elements()` up to iteration order. -/
def keys (s : ORSet T) : Finset T := s.elements.keys

/-- The number of elements. -/
def len (s : ORSet T) : ℕ := s.keys.card

/-- Drop every tombstoned instance, and every element left without one. -/
def applyTombstones (s : ORSet T) : ORSet T :=
  { s with
    elements := s.elements.retain fun elem uuids =>
      let kept := uuids.filter fun uuid => (elem, uuid) ∉ s.tombstones
      if kept = ∅ then none else some kept }

/-- Merge another OR-Set into this one: unite the additions, unite the tombstones,
apply the tombstones. -/
def merge (s other : ORSet T) : ORSet T :=
  applyTombstones
    { elements := other.elements.forEach s.elements fun _ uuids o => some (o.getD ∅ ∪ uuids)
      tombstones := s.tombstones ∪ other.tombstones }

/-! ## Live instances -/

/-- The instance `(e, u)` is present. -/
def Live (s : ORSet T) (e : T) (u : Uuid) : Prop :=
  u ∈ (s.elements.lookup e).getD ∅

/-- No element is kept with an empty set of UUIDs. -/
def NonemptyEntries (s : ORSet T) : Prop :=
  ∀ e, s.elements.lookup e ≠ some ∅

structure WF (s : ORSet T) : Prop where
  /-- No element is kept with an empty set of UUIDs. -/
  nonempty : s.NonemptyEntries
  /-- No instance is both live and tombstoned. -/
  disjoint : ∀ e u, s.Live e u → (e, u) ∉ s.tombstones

variable {s : ORSet T}

theorem lookup_eq_of_nonemptyEntries (h : s.NonemptyEntries) (e : T) :
    s.elements.lookup e =
      if (s.elements.lookup e).getD ∅ = ∅ then none
      else some ((s.elements.lookup e).getD ∅) := by
  have he := h e
  cases hl : s.elements.lookup e with
  | none => simp
  | some us =>
    rw [hl] at he
    have hus : us ≠ ∅ := fun hc => he (by rw [hc])
    simp [hus]

theorem ext_live {t : ORSet T} (hs : s.NonemptyEntries) (ht : t.NonemptyEntries)
    (hlive : ∀ e u, s.Live e u ↔ t.Live e u) (htomb : s.tombstones = t.tombstones) : s = t := by
  refine ORSet.ext (Finmap.ext_lookup fun e => ?_) htomb
  have hset : (s.elements.lookup e).getD ∅ = (t.elements.lookup e).getD ∅ :=
    ext fun u => hlive e u
  rw [lookup_eq_of_nonemptyEntries hs, lookup_eq_of_nonemptyEntries ht, hset]

theorem contains_iff_exists_live (h : s.NonemptyEntries) (e : T) :
    s.contains e = true ↔ ∃ u, s.Live e u := by
  unfold contains Live
  have he := h e
  cases hl : s.elements.lookup e with
  | none => simp
  | some us =>
    rw [hl] at he
    simp only [isSome_some, getD_some, true_iff]
    exact nonempty_iff_ne_empty.2 fun hc => he (by rw [hc])

theorem mem_keys_iff (e : T) : e ∈ s.keys ↔ s.contains e = true := by
  unfold keys contains
  rw [Finmap.mem_keys, Finmap.lookup_isSome]

/-! ### What each operation does to membership -/

@[simp] theorem contains_new (e : T) : (new : ORSet T).contains e = false := by
  simp [contains, new]

theorem contains_add (s : ORSet T) (e e' : T) (u : Uuid) :
    (s.add e u).contains e' = true ↔ e' = e ∨ s.contains e' = true := by
  unfold contains add
  simp only [lookup_alter]
  by_cases he : e' = e <;> simp [he]

theorem contains_remove (s : ORSet T) (e e' : T) :
    (s.remove e).contains e' = true ↔ e' ≠ e ∧ s.contains e' = true := by
  unfold contains remove
  cases hl : s.elements.lookup e with
  | none =>
    by_cases he : e' = e
    · subst he
      simp [hl]
    · simp [he]
  | some us =>
    simp only [lookup_erase_ite]
    by_cases he : e' = e <;> simp [he]

/-! ### What each operation does to the live instances -/

@[simp] theorem live_new (e : T) (u : Uuid) : ¬ (new : ORSet T).Live e u := by
  simp [Live, new]

omit [DecidableEq T] in
@[simp] theorem tombstones_new : (new : ORSet T).tombstones = ∅ := rfl

theorem live_add (s : ORSet T) (e e' : T) (u u' : Uuid) :
    (s.add e u).Live e' u' ↔ (e' = e ∧ u' = u) ∨ s.Live e' u' := by
  unfold Live add
  simp only [lookup_alter]
  by_cases he : e' = e
  · subst he
    simp
  · simp [he]

@[simp] theorem tombstones_add (s : ORSet T) (e : T) (u : Uuid) :
    (s.add e u).tombstones = s.tombstones := rfl

theorem live_remove (s : ORSet T) (e e' : T) (u' : Uuid) :
    (s.remove e).Live e' u' ↔ e' ≠ e ∧ s.Live e' u' := by
  unfold Live remove
  cases hl : s.elements.lookup e with
  | none =>
    by_cases he : e' = e
    · subst he
      simp [hl]
    · simp [he]
  | some us =>
    simp only [lookup_erase_ite]
    by_cases he : e' = e
    · simp [he]
    · simp [he]

theorem mem_tombstones_remove (s : ORSet T) (e e' : T) (u' : Uuid) :
    (e', u') ∈ (s.remove e).tombstones ↔ (e', u') ∈ s.tombstones ∨ (e' = e ∧ s.Live e u') := by
  unfold Live remove
  cases hl : s.elements.lookup e with
  | none => simp
  | some us =>
    simp only [mem_union, mem_image, Prod.mk.injEq]
    constructor
    · rintro (h | ⟨u, hu, rfl, rfl⟩)
      · exact .inl h
      · exact .inr ⟨rfl, hu⟩
    · rintro (h | ⟨rfl, hu⟩)
      · exact .inl h
      · exact .inr ⟨u', hu, rfl, rfl⟩

variable {e : T} {u : Uuid}

theorem removeInstance_of_not_live (h : ¬ s.Live e u) : s.removeInstance e u = s := by
  unfold Live at h
  unfold removeInstance
  cases hl : s.elements.lookup e with
  | none => rfl
  | some us =>
    rw [hl] at h
    simp only [getD_some] at h
    simp [h]

theorem removeInstance_of_live (h : s.Live e u) :
    ∃ us, s.elements.lookup e = some us ∧ s.removeInstance e u =
      { elements :=
          if us.erase u = ∅ then s.elements.erase e else s.elements.insert e (us.erase u)
        tombstones := insert (e, u) s.tombstones } := by
  unfold Live at h
  unfold removeInstance
  cases hl : s.elements.lookup e with
  | none => rw [hl] at h; simp at h
  | some us =>
    rw [hl] at h
    exact ⟨us, rfl, if_pos h⟩

theorem live_removeInstance (s : ORSet T) (e e' : T) (u u' : Uuid) :
    (s.removeInstance e u).Live e' u' ↔ ¬ (e' = e ∧ u' = u) ∧ s.Live e' u' := by
  by_cases hlive : s.Live e u
  · obtain ⟨us, hl, heq⟩ := removeInstance_of_live hlive
    have hlook : (if us.erase u = ∅ then s.elements.erase e
        else s.elements.insert e (us.erase u)).lookup e' =
        if e' = e then (if us.erase u = ∅ then none else some (us.erase u))
        else s.elements.lookup e' := by
      split
      · rw [lookup_erase_ite]
      · rw [lookup_insert_ite]
    unfold Live
    rw [heq, hlook]
    by_cases he : e' = e
    · subst he
      have hgetD : (if us.erase u = ∅ then none else some (us.erase u)).getD ∅ = us.erase u := by
        split
        · next h => rw [h]; rfl
        · rfl
      rw [if_pos rfl, hgetD, hl]
      simp
    · simp [he]
  · rw [removeInstance_of_not_live hlive]
    constructor
    · intro h
      exact ⟨by rintro ⟨rfl, rfl⟩; exact hlive h, h⟩
    · exact fun h => h.2

theorem mem_tombstones_removeInstance (s : ORSet T) (e e' : T) (u u' : Uuid) :
    (e', u') ∈ (s.removeInstance e u).tombstones ↔
      (e', u') ∈ s.tombstones ∨ (e' = e ∧ u' = u ∧ s.Live e u) := by
  by_cases hlive : s.Live e u
  · obtain ⟨us, -, heq⟩ := removeInstance_of_live hlive
    rw [heq, mem_insert, Prod.mk.injEq]
    simp only [hlive, and_true]
    exact or_comm
  · rw [removeInstance_of_not_live hlive]
    simp [hlive]

theorem lookup_merge (s t : ORSet T) (e : T) :
    (s.merge t).elements.lookup e =
      let kept := ((s.elements.lookup e).getD ∅ ∪ (t.elements.lookup e).getD ∅).filter
        fun u => (e, u) ∉ s.tombstones ∪ t.tombstones
      if kept = ∅ then none else some kept := by
  unfold merge applyTombstones
  simp only [lookup_retain, lookup_forEach]
  cases s.elements.lookup e <;> cases t.elements.lookup e <;>
    simp only [bind_some, bind_none, getD_none, getD_some, union_empty, filter_empty, if_true]

/-- Merging keeps exactly the instances one side has and neither side has
tombstoned. -/
theorem live_merge (s t : ORSet T) (e : T) (u : Uuid) :
    (s.merge t).Live e u ↔
      (s.Live e u ∨ t.Live e u) ∧ (e, u) ∉ s.tombstones ∧ (e, u) ∉ t.tombstones := by
  have hgetD : ∀ k : Finset Uuid, (if k = ∅ then none else some k).getD ∅ = k := by
    intro k
    split
    · next h => rw [h]; rfl
    · rfl
  unfold Live
  rw [lookup_merge]
  simp only [hgetD, mem_filter, mem_union, not_or]

@[simp] theorem tombstones_merge (s t : ORSet T) :
    (s.merge t).tombstones = s.tombstones ∪ t.tombstones := rfl

theorem nonemptyEntries_merge (s t : ORSet T) : (s.merge t).NonemptyEntries := by
  intro e
  rw [lookup_merge]
  dsimp only
  split
  · simp
  · next h => simpa using h

/-! ## The invariant -/

theorem wf_new : (new : ORSet T).WF :=
  ⟨fun e => by simp [new], fun e u h => absurd h (live_new e u)⟩

theorem WF.add (h : s.WF) (hu : (e, u) ∉ s.tombstones) : (s.add e u).WF := by
  refine ⟨fun e' => ?_, fun e' u' hlive => ?_⟩
  · unfold ORSet.add
    simp only [lookup_alter]
    split
    · simp
    · exact h.nonempty e'
  · rcases (live_add s e e' u u').1 hlive with ⟨rfl, rfl⟩ | hl
    · exact hu
    · exact h.disjoint e' u' hl

theorem nonemptyEntries_remove (h : s.NonemptyEntries) (e : T) : (s.remove e).NonemptyEntries := by
  intro e'
  unfold ORSet.remove
  cases s.elements.lookup e with
  | none => exact h e'
  | some us =>
    simp only [lookup_erase_ite]
    split
    · simp
    · exact h e'

theorem WF.remove (h : s.WF) (e : T) : (s.remove e).WF := by
  refine ⟨nonemptyEntries_remove h.nonempty e, fun e' u' hlive => ?_⟩
  rw [mem_tombstones_remove]
  obtain ⟨hne, hl⟩ := (live_remove s e e' u').1 hlive
  rintro (ht | ⟨rfl, _⟩)
  · exact h.disjoint e' u' hl ht
  · exact hne rfl

theorem nonemptyEntries_removeInstance (h : s.NonemptyEntries) (e : T) (u : Uuid) :
    (s.removeInstance e u).NonemptyEntries := by
  intro e'
  unfold ORSet.removeInstance
  cases s.elements.lookup e with
  | none => exact h e'
  | some us =>
    simp only
    split
    · split
      · rw [lookup_erase_ite]
        split
        · simp
        · exact h e'
      · next hne =>
        rw [lookup_insert_ite]
        split
        · simpa using hne
        · exact h e'
    · exact h e'

theorem wf_merge (s t : ORSet T) : (s.merge t).WF := by
  refine ⟨nonemptyEntries_merge s t, fun e u hlive => ?_⟩
  obtain ⟨-, hs, ht⟩ := (live_merge s t e u).1 hlive
  rw [tombstones_merge, mem_union]
  exact not_or.2 ⟨hs, ht⟩

/-! ## Merge is a join -/

theorem merge_comm (s t : ORSet T) : s.merge t = t.merge s := by
  refine ext_live (nonemptyEntries_merge s t) (nonemptyEntries_merge t s) (fun e u => ?_) ?_
  · rw [live_merge, live_merge]
    tauto
  · rw [tombstones_merge, tombstones_merge, union_comm]

theorem merge_assoc (s t r : ORSet T) : (s.merge t).merge r = s.merge (t.merge r) := by
  refine ext_live (nonemptyEntries_merge _ _) (nonemptyEntries_merge _ _) (fun e u => ?_) ?_
  · simp only [live_merge, tombstones_merge, mem_union]
    tauto
  · simp only [tombstones_merge, union_assoc]

/-- Idempotence needs the invariant: a pair both live and tombstoned would be
dropped by the merge. -/
theorem merge_self (h : s.WF) : s.merge s = s := by
  refine ext_live (nonemptyEntries_merge s s) h.nonempty (fun e u => ?_) ?_
  · rw [live_merge]
    constructor
    · rintro ⟨hl | hl, -, -⟩ <;> exact hl
    · exact fun hl => ⟨.inl hl, h.disjoint e u hl, h.disjoint e u hl⟩
  · rw [tombstones_merge, union_self]

end ORSet
end Idiom
