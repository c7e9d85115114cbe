import Mathlib.Data.Finmap

/-!
# Finite maps: updating one key, and looping over another map

Mathlib's `Finmap` is a finite map up to the order of its entries, which is what a
hash map is to a program that never looks at its iteration order. This file adds
the two operations programs use it with beyond `insert` and `erase`:
-/

namespace Idiom

open Finmap

/-- A finite map whose values do not depend on the key. -/
abbrev FMap (K V : Type*) := Finmap (fun _ : K => V)

namespace FMap

variable {K V W : Type*} [DecidableEq K]

/-! ## One key -/

theorem lookup_insert_ite (m : FMap K V) (k k' : K) (v : V) :
    (m.insert k v).lookup k' = if k' = k then some v else m.lookup k' := by
  split
  · next h => rw [h, lookup_insert]
  · next h => rw [lookup_insert_of_ne m h]

theorem keys_insert (m : FMap K V) (k : K) (v : V) : (m.insert k v).keys = insert k m.keys := by
  ext k'
  rw [Finset.mem_insert, mem_keys, mem_keys, mem_insert]

theorem lookup_erase_ite (m : FMap K V) (k k' : K) :
    (m.erase k).lookup k' = if k' = k then none else m.lookup k' := by
  split
  · next h => rw [h, lookup_erase]
  · next h => rw [lookup_erase_ne h]

/-- Read the value at a key and replace it: `none` means the key is absent, on
either side. -/
def alter (m : FMap K V) (k : K) (f : Option V → Option V) : FMap K V :=
  match f (m.lookup k) with
  | none => m.erase k
  | some v => m.insert k v

theorem lookup_alter (m : FMap K V) (k k' : K) (f : Option V → Option V) :
    (m.alter k f).lookup k' = if k' = k then f (m.lookup k) else m.lookup k' := by
  unfold alter
  cases hf : f (m.lookup k) with
  | none => exact lookup_erase_ite m k k'
  | some v => exact lookup_insert_ite m k k' v

/-! ## Looping over the entries of another map -/

/-- The loop over a list of entries, each altering its own key. -/
def alterAll (f : K → W → Option V → Option V) (m : FMap K V)
    (l : List (Sigma fun _ : K => W)) : FMap K V :=
  l.foldl (fun m p => m.alter p.1 (f p.1 p.2)) m

variable {f : K → W → Option V → Option V}

theorem lookup_alterAll_of_notMem {k : K} :
    ∀ {l : List (Sigma fun _ : K => W)} (m : FMap K V), k ∉ l.keys →
      (alterAll f m l).lookup k = m.lookup k := by
  intro l
  induction l with
  | nil => intro m _; rfl
  | cons p l ih =>
    intro m hk
    simp only [List.keys_cons, List.mem_cons, not_or] at hk
    show (alterAll f (m.alter p.1 (f p.1 p.2)) l).lookup k = _
    rw [ih _ hk.2, lookup_alter, if_neg hk.1]

/-- What the loop leaves at a key: the body applied once if the key has an entry
in the list, and nothing changed otherwise. -/
theorem lookup_alterAll {k : K} :
    ∀ {l : List (Sigma fun _ : K => W)} (m : FMap K V), l.NodupKeys →
      (alterAll f m l).lookup k =
        match l.dlookup k with
        | none => m.lookup k
        | some w => f k w (m.lookup k) := by
  intro l
  induction l with
  | nil => intro m _; rfl
  | cons p l ih =>
    obtain ⟨k₀, w⟩ := p
    intro m hl
    obtain ⟨hk₀, hl'⟩ := List.nodupKeys_cons.1 hl
    show (alterAll f (m.alter k₀ (f k₀ w)) l).lookup k = _
    by_cases hk : k = k₀
    · subst hk
      rw [lookup_alterAll_of_notMem _ hk₀, lookup_alter, if_pos rfl, List.dlookup_cons_eq]
    · rw [ih _ hl', lookup_alter, if_neg hk, List.dlookup_cons_ne _ _ hk]

/-- The order in which the entries are visited does not matter. -/
theorem alterAll_perm (m : FMap K V) {l₁ l₂ : List (Sigma fun _ : K => W)} (h₁ : l₁.NodupKeys)
    (hp : l₁.Perm l₂) : alterAll f m l₁ = alterAll f m l₂ := by
  have h₂ : l₂.NodupKeys := (List.perm_nodupKeys hp).1 h₁
  refine ext_lookup fun k => ?_
  rw [lookup_alterAll m h₁, lookup_alterAll m h₂, List.perm_dlookup k h₁ hp]

/-- `for (k, w) in other { m[k] := f k w m[k] }`. -/
def forEach (other : FMap K W) (m : FMap K V) (f : K → W → Option V → Option V) : FMap K V :=
  other.liftOn (fun l => alterAll f m l.entries) (fun l₁ _ hp => alterAll_perm m l₁.nodupKeys hp)

theorem lookup_forEach (other : FMap K W) (m : FMap K V) (f : K → W → Option V → Option V) (k : K) :
    (forEach other m f).lookup k =
      match other.lookup k with
      | none => m.lookup k
      | some w => f k w (m.lookup k) := by
  induction other using induction_on with
  | H l =>
    rw [forEach]
    exact lookup_alterAll m l.nodupKeys

/-- `HashMap::retain` with a body that may also edit the value it keeps. -/
def retain (m : FMap K V) (f : K → V → Option V) : FMap K V :=
  forEach m m (fun k v _ => f k v)

theorem lookup_retain (m : FMap K V) (f : K → V → Option V) (k : K) :
    (retain m f).lookup k = (m.lookup k).bind (f k) := by
  rw [retain, lookup_forEach]
  cases m.lookup k <;> rfl

end FMap
end Idiom
