import Idiom.Lib.FiniteMap
import Idiom.Lib.IterOrder

/-!
# Secondary indexes that are only added to

A table keeps rows under their key. A secondary index sends an attribute of the rows to
the key of one row that has it. Here the index is written whenever a row is put into the
table and at no other time: a row that is put again with another attribute, and a row that is
removed, leave their old entries behind.
-/

namespace Idiom

open Finmap Option List

/-! ## The rows of a table -/

namespace FMap

variable {K V A : Type*} [DecidableEq K]

/-- `HashMap::values`. -/
def values (order : IterOrder K) (table : FMap K V) : List V :=
  (order.list table.keys).filterMap table.lookup

theorem mem_values {order : IterOrder K} {table : FMap K V} {v : V} :
    v ∈ table.values order ↔ ∃ k, table.lookup k = some v := by
  rw [values, mem_filterMap]
  constructor
  · rintro ⟨k, -, hk⟩
    exact ⟨k, hk⟩
  · rintro ⟨k, hk⟩
    refine ⟨k, ?_, hk⟩
    rw [order.mem_list]
    exact lookup_isSome.1 (by rw [hk]; rfl)

/-- Every row stands under its own key. -/
def Keyed (key : V → K) (table : FMap K V) : Prop :=
  ∀ k v, table.lookup k = some v → key v = k

theorem keyed_empty (key : V → K) : Keyed key (∅ : FMap K V) := by
  intro k v hk
  cases hk

variable {key : V → K}

theorem Keyed.insert {table : FMap K V} (h : table.Keyed key) (v : V) :
    Keyed key (insert (key v) v table) := by
  intro k w hk
  rw [lookup_insert_ite] at hk
  split at hk
  · next heq =>
    cases hk
    exact heq.symm
  · exact h k w hk

theorem Keyed.nodup_values {table : FMap K V} (h : table.Keyed key) (order : IterOrder K) :
    (table.values order).Nodup := by
  refine Nodup.filterMap ?_ (order.nodup_list table.keys)
  intro k k' v hk hk'
  rw [← h k v hk, ← h k' v hk']

/-- `for v in rows { map.insert(v.key, v) }`. -/
def insertAll (key : V → K) (table : FMap K V) (rows : List V) : FMap K V :=
  rows.foldl (fun table v => insert (key v) v table) table

theorem lookup_insertAll_of_notMem {k : K} {rows : List V} {table : FMap K V}
    (h : ∀ v ∈ rows, key v ≠ k) : (insertAll key table rows).lookup k = table.lookup k := by
  induction rows generalizing table with
  | nil => rfl
  | cons w rows ih =>
    show (insertAll key (insert (key w) w table) rows).lookup k = _
    rw [ih fun v hv => h v (mem_cons_of_mem w hv), lookup_insert_of_ne _ (h w mem_cons_self).symm]

theorem lookup_insertAll_of_mem {k : K} {v : V} {rows : List V} {table : FMap K V} (hv : v ∈ rows)
    (hk : key v = k) (honly : ∀ w ∈ rows, key w = k → w = v) :
    (insertAll key table rows).lookup k = some v := by
  induction rows generalizing table with
  | nil => cases hv
  | cons w rows ih =>
    show (insertAll key (insert (key w) w table) rows).lookup k = _
    have honly' : ∀ u ∈ rows, key u = k → u = v := fun u hu => honly u (mem_cons_of_mem w hu)
    by_cases hmem : v ∈ rows
    · exact ih hmem honly'
    · obtain rfl : w = v := ((mem_cons.1 hv).resolve_right hmem).symm
      rw [lookup_insertAll_of_notMem fun u hu huk => hmem (honly' u hu huk ▸ hu), hk, lookup_insert]

/-- A table written anew from all the rows of another, each row changed but not its key. -/
theorem lookup_insertAll_values {W : Type*} {key : W → K} {f : V → W} {table : FMap K V}
    (hkey : ∀ k v, table.lookup k = some v → key (f v) = k) (order : IterOrder K) (k : K) :
    (insertAll key ∅ ((table.values order).map f)).lookup k = (table.lookup k).map f := by
  have hrows : ∀ w ∈ (table.values order).map f, ∃ v, table.lookup (key w) = some v ∧ f v = w := by
    intro w hw
    obtain ⟨v, hv, rfl⟩ := mem_map.1 hw
    obtain ⟨k', hk'⟩ := mem_values.1 hv
    rw [hkey k' v hk']
    exact ⟨v, hk', rfl⟩
  cases hlookup : table.lookup k with
  | none =>
    rw [lookup_insertAll_of_notMem]
    · rfl
    · rintro w hw rfl
      obtain ⟨v, hv, -⟩ := hrows w hw
      rw [hlookup] at hv
      cases hv
  | some v =>
    refine lookup_insertAll_of_mem (mem_map.2 ⟨v, mem_values.2 ⟨k, hlookup⟩, rfl⟩)
      (hkey k v hlookup) ?_
    rintro w hw rfl
    obtain ⟨u, hu, rfl⟩ := hrows w hw
    rw [some.inj (hlookup.symm.trans hu)]

theorem values_empty (order : IterOrder K) : values order (∅ : FMap K V) = [] := by
  rw [values, keys_empty, order.list_empty]
  rfl

theorem values_singleton (order : IterOrder K) (k : K) (v : V) :
    values order (insert k v ∅) = [v] := by
  have hkeys : (insert k v (∅ : FMap K V)).keys = {k} := by
    rw [keys_insert]
    rfl
  rw [values, hkeys, order.list_singleton, filterMap_cons, lookup_insert]
  rfl

/-- No two rows share an attribute. -/
def Unique (attr : V → Option A) (table : FMap K V) : Prop :=
  ∀ k k' v v' a, table.lookup k = some v → table.lookup k' = some v' →
    attr v = some a → attr v' = some a → k = k'

theorem Unique.erase {attr : V → Option A} {table : FMap K V} (h : table.Unique attr) (k₀ : K) :
    Unique attr (erase k₀ table) := by
  intro k k' v v' a hk hk' hv hv'
  rw [lookup_erase_ite] at hk hk'
  split at hk
  · cases hk
  · split at hk'
    · cases hk'
    · exact h k k' v v' a hk hk' hv hv'

/-- A row keeps the attributes apart exactly when no other row has its attribute. -/
theorem unique_insert {attr : V → Option A} {table : FMap K V} (h : table.Unique attr) {k₀ : K}
    {v₀ : V} :
    Unique attr (insert k₀ v₀ table) ↔
      ∀ k v a, k ≠ k₀ → table.lookup k = some v → attr v₀ = some a → attr v ≠ some a := by
  constructor
  · intro hu k v a hne hk hv₀ hv
    refine hne (hu k k₀ v v₀ a ?_ (lookup_insert _) hv hv₀)
    rw [lookup_insert_of_ne _ hne]
    exact hk
  · intro hother k k' v v' a hk hk' hv hv'
    rw [lookup_insert_ite] at hk hk'
    split at hk
    · next heq =>
      cases hk
      split at hk'
      · next heq' => rw [heq, heq']
      · next hne' => exact absurd hv' (hother k' v' a hne' hk' hv)
    · next hne =>
      split at hk'
      · next heq' =>
        cases hk'
        exact absurd hv (hother k v a hne hk hv')
      · exact h k k' v v' a hk hk' hv hv'

end FMap

open FMap

/-! ## The index -/

/-- From an attribute to the key of a row. -/
abbrev AddOnlyIndex (A K : Type*) := FMap A K

namespace AddOnlyIndex

variable {A K V : Type*} [DecidableEq A]

/-- Enter a row under its attribute, if it has one. -/
def add (index : AddOnlyIndex A K) (a : Option A) (k : K) : AddOnlyIndex A K :=
  match a with
  | none => index
  | some a => insert a k index

theorem lookup_add (index : AddOnlyIndex A K) (a : Option A) (k : K) (a' : A) :
    (index.add a k).lookup a' = if a = some a' then some k else index.lookup a' := by
  cases a with
  | none => rfl
  | some a =>
    show (insert a k index).lookup a' = _
    rw [lookup_insert_ite]
    simp only [some.injEq, eq_comm]

/-- Enter rows one after the other. -/
def addAll (attr : V → Option A) (key : V → K) (index : AddOnlyIndex A K) (rows : List V) :
    AddOnlyIndex A K :=
  rows.foldl (fun index v => index.add (attr v) (key v)) index

variable {index : AddOnlyIndex A K}

theorem lookup_addAll {attr : V → Option A} {key : V → K} {a : A} {k : K} {rows : List V}
    (h : (addAll attr key index rows).lookup a = some k) :
    index.lookup a = some k ∨ ∃ v ∈ rows, attr v = some a ∧ key v = k := by
  induction rows generalizing index with
  | nil => exact .inl h
  | cons w rows ih =>
    rcases ih h with hindex | ⟨v, hv, hattr⟩
    · rw [lookup_add] at hindex
      split at hindex
      · next hw => exact .inr ⟨w, mem_cons_self, hw, some.inj hindex⟩
      · exact .inl hindex
    · exact .inr ⟨v, mem_cons_of_mem w hv, hattr⟩

theorem lookup_addAll_isSome {attr : V → Option A} {key : V → K} {a : A} {rows : List V}
    (h : (index.lookup a).isSome ∨ ∃ v ∈ rows, attr v = some a) :
    ((addAll attr key index rows).lookup a).isSome := by
  induction rows generalizing index with
  | nil =>
    rcases h with h | ⟨v, hv, -⟩
    · exact h
    · cases hv
  | cons w rows ih =>
    refine ih ?_
    rw [lookup_add]
    by_cases hw : attr w = some a
    · rw [if_pos hw]
      exact .inl rfl
    · rw [if_neg hw]
      rcases h with h | ⟨v, hv, hattr⟩
      · exact .inl h
      · rcases mem_cons.1 hv with rfl | hv
        · exact absurd hattr hw
        · exact .inr ⟨v, hv, hattr⟩

variable [DecidableEq K]

/-- The row the index names. -/
def get (index : AddOnlyIndex A K) (table : FMap K V) (a : A) : Option V :=
  (index.lookup a).bind table.lookup

theorem get_eq_some {table : FMap K V} {a : A} {v : V} :
    index.get table a = some v ↔ ∃ k, index.lookup a = some k ∧ table.lookup k = some v :=
  bind_eq_some_iff

/-- A lookup finds a row with the attribute, if there is one. -/
structure Finds (attr : V → Option A) (index : AddOnlyIndex A K) (table : FMap K V) : Prop where
  sound : ∀ a v, index.get table a = some v → attr v = some a
  complete : ∀ k v a, table.lookup k = some v → attr v = some a → (index.get table a).isSome

variable {attr : V → Option A} {key : V → K} {index : AddOnlyIndex A K} {table : FMap K V}

/-- **Putting a row.**  Lookups keep finding the right rows exactly when no entry names the row
under an attribute that is not its own. -/
theorem finds_insert (h : Finds attr index table) (k₀ : K) (v₀ : V) :
    Finds attr (index.add (attr v₀) k₀) (insert k₀ v₀ table) ↔
      ∀ a, attr v₀ ≠ some a → index.lookup a ≠ some k₀ := by
  constructor
  · intro hf a ha hentry
    refine ha (hf.sound a v₀ (get_eq_some.2 ⟨k₀, ?_, lookup_insert _⟩))
    rw [lookup_add, if_neg ha]
    exact hentry
  · intro hstale
    refine ⟨fun a v hget => ?_, fun k v a hk hattr => ?_⟩
    · obtain ⟨k, hentry, hk⟩ := get_eq_some.1 hget
      rw [lookup_add] at hentry
      split at hentry
      · next hown =>
        cases hentry
        rw [lookup_insert] at hk
        cases hk
        exact hown
      · next hown =>
        have hne : k ≠ k₀ := fun heq => hstale a hown (heq ▸ hentry)
        rw [lookup_insert_of_ne _ hne] at hk
        exact h.sound a v (get_eq_some.2 ⟨k, hentry, hk⟩)
    · rw [get, lookup_add]
      by_cases hown : attr v₀ = some a
      · rw [if_pos hown, bind_some, lookup_insert]
        rfl
      · rw [if_neg hown]
        have hne : k ≠ k₀ := by
          rintro rfl
          rw [lookup_insert] at hk
          cases hk
          exact hown hattr
        rw [lookup_insert_of_ne _ hne] at hk
        obtain ⟨w, hw⟩ := isSome_iff_exists.1 (h.complete k v a hk hattr)
        obtain ⟨k', hentry, hk'⟩ := get_eq_some.1 hw
        have hne' : k' ≠ k₀ := fun heq => hstale a hown (heq ▸ hentry)
        rw [hentry, bind_some, lookup_insert_of_ne _ hne', hk']
        rfl

/-- **Removing a row.**  Lookups keep finding the right rows exactly when no other row has an
attribute under which the index names the row that goes. -/
theorem finds_erase (h : Finds attr index table) (k₀ : K) :
    Finds attr index (erase k₀ table) ↔
      ∀ a, index.lookup a = some k₀ → ∀ k v, k ≠ k₀ → table.lookup k = some v →
        attr v ≠ some a := by
  constructor
  · intro hf a hentry k v hne hk hattr
    have hsome := hf.complete k v a (by rw [lookup_erase_ne hne]; exact hk) hattr
    rw [get, hentry, bind_some, lookup_erase] at hsome
    cases hsome
  · intro hother
    refine ⟨fun a v hget => ?_, fun k v a hk hattr => ?_⟩
    · obtain ⟨k, hentry, hk⟩ := get_eq_some.1 hget
      rw [lookup_erase_ite] at hk
      split at hk
      · cases hk
      · exact h.sound a v (get_eq_some.2 ⟨k, hentry, hk⟩)
    · rw [lookup_erase_ite] at hk
      split at hk
      · cases hk
      · next hne =>
        obtain ⟨w, hw⟩ := isSome_iff_exists.1 (h.complete k v a hk hattr)
        obtain ⟨k', hentry, hk'⟩ := get_eq_some.1 hw
        have hne' : k' ≠ k₀ := by
          rintro rfl
          exact hother a hentry k v hne hk hattr
        rw [get, hentry, bind_some, lookup_erase_ne hne', hk']
        rfl

theorem finds_addAll (hkeyed : table.Keyed key) (order : IterOrder K) :
    Finds attr (addAll attr key ∅ (table.values order)) table := by
  have hentry : ∀ {a k}, (addAll attr key (∅ : AddOnlyIndex A K) (table.values order)).lookup a =
      some k → ∃ v, table.lookup k = some v ∧ attr v = some a := by
    intro a k h
    rcases lookup_addAll h with hempty | ⟨v, hv, hattr, rfl⟩
    · cases hempty
    · obtain ⟨k, hk⟩ := mem_values.1 hv
      rw [hkeyed k v hk]
      exact ⟨v, hk, hattr⟩
  refine ⟨fun a v hget => ?_, fun k v a hk hattr => ?_⟩
  · obtain ⟨k, hlookup, hk⟩ := get_eq_some.1 hget
    obtain ⟨w, hw, hattr⟩ := hentry hlookup
    rw [← some.inj (hw.symm.trans hk)]
    exact hattr
  · have hsome : ((addAll attr key (∅ : AddOnlyIndex A K) (table.values order)).lookup a).isSome :=
      lookup_addAll_isSome (.inr ⟨v, mem_values.2 ⟨k, hk⟩, hattr⟩)
    obtain ⟨k', hlookup⟩ := isSome_iff_exists.1 hsome
    obtain ⟨w, hw, -⟩ := hentry hlookup
    rw [get, hlookup, bind_some, hw]
    rfl

/-- Every attribute of a row has an entry, be it the right one or not. -/
def Indexed (attr : V → Option A) (index : AddOnlyIndex A K) (table : FMap K V) : Prop :=
  ∀ k v a, table.lookup k = some v → attr v = some a → (index.lookup a).isSome

theorem Finds.indexed (h : Finds attr index table) : Indexed attr index table := by
  intro k v a hk hattr
  obtain ⟨w, hw⟩ := isSome_iff_exists.1 (h.complete k v a hk hattr)
  obtain ⟨k', hentry, -⟩ := get_eq_some.1 hw
  rw [hentry]
  rfl

theorem Indexed.insert (h : Indexed attr index table) (k₀ : K) (v₀ : V) :
    Indexed attr (index.add (attr v₀) k₀) (insert k₀ v₀ table) := by
  intro k v a hk hattr
  rw [lookup_add]
  split
  · rfl
  · next hown =>
    rw [lookup_insert_ite] at hk
    split at hk
    · cases hk
      exact absurd hattr hown
    · exact h k v a hk hattr

theorem Indexed.erase (h : Indexed attr index table) (k₀ : K) :
    Indexed attr index (erase k₀ table) := by
  intro k v a hk hattr
  rw [lookup_erase_ite] at hk
  split at hk
  · cases hk
  · exact h k v a hk hattr

end AddOnlyIndex
end Idiom
