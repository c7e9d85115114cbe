import Mathlib.Data.List.Basic
import Mathlib.Order.Lattice

/-!
# Ordered maps

The entries of a map in the order of their keys.
-/

namespace Idiom.OrderedMap

open List

variable {K V : Type*} [LinearOrder K]

def get (m : List (K × V)) (key : K) : Option V := (m.find? fun e => e.1 = key).map Prod.snd

/-- An old value of the key is replaced. -/
def insert (key : K) (value : V) : List (K × V) → List (K × V)
  | [] => [(key, value)]
  | e :: m =>
    if key < e.1 then (key, value) :: e :: m
    else if key = e.1 then (key, value) :: m
    else e :: insert key value m

/-- Later entries replace earlier ones. -/
def insertAll (entries : List (K × V)) (m : List (K × V)) : List (K × V) :=
  entries.foldl (fun m e => insert e.1 e.2 m) m

def remove (m : List (K × V)) (key : K) : List (K × V) := m.filter fun e => e.1 ≠ key

/-- Each key is smaller than those after it. -/
def Sorted (m : List (K × V)) : Prop := m.Pairwise fun e e' => e.1 < e'.1

variable {m m' : List (K × V)} {e : K × V} {key key' : K} {value : V}

/-! ## Values -/

theorem get_cons (e : K × V) (m : List (K × V)) (key : K) :
    get (e :: m) key = if e.1 = key then some e.2 else get m key := by
  unfold get
  by_cases h : e.1 = key
  · simp [h]
  · simp [h]

theorem mem_of_get (h : get m key = some value) : (key, value) ∈ m := by
  obtain ⟨e, he, rfl⟩ := Option.map_eq_some_iff.1 h
  have hkey := find?_some he
  rw [← of_decide_eq_true hkey]
  exact mem_of_find?_eq_some he

theorem get_eq_none_iff : get m key = none ↔ ∀ e ∈ m, e.1 ≠ key := by
  unfold get
  rw [Option.map_eq_none_iff]
  simp

theorem get_insert (m : List (K × V)) (key : K) (value : V) (key' : K) :
    get (insert key value m) key' = if key = key' then some value else get m key' := by
  induction m with
  | nil => rw [insert, get_cons]
  | cons e m ih =>
    rw [insert]
    split
    · rw [get_cons]
    · split
      · next hkey =>
        rw [get_cons, get_cons, ← hkey]
        split
        · rfl
        · rfl
      · next hkey =>
        rw [get_cons, ih, get_cons]
        by_cases h : e.1 = key'
        · rw [if_pos h, if_neg fun h' => hkey (h'.trans h.symm), if_pos h]
        · rw [if_neg h, if_neg h]

theorem get_remove (m : List (K × V)) (key key' : K) :
    get (remove m key) key' = if key = key' then none else get m key' := by
  induction m with
  | nil =>
    split
    · rfl
    · rfl
  | cons e m ih =>
    unfold remove at ih ⊢
    by_cases he : e.1 = key
    · rw [filter_cons_of_neg (by simp [he]), ih, get_cons, he]
      split
      · rfl
      · rfl
    · rw [filter_cons_of_pos (by simp [he]), get_cons, ih, get_cons]
      by_cases h : e.1 = key'
      · rw [if_pos h, if_pos h, if_neg fun h' => he (h.trans h'.symm)]
      · rw [if_neg h, if_neg h]

theorem remove_insert (key : K) (value : V) (m : List (K × V)) :
    remove (insert key value m) key = remove m key := by
  induction m with
  | nil => simp [insert, remove]
  | cons e m ih =>
    unfold remove at ih ⊢
    rw [insert]
    split
    · rw [filter_cons_of_neg (by simp)]
    · split
      · next hkey => rw [filter_cons_of_neg (by simp), filter_cons_of_neg (by simp [hkey])]
      · next hkey =>
        have hne : e.1 ≠ key := fun h => hkey h.symm
        rw [filter_cons_of_pos (by simp [hne]), ih, filter_cons_of_pos (by simp [hne])]

theorem get_filter_key (m : List (K × V)) (p : K → Bool) (key : K) :
    get (m.filter fun e => p e.1) key = if p key then get m key else none := by
  induction m with
  | nil =>
    split
    · rfl
    · rfl
  | cons e m ih =>
    by_cases he : p e.1 = true
    · rw [filter_cons_of_pos (by simpa using he), get_cons, ih, get_cons]
      by_cases h : e.1 = key
      · rw [if_pos h, if_pos h, if_pos (h ▸ he)]
      · rw [if_neg h, if_neg h]
    · rw [filter_cons_of_neg (by simpa using he), ih, get_cons]
      by_cases h : e.1 = key
      · rw [if_neg (h ▸ he), if_neg (h ▸ he)]
      · rw [if_neg h]

/-! ## Sorted maps -/

theorem mem_insert (h : e ∈ insert key value m) : e = (key, value) ∨ e ∈ m := by
  induction m with
  | nil =>
    rw [insert, mem_singleton] at h
    exact .inl h
  | cons e' m ih =>
    rw [insert] at h
    split at h
    · exact mem_cons.1 h
    · split at h
      · exact (mem_cons.1 h).imp_right (mem_cons_of_mem _)
      · rcases mem_cons.1 h with rfl | h
        · exact .inr mem_cons_self
        · exact (ih h).imp_right (mem_cons_of_mem _)

theorem insert_of_lt (h : ∀ e ∈ m, key < e.1) : insert key value m = (key, value) :: m := by
  cases m with
  | nil => rfl
  | cons e m => rw [insert, if_pos (h e mem_cons_self)]

theorem Sorted.lt_of_cons (h : Sorted (e :: m)) : ∀ e' ∈ m, e.1 < e'.1 :=
  (pairwise_cons.1 h).1

theorem Sorted.of_cons (h : Sorted (e :: m)) : Sorted m := (pairwise_cons.1 h).2

theorem Sorted.insert (h : Sorted m) : Sorted (insert key value m) := by
  induction m with
  | nil => exact pairwise_singleton _ _
  | cons e m ih =>
    obtain ⟨hhead, htail⟩ := pairwise_cons.1 h
    rw [OrderedMap.insert]
    split
    · next hlt =>
      refine pairwise_cons.2 ⟨fun e' he' => ?_, h⟩
      rcases mem_cons.1 he' with rfl | he'
      · exact hlt
      · exact hlt.trans (hhead e' he')
    · next hnot =>
      split
      · next hkey =>
        refine pairwise_cons.2 ⟨fun e' he' => ?_, htail⟩
        show key < e'.1
        rw [hkey]
        exact hhead e' he'
      · next hkey =>
        refine pairwise_cons.2 ⟨fun e' he' => ?_, ih htail⟩
        rcases mem_insert he' with rfl | he'
        · exact lt_of_le_of_ne (not_lt.1 hnot) fun h => hkey h.symm
        · exact hhead e' he'

theorem Sorted.filter (h : Sorted m) (p : K × V → Bool) : Sorted (m.filter p) :=
  Pairwise.filter p h

theorem Sorted.remove (h : Sorted m) (key : K) : Sorted (remove m key) := h.filter _

theorem Sorted.get_eq_some_iff (h : Sorted m) : get m key = some value ↔ (key, value) ∈ m := by
  refine ⟨mem_of_get, fun hmem => ?_⟩
  induction m with
  | nil => cases hmem
  | cons e m ih =>
    obtain ⟨hhead, htail⟩ := pairwise_cons.1 h
    rw [get_cons]
    rcases mem_cons.1 hmem with rfl | hmem
    · rw [if_pos rfl]
    · rw [if_neg (hhead _ hmem).ne]
      exact ih htail hmem

theorem Sorted.get_filter (h : Sorted m) (p : K × V → Bool) (key : K) :
    get (m.filter p) key = (get m key).filter fun value => p (key, value) := by
  refine Option.ext fun value => ?_
  rw [(h.filter p).get_eq_some_iff, mem_filter, Option.filter_eq_some_iff, h.get_eq_some_iff]

theorem Sorted.ext (h : Sorted m) (h' : Sorted m') (heq : ∀ key, get m key = get m' key) :
    m = m' := by
  have hmem : ∀ e, e ∈ m ↔ e ∈ m' := by
    intro e
    rw [← h.get_eq_some_iff, heq, h'.get_eq_some_iff]
  have hnodup : ∀ {m : List (K × V)}, Sorted m → m.Nodup := fun h => h.imp fun hlt heq =>
    hlt.ne (congrArg Prod.fst heq)
  refine Perm.eq_of_pairwise (fun a b _ _ hab hba => ?_) h h'
    ((perm_ext_iff_of_nodup (hnodup h) (hnodup h')).2 hmem)
  exact absurd hab hba.asymm

theorem Sorted.remove_insert_of_ne (h : Sorted m) (hne : key ≠ key') :
    OrderedMap.remove (OrderedMap.insert key value m) key' =
      OrderedMap.insert key value (OrderedMap.remove m key') := by
  refine Sorted.ext (h.insert.remove key') (h.remove key').insert fun k => ?_
  rw [get_remove, get_insert, get_insert, get_remove]
  by_cases hk : key = k
  · rw [if_pos hk, if_pos hk, if_neg fun h' => hne (hk.trans h'.symm)]
  · rw [if_neg hk, if_neg hk]

theorem remove_cons (e : K × V) (m : List (K × V)) (key : K) :
    remove (e :: m) key = if e.1 = key then remove m key else e :: remove m key := by
  unfold remove
  by_cases h : e.1 = key
  · simp [h]
  · simp [h]

theorem Sorted.get_insertAll (h : Sorted m) (m' : List (K × V)) (key : K) :
    get (insertAll m m') key = (get m key).or (get m' key) := by
  induction m generalizing m' with
  | nil => rfl
  | cons e m ih =>
    obtain ⟨hhead, htail⟩ := pairwise_cons.1 h
    rw [insertAll]
    show get (insertAll m (OrderedMap.insert e.1 e.2 m')) key = _
    rw [ih htail, get_insert, get_cons]
    by_cases hkey : e.1 = key
    · have hnone : get m key = none := by
        refine get_eq_none_iff.2 fun e' he' heq => ?_
        exact (hhead e' he').ne (hkey.trans heq.symm)
      rw [if_pos hkey, if_pos hkey, hnone]
      rfl
    · rw [if_neg hkey, if_neg hkey]

end Idiom.OrderedMap
