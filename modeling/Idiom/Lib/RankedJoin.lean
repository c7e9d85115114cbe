import Mathlib.Data.List.Find
import Mathlib.Data.List.Induction
import Mathlib.Order.MinMax

/-!
# Keeping the entry of higher rank

A register that holds at most one entry and replaces it only by an entry of
strictly higher rank. The rank need not determine the entry, so the join of two
registers is associative and idempotent outright, but commutative only on entries
that their rank identifies.
-/

namespace Idiom.Ranked

open List

variable {E L : Type*} [LinearOrder L] (rank : E → L)

/-- Offer an entry to a register: it is taken if the register is empty or its
entry has strictly lower rank. -/
def offer (r : Option E) (e : E) : E :=
  match r with
  | none => e
  | some a => if rank a < rank e then e else a

/-- Offer a register to a register. -/
def join (r s : Option E) : Option E :=
  match s with
  | none => r
  | some e => some (offer rank r e)

/-- The register holds an entry whose rank is at least that of `e`. -/
def Below (e : E) (r : Option E) : Prop := ∃ a, r = some a ∧ rank e ≤ rank a

@[simp] theorem join_none (r : Option E) : join rank r none = r := rfl

@[simp] theorem none_join (s : Option E) : join rank none s = s := by
  cases s <;> rfl

theorem join_some_some (a b : E) :
    join rank (some a) (some b) = some (if rank a < rank b then b else a) := rfl

variable {rank}

variable {r s : Option E}

/-- What the join holds was held before, or came in with a strictly higher rank. -/
theorem join_eq_some {x : E} (h : join rank r s = some x) :
    r = some x ∨ (s = some x ∧ ∀ a, r = some a → rank a < rank x) := by
  cases r with
  | none => exact .inr ⟨by rwa [none_join] at h, by simp⟩
  | some a =>
    cases s with
    | none => exact .inl h
    | some b =>
      rw [join_some_some] at h
      split at h
      · next hlt =>
        cases h
        exact .inr ⟨rfl, fun a' ha' => by cases ha'; exact hlt⟩
      · exact .inl h

variable {e : E}

theorem join_eq_right (h : ∀ a, r = some a → rank a < rank e) : join rank r (some e) = some e := by
  cases r with
  | none => rfl
  | some a => rw [join_some_some, if_pos (h a rfl)]

theorem below_self (e : E) : Below rank e (some e) := ⟨e, rfl, le_refl _⟩

theorem Below.join_left (h : Below rank e r) (s : Option E) : Below rank e (join rank r s) := by
  obtain ⟨a, rfl, ha⟩ := h
  cases s with
  | none => exact ⟨a, rfl, ha⟩
  | some b =>
    rw [join_some_some]
    split
    · next hlt => exact ⟨b, rfl, ha.trans hlt.le⟩
    · exact ⟨a, rfl, ha⟩

theorem Below.join_right (h : Below rank e s) (r : Option E) : Below rank e (join rank r s) := by
  obtain ⟨b, rfl, hb⟩ := h
  cases r with
  | none => exact ⟨b, rfl, hb⟩
  | some a =>
    rw [join_some_some]
    split
    · exact ⟨b, rfl, hb⟩
    · next hnlt => exact ⟨a, rfl, hb.trans (not_lt.1 hnlt)⟩

theorem join_self (r : Option E) : join rank r r = r := by
  cases r with
  | none => rfl
  | some a => rw [join_some_some, if_neg (lt_irrefl _)]

/-- The join keeps the first entry of highest rank, so bracketing does not
matter. -/
theorem join_assoc (r s t : Option E) :
    join rank (join rank r s) t = join rank r (join rank s t) := by
  cases r with
  | none => simp
  | some a =>
    cases s with
    | none => simp
    | some b =>
      cases t with
      | none => rfl
      | some c =>
        simp only [join_some_some]
        rcases lt_or_ge (rank a) (rank b) with hab | hba
        · rw [if_pos hab]
          rcases lt_or_ge (rank b) (rank c) with hbc | hcb
          · rw [if_pos hbc, if_pos (hab.trans hbc)]
          · rw [if_neg hcb.not_gt, if_pos hab]
        · rw [if_neg hba.not_gt]
          rcases lt_or_ge (rank b) (rank c) with hbc | hcb
          · rw [if_pos hbc]
          · rw [if_neg hcb.not_gt, if_neg hba.not_gt, if_neg (hcb.trans hba).not_gt]

/-- Registers that each outrank the other's entry agree, if equal ranks mean equal
entries. -/
theorem eq_of_below (htie : ∀ a b, r = some a → s = some b → rank a = rank b → a = b)
    (hrs : ∀ a, r = some a → Below rank a s) (hsr : ∀ b, s = some b → Below rank b r) : r = s := by
  cases r with
  | none =>
    cases s with
    | none => rfl
    | some b => obtain ⟨a, ha, -⟩ := hsr b rfl; cases ha
  | some a =>
    obtain ⟨b, rfl, hab⟩ := hrs a rfl
    obtain ⟨a', ha', hba⟩ := hsr b rfl
    cases ha'
    rw [htie a b rfl rfl (le_antisymm hab hba)]

theorem join_comm (htie : ∀ a b, r = some a → s = some b → rank a = rank b → a = b) :
    join rank r s = join rank s r := by
  cases r with
  | none => simp
  | some a =>
    cases s with
    | none => simp
    | some b =>
      rw [join_some_some, join_some_some]
      rcases lt_trichotomy (rank a) (rank b) with h | h | h
      · rw [if_pos h, if_neg h.not_gt]
      · rw [htie a b rfl rfl h]
      · rw [if_neg h.not_gt, if_pos h]

/-! ## Offering one entry after another -/

/-- The register after a list of entries has been offered to an empty one. -/
def offerAll (rank : E → L) (l : List E) : Option E :=
  l.foldl (fun r e => join rank r (some e)) none

theorem offerAll_snoc (l : List E) (e : E) :
    offerAll rank (l ++ [e]) = join rank (offerAll rank l) (some e) := by
  simp [offerAll]

theorem offerAll_eq_none {l : List E} : offerAll rank l = none ↔ l = [] := by
  cases l using reverseRecOn with
  | nil => simp [offerAll]
  | append_singleton l e => simp [offerAll_snoc, join]

/-- **The register ends up with the first entry of highest rank.** -/
theorem offerAll_eq_find? (l : List E) :
    offerAll rank l = l.find? fun e => ∀ x ∈ l, rank x ≤ rank e := by
  induction l using reverseRecOn with
  | nil => rfl
  | append_singleton l e ih =>
    rw [offerAll_snoc, find?_append]
    cases ha : offerAll rank l with
    | none =>
      rw [offerAll_eq_none] at ha
      subst ha
      simp
    | some a =>
      rw [ih] at ha
      have hmem : a ∈ l := mem_of_find?_eq_some ha
      have htop : ∀ x ∈ l, rank x ≤ rank a := by simpa using find?_some ha
      rw [join_some_some]
      rcases lt_or_ge (rank a) (rank e) with hlt | hge
      · -- the new entry outranks all others
        have hnone : (l.find? fun y => ∀ x ∈ l ++ [e], rank x ≤ rank y) = none := by
          rw [find?_eq_none]
          intro y hy hc
          have hey : rank e ≤ rank y := by simpa using (of_decide_eq_true hc) e (by simp)
          exact absurd (hey.trans (htop y hy)) hlt.not_ge
        have hall : ∀ x ∈ l, rank x ≤ rank e := fun x hx => (htop x hx).trans hlt.le
        rw [if_pos hlt, hnone]
        simpa using hall
      · -- the new entry changes nothing
        have hsame : (l.find? fun y => ∀ x ∈ l ++ [e], rank x ≤ rank y) =
            l.find? fun y => ∀ x ∈ l, rank x ≤ rank y := by
          refine find?_congr fun y hy => ?_
          rw [decide_eq_decide]
          constructor
          · exact fun h x hx => h x (mem_append_left _ hx)
          · intro h x hx
            rcases mem_append.1 hx with hx | hx
            · exact h x hx
            · rw [mem_singleton.1 hx]
              exact hge.trans (h a hmem)
        rw [if_neg hge.not_gt, hsame, ha]
        rfl

end Idiom.Ranked
