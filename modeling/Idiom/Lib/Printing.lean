import Mathlib.Data.List.Forall2

/-!
# Texts that can be read in one way

A text is followed by a rest. If two texts with their rests are the same, so are the things that
were printed and the rests.
-/

namespace Idiom.Printing

open List

/-- A number ends before the rest. -/
def Stops (rest : List Char) : Prop := ∀ c ∈ rest.head?, c.isDigit = false

theorem stops_nil : Stops [] := fun _ h => nomatch h

variable {c : Char}

theorem stops_cons (h : c.isDigit = false) (rest : List Char) : Stops (c :: rest) := by
  rintro _ ⟨⟩
  exact h

/-! ## Numbers -/

theorem takeWhile_decimal (n : ℕ) {rest : List Char} (h : Stops rest) :
    (Nat.toDigits 10 n ++ rest).takeWhile Char.isDigit = Nat.toDigits 10 n := by
  have hdigits : ∀ c ∈ Nat.toDigits 10 n, c.isDigit = true := fun c hc =>
    Nat.isDigit_of_mem_toDigits (by decide) (by decide) hc
  rw [takeWhile_append_of_pos hdigits]
  cases rest with
  | nil => simp
  | cons c rest => simp [h c rfl]

theorem decimal_inj {n n' : ℕ} {rest rest' : List Char} (h : Stops rest) (h' : Stops rest')
    (heq : Nat.toDigits 10 n ++ rest = Nat.toDigits 10 n' ++ rest') : n = n' ∧ rest = rest' := by
  have hdigits : Nat.toDigits 10 n = Nat.toDigits 10 n' := by
    rw [← takeWhile_decimal n h, heq, takeWhile_decimal n' h']
  refine ⟨?_, ?_⟩
  · rw [← @Nat.ofDigitChars_ten_toDigits n, hdigits, Nat.ofDigitChars_ten_toDigits]
  · rw [hdigits] at heq
    exact append_cancel_left heq

/-! ## Lists -/

def afterCommas : List (List Char) → List Char
  | [] => []
  | text :: texts => ',' :: (text ++ afterCommas texts)

/-- Texts with commas between them. -/
def separated : List (List Char) → List Char
  | [] => []
  | text :: texts => text ++ afterCommas texts

variable {texts : List (List Char)}

theorem mem_afterCommas :
    c ∈ afterCommas texts ↔ (c = ',' ∧ texts ≠ []) ∨ ∃ text ∈ texts, c ∈ text := by
  induction texts with
  | nil => simp [afterCommas]
  | cons text texts ih =>
    rw [afterCommas, mem_cons, mem_append, ih, exists_mem_cons_iff]
    constructor
    · rintro (rfl | hc | ⟨rfl, -⟩ | hc)
      · exact .inl ⟨rfl, cons_ne_nil _ _⟩
      · exact .inr (.inl hc)
      · exact .inl ⟨rfl, cons_ne_nil _ _⟩
      · exact .inr (.inr hc)
    · rintro (⟨rfl, -⟩ | hc | hc)
      · exact .inl rfl
      · exact .inr (.inl hc)
      · exact .inr (.inr (.inr hc))

theorem mem_separated {text : List Char} (htext : text ∈ texts) (hc : c ∈ text) :
    c ∈ separated texts := by
  cases texts with
  | nil => cases htext
  | cons head texts =>
    rw [separated, mem_append, mem_afterCommas]
    rcases mem_cons.1 htext with rfl | htext
    · exact .inl hc
    · exact .inr (.inr ⟨text, htext, hc⟩)

theorem of_mem_separated (h : c ∈ separated texts) : c = ',' ∨ ∃ text ∈ texts, c ∈ text := by
  cases texts with
  | nil => cases h
  | cons head texts =>
    rw [separated, mem_append, mem_afterCommas] at h
    rcases h with hc | ⟨rfl, -⟩ | ⟨text, htext, hc⟩
    · exact .inr ⟨head, mem_cons_self, hc⟩
    · exact .inl rfl
    · exact .inr ⟨text, mem_cons_of_mem _ htext, hc⟩

section

variable {α β : Type} {print : α → List Char} {print' : β → List Char} {R : α → β → Prop}
  {close : Char} {l : List α} {l' : List β} {rest rest' : List Char}

theorem stops_afterCommas (hclose : close.isDigit = false) (texts : List (List Char))
    (rest : List Char) : Stops (afterCommas texts ++ close :: rest) := by
  cases texts with
  | nil => exact stops_cons hclose rest
  | cons text texts => exact stops_cons (by decide) _

theorem forall₂_of_afterCommas_eq (hclose : close.isDigit = false) (hcomma : close ≠ ',')
    (hprint : ∀ a ∈ l, ∀ b ∈ l', ∀ rest rest', Stops rest → Stops rest' →
      print a ++ rest = print' b ++ rest' → R a b ∧ rest = rest')
    (heq : afterCommas (l.map print) ++ close :: rest =
      afterCommas (l'.map print') ++ close :: rest') :
    Forall₂ R l l' ∧ rest = rest' := by
  induction l generalizing l' with
  | nil =>
    cases l' with
    | nil => exact ⟨.nil, (cons.inj heq).2⟩
    | cons b l' => exact absurd (cons.inj heq).1 hcomma
  | cons a l ih =>
    cases l' with
    | nil => exact absurd (cons.inj heq).1.symm hcomma
    | cons b l' =>
      rw [map_cons, map_cons, afterCommas, afterCommas, cons_append,
        cons_append, append_assoc, append_assoc] at heq
      obtain ⟨hab, hrest⟩ := hprint a mem_cons_self b mem_cons_self _ _
        (stops_afterCommas hclose _ rest) (stops_afterCommas hclose _ rest') (cons.inj heq).2
      obtain ⟨hl, hend⟩ := ih (fun a ha b hb =>
        hprint a (mem_cons_of_mem _ ha) b (mem_cons_of_mem _ hb)) hrest
      exact ⟨.cons hab hl, hend⟩

/-- **A separated list is read in one way**, up to a character that no element starts with. -/
theorem forall₂_of_separated_eq (hclose : close.isDigit = false) (hcomma : close ≠ ',')
    (hfirst : ∀ a ∈ l, ∃ c text, print a = c :: text ∧ c ≠ close)
    (hfirst' : ∀ b ∈ l', ∃ c text, print' b = c :: text ∧ c ≠ close)
    (hprint : ∀ a ∈ l, ∀ b ∈ l', ∀ rest rest', Stops rest → Stops rest' →
      print a ++ rest = print' b ++ rest' → R a b ∧ rest = rest')
    (heq : separated (l.map print) ++ close :: rest = separated (l'.map print') ++ close :: rest') :
    Forall₂ R l l' ∧ rest = rest' := by
  cases l with
  | nil =>
    cases l' with
    | nil => exact ⟨.nil, (cons.inj heq).2⟩
    | cons b l' =>
      obtain ⟨c, text, htext, hc⟩ := hfirst' b mem_cons_self
      rw [map_cons, htext] at heq
      exact absurd (cons.inj heq).1.symm hc
  | cons a l =>
    cases l' with
    | nil =>
      obtain ⟨c, text, htext, hc⟩ := hfirst a mem_cons_self
      rw [map_cons, htext] at heq
      exact absurd (cons.inj heq).1 hc
    | cons b l' =>
      rw [map_cons, map_cons, separated, separated, append_assoc, append_assoc] at heq
      obtain ⟨hab, hrest⟩ := hprint a mem_cons_self b mem_cons_self _ _
        (stops_afterCommas hclose _ rest) (stops_afterCommas hclose _ rest') heq
      obtain ⟨hl, hend⟩ := forall₂_of_afterCommas_eq hclose hcomma (fun a ha b hb =>
        hprint a (mem_cons_of_mem _ ha) b (mem_cons_of_mem _ hb)) hrest
      exact ⟨.cons hab hl, hend⟩

end

end Idiom.Printing
