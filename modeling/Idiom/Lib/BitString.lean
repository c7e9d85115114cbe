import Mathlib.Data.List.Basic
import Mathlib.Data.Nat.Bitwise

/-!
# Bits of a list of bytes

The bits of bytes, from the first bit of the first byte on, and words of a few bits among them. A
word is read through a window of three bytes, and written by adding its bits to each of the three.
-/

namespace Idiom.BitString

open List

/-- The bit at a position. -/
def bitAt (bytes : List UInt8) (k : ℕ) : Bool := (bytes.getD (k / 8) 0).toNat.testBit (7 - k % 8)

theorem testBit_toNat (b : UInt8) {t : ℕ} (h : 8 ≤ t) : b.toNat.testBit t = false :=
  Nat.testBit_lt_two_pow (b.toNat_lt.trans_le (Nat.pow_le_pow_right (by decide) h))

theorem toNat_eq_of_testBit {a b : UInt8} (h : ∀ t < 8, a.toNat.testBit t = b.toNat.testBit t) :
    a = b := by
  refine UInt8.toNat_inj.1 (Nat.eq_of_testBit_eq fun t => ?_)
  rcases Nat.lt_or_ge t 8 with ht | ht
  · exact h t ht
  · rw [testBit_toNat a ht, testBit_toNat b ht]

theorem eq_of_bitAt {as bs : List UInt8} (hlength : as.length = bs.length)
    (h : ∀ k < 8 * as.length, bitAt as k = bitAt bs k) : as = bs := by
  refine ext_getElem hlength fun j hj hj' => toNat_eq_of_testBit fun t ht => ?_
  have hbit := h (8 * j + (7 - t)) (by omega)
  unfold bitAt at hbit
  have hdiv : (8 * j + (7 - t)) / 8 = j := by omega
  have hmod : 7 - (8 * j + (7 - t)) % 8 = t := by omega
  rw [hdiv, hmod, getD_eq_getElem _ _ hj, getD_eq_getElem _ _ hj'] at hbit
  exact hbit

/-! ## Windows -/

/-- Three bytes as a number. -/
def window (b₀ b₁ b₂ : UInt8) : ℕ := b₀.toNat <<< 16 ||| b₁.toNat <<< 8 ||| b₂.toNat

theorem testBit_window (bytes : List UInt8) (j : ℕ) {p : ℕ} (hp : p < 24) :
    (window (bytes.getD j 0) (bytes.getD (j + 1) 0) (bytes.getD (j + 2) 0)).testBit (23 - p) =
      bitAt bytes (8 * j + p) := by
  unfold window bitAt
  simp only [Nat.testBit_or, Nat.testBit_shiftLeft]
  rcases Nat.lt_or_ge p 8 with h₀ | h₀
  · rw [testBit_toNat (bytes.getD (j + 1) 0) (by omega), testBit_toNat (bytes.getD (j + 2) 0)
      (by omega), show (8 * j + p) / 8 = j by omega, show 7 - (8 * j + p) % 8 =
        23 - p - 16 by omega,
      decide_eq_true (show 23 - p ≥ 16 by omega)]
    simp
  rcases Nat.lt_or_ge p 16 with h₁ | h₁
  · rw [testBit_toNat (bytes.getD (j + 2) 0) (by omega), show (8 * j + p) / 8 = j + 1 by omega,
      show 7 - (8 * j + p) % 8 = 23 - p - 8 by omega, decide_eq_false (show ¬ 23 - p ≥ 16 by omega),
      decide_eq_true (show 23 - p ≥ 8 by omega)]
    simp
  · rw [show (8 * j + p) / 8 = j + 2 by omega, show 7 - (8 * j + p) % 8 = 23 - p by omega,
      decide_eq_false (show ¬ 23 - p ≥ 16 by omega), decide_eq_false (show ¬ 23 - p ≥ 8 by omega)]
    simp

/-! ## Adding bits -/

/-- Add bits to a byte, if it is there. -/
def orAt (bytes : List UInt8) (j : ℕ) (b : UInt8) : List UInt8 := bytes.modify j (· ||| b)

@[simp] theorem length_orAt (bytes : List UInt8) (j : ℕ) (b : UInt8) :
    (orAt bytes j b).length = bytes.length := length_modify ..

theorem bitAt_orAt (bytes : List UInt8) (j : ℕ) (b : UInt8) {k : ℕ} (hk : k < 8 * bytes.length) :
    bitAt (orAt bytes j b) k =
      (bitAt bytes k || (decide (k / 8 = j) && b.toNat.testBit (7 - k % 8))) := by
  have hlt : k / 8 < bytes.length := by omega
  unfold bitAt orAt
  rw [getD_eq_getElem _ _ (by rw [length_modify]; exact hlt), getElem_modify,
    getD_eq_getElem _ _ hlt]
  by_cases hj : k / 8 = j
  · rw [if_pos hj.symm, decide_eq_true hj, UInt8.toNat_or, Nat.testBit_or]
    rfl
  · rw [if_neg fun h => hj h.symm, decide_eq_false hj]
    simp

/-- Add the three bytes of a number. -/
def orWindow (bytes : List UInt8) (j n : ℕ) : List UInt8 :=
  orAt (orAt (orAt bytes j (.ofNat (n >>> 16))) (j + 1) (.ofNat (n >>> 8))) (j + 2) (.ofNat n)

@[simp] theorem length_orWindow (bytes : List UInt8) (j n : ℕ) :
    (orWindow bytes j n).length = bytes.length := by
  simp [orWindow]

theorem testBit_ofNat (n : ℕ) {t : ℕ} (ht : t < 8) :
    (UInt8.ofNat n).toNat.testBit t = n.testBit t := by
  rw [UInt8.toNat_ofNat', Nat.testBit_mod_two_pow]
  simp [ht]

theorem bitAt_orWindow (bytes : List UInt8) (j n : ℕ) {k : ℕ} (hk : k < 8 * bytes.length) :
    bitAt (orWindow bytes j n) k = (bitAt bytes k ||
      (decide (8 * j ≤ k ∧ k < 8 * j + 24) && n.testBit (23 - (k - 8 * j)))) := by
  unfold orWindow
  rw [bitAt_orAt _ _ _ (by simpa using hk), bitAt_orAt _ _ _ (by simpa using hk),
    bitAt_orAt _ _ _ hk, testBit_ofNat _ (by omega), testBit_ofNat _ (by omega),
    testBit_ofNat _ (by omega), Nat.testBit_shiftRight]
  by_cases h : 8 * j ≤ k ∧ k < 8 * j + 24
  · rw [decide_eq_true h]
    obtain hr | hr | hr : k / 8 = j ∨ k / 8 = j + 1 ∨ k / 8 = j + 2 := by omega
    · rw [show 23 - (k - 8 * j) = 16 + (7 - k % 8) by omega]
      simp [hr]
    · rw [show 23 - (k - 8 * j) = 8 + (7 - k % 8) by omega]
      simp [hr]
    · rw [show 23 - (k - 8 * j) = 7 - k % 8 by omega]
      simp [hr]
  · rw [decide_eq_false h]
    have h₀ : k / 8 ≠ j := by omega
    have h₁ : k / 8 ≠ j + 1 := by omega
    have h₂ : k / 8 ≠ j + 2 := by omega
    simp [h₀, h₁, h₂]

/-! ## Numbers -/

/-- The number whose binary digits are the `length` bits from `start` on. -/
def number (bytes : List UInt8) (start : ℕ) : ℕ → ℕ
  | 0 => 0
  | length + 1 => 2 * number bytes start length + (bitAt bytes (start + length)).toNat

theorem number_lt (bytes : List UInt8) (start length : ℕ) :
    number bytes start length < 2 ^ length := by
  induction length with
  | zero => exact Nat.one_pos
  | succ length ih =>
    have hbit := Bool.toNat_le (bitAt bytes (start + length))
    rw [number]
    omega

theorem number_eq_zero_iff (bytes : List UInt8) (start length : ℕ) :
    number bytes start length = 0 ↔ ∀ i < length, bitAt bytes (start + i) = false := by
  induction length with
  | zero => simp [number]
  | succ length ih =>
    rw [number, Nat.add_eq_zero_iff, Nat.mul_eq_zero, ih, Bool.toNat_eq_zero]
    constructor
    · rintro ⟨hzero, hlast⟩ i hi
      rcases Nat.lt_succ_iff_lt_or_eq.1 hi with hlt | rfl
      · exact hzero.resolve_left (by decide) i hlt
      · exact hlast
    · intro h
      exact ⟨.inr fun i hi => h i (by omega), h length (by omega)⟩

theorem number_add (bytes : List UInt8) (start high low : ℕ) :
    number bytes start (high + low) =
      number bytes start high * 2 ^ low + number bytes (start + high) low := by
  induction low with
  | zero => simp [number]
  | succ low ih =>
    rw [← Nat.add_assoc, number, ih, number, pow_succ, Nat.add_assoc start high low]
    rw [Nat.mul_add, Nat.mul_comm 2, Nat.mul_assoc, Nat.mul_comm 2, Nat.add_assoc]

end Idiom.BitString
