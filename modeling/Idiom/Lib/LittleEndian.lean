import Mathlib.Tactic.Ring

/-!
# Little-endian numbers
-/

namespace Idiom.LittleEndian

open List

/-- The number of some bytes. -/
def number : List UInt8 → ℕ
  | [] => 0
  | b :: l => b.toNat + 256 * number l

/-- The `width` lowest bytes of a number. -/
def bytes : ℕ → ℕ → List UInt8
  | 0, _ => []
  | width + 1, n => UInt8.ofNat n :: bytes width (n / 256)

@[simp] theorem length_bytes (width n : ℕ) : (bytes width n).length = width := by
  induction width generalizing n with
  | zero => rfl
  | succ width ih => rw [bytes, length_cons, ih]

theorem number_lt (l : List UInt8) : number l < 256 ^ l.length := by
  induction l with
  | nil => exact Nat.one_pos
  | cons b l ih =>
    have hb := b.toNat_lt
    rw [number, length_cons]
    omega

theorem number_append (l m : List UInt8) :
    number (l ++ m) = number l + 256 ^ l.length * number m := by
  induction l with
  | nil => simp [number]
  | cons b l ih =>
    rw [cons_append, number, number, ih, length_cons]
    ring

theorem number_bytes (width n : ℕ) : number (bytes width n) = n % 256 ^ width := by
  induction width generalizing n with
  | zero => simp [bytes, number, Nat.mod_one]
  | succ width ih =>
    rw [bytes, number, ih, Nat.pow_succ', Nat.mod_mul, UInt8.toNat_ofNat']

theorem number_bytes_of_lt {width n : ℕ} (h : n < 256 ^ width) : number (bytes width n) = n := by
  rw [number_bytes, Nat.mod_eq_of_lt h]

theorem number_append_zeros (l : List UInt8) (n : ℕ) : number (l ++ replicate n 0) = number l := by
  have hzeros : number (replicate n 0) = 0 := by
    induction n with
    | zero => rfl
    | succ n ih =>
      rw [replicate_succ, number, ih]
      rfl
  rw [number_append, hzeros, Nat.mul_zero, Nat.add_zero]

end Idiom.LittleEndian
