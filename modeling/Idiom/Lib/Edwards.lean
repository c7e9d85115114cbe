import Mathlib.Tactic.FieldSimp
import Mathlib.Tactic.LinearCombination
import Mathlib.Tactic.Ring

/-!
# Twisted Edwards curves

The curve `a x² + y² = 1 + d x² y²`, where `a` is a square and `d` is not. The addition law then
has no exceptions.
-/

namespace Idiom.Edwards

structure Curve (K : Type*) [Field K] where
  a : K
  d : K
  root : K
  root_mul : root * root = a
  root_ne : root ≠ 0
  nonsquare : ∀ s, s * s ≠ d
  two_ne : (2 : K) ≠ 0

variable {K : Type*} [Field K]

@[ext] structure Point (E : Curve K) where
  x : K
  y : K
  on : E.a * x ^ 2 + y ^ 2 = 1 + E.d * x ^ 2 * y ^ 2

variable {E : Curve K}

theorem Curve.eq_zero_of_sq {u w : K} (h : u ^ 2 = E.d * w ^ 2) : w = 0 := by
  by_contra hw
  refine E.nonsquare (u / w) ?_
  field_simp
  linear_combination h

/-- **The addition law is complete.** -/
theorem Curve.sq_ne_one (p q : Point E) : (E.d * p.x * q.x * p.y * q.y) ^ 2 ≠ 1 := by
  intro h
  obtain ⟨x₁, y₁, h₁⟩ := p
  obtain ⟨x₂, y₂, h₂⟩ := q
  have ha := E.root_mul
  have hplus : (E.root * x₁ + E.d * x₁ * x₂ * y₁ * y₂ * y₁) ^ 2 =
      E.d * (x₁ * y₁ * (E.root * x₂ + y₂)) ^ 2 := by
    linear_combination (x₁ ^ 2 - E.d * x₁ ^ 2 * y₁ ^ 2 * x₂ ^ 2) * ha + (y₁ ^ 2 - 1) * h + h₁ -
      E.d * x₁ ^ 2 * y₁ ^ 2 * h₂
  have hminus : (E.root * x₁ - E.d * x₁ * x₂ * y₁ * y₂ * y₁) ^ 2 =
      E.d * (x₁ * y₁ * (E.root * x₂ - y₂)) ^ 2 := by
    linear_combination (x₁ ^ 2 - E.d * x₁ ^ 2 * y₁ ^ 2 * x₂ ^ 2) * ha + (y₁ ^ 2 - 1) * h + h₁ -
      E.d * x₁ ^ 2 * y₁ ^ 2 * h₂
  have hzero : 2 * E.root * (x₁ * x₂ * y₁) = 0 := by
    linear_combination Curve.eq_zero_of_sq hplus + Curve.eq_zero_of_sq hminus
  have hprod := (mul_eq_zero.1 hzero).resolve_left (mul_ne_zero E.two_ne E.root_ne)
  refine one_ne_zero (α := K) ?_
  linear_combination E.d ^ 2 * x₁ * x₂ * y₁ * y₂ ^ 2 * hprod - h

/-! ## The group -/

namespace Point

theorem plus_ne (p q : Point E) : 1 + E.d * p.x * q.x * p.y * q.y ≠ 0 := by
  intro h
  refine E.sq_ne_one p q ?_
  linear_combination (E.d * p.x * q.x * p.y * q.y - 1) * h

theorem minus_ne (p q : Point E) : 1 - E.d * p.x * q.x * p.y * q.y ≠ 0 := by
  intro h
  refine E.sq_ne_one p q ?_
  linear_combination -(E.d * p.x * q.x * p.y * q.y + 1) * h

instance : Zero (Point E) := ⟨⟨0, 1, by simp⟩⟩

instance : Neg (Point E) := ⟨fun p => ⟨-p.x, p.y, by linear_combination p.on⟩⟩

/-- Fractions whose numerators fit the denominators are on the curve. -/
theorem on_div {n m b c : K} (hb : b ≠ 0) (hc : c ≠ 0)
    (h : E.a * n ^ 2 * c ^ 2 + m ^ 2 * b ^ 2 = b ^ 2 * c ^ 2 + E.d * n ^ 2 * m ^ 2) :
    E.a * (n / b) ^ 2 + (m / c) ^ 2 = 1 + E.d * (n / b) ^ 2 * (m / c) ^ 2 := by
  field_simp
  linear_combination h

instance : Add (Point E) where
  add p q :=
    { x := (p.x * q.y + p.y * q.x) / (1 + E.d * p.x * q.x * p.y * q.y)
      y := (p.y * q.y - E.a * p.x * q.x) / (1 - E.d * p.x * q.x * p.y * q.y)
      on := by
        refine on_div (plus_ne p q) (minus_ne p q) ?_
        linear_combination
          ((E.a * q.x ^ 2 + q.y ^ 2) * (1 + (E.d * p.x * q.x * p.y * q.y) ^ 2) -
            E.d * q.x ^ 2 * q.y ^ 2 *
              (E.a * p.x ^ 2 + p.y ^ 2 + 1 + E.d * p.x ^ 2 * p.y ^ 2)) * p.on +
          ((1 + E.d * p.x ^ 2 * p.y ^ 2) * (1 + (E.d * p.x * q.x * p.y * q.y) ^ 2) -
            E.d * p.x ^ 2 * p.y ^ 2 *
              (E.a * q.x ^ 2 + q.y ^ 2 + 1 + E.d * q.x ^ 2 * q.y ^ 2)) * q.on }

theorem add_x (p q : Point E) :
    (p + q).x = (p.x * q.y + p.y * q.x) / (1 + E.d * p.x * q.x * p.y * q.y) := rfl

theorem add_y (p q : Point E) :
    (p + q).y = (p.y * q.y - E.a * p.x * q.x) / (1 - E.d * p.x * q.x * p.y * q.y) := rfl

theorem add_comm' (p q : Point E) : p + q = q + p := by
  ext
  · rw [add_x]
    congr 1 <;> ring
  · rw [add_y]
    congr 1 <;> ring

/-! ### Associativity -/

section

variable {a d x y u v s t : K} (h₁ : a * x ^ 2 + y ^ 2 = 1 + d * x ^ 2 * y ^ 2)
  (h₂ : a * u ^ 2 + v ^ 2 = 1 + d * u ^ 2 * v ^ 2) (h₃ : a * s ^ 2 + t ^ 2 = 1 + d * s ^ 2 * t ^ 2)

/-- The numerator of the first coordinate of a sum of three points. -/
def numeratorX (a d x y u v s t : K) : K :=
  (x * v + y * u) * (1 - d * x * u * y * v) * t + (y * v - a * x * u) * (1 + d * x * u * y * v) * s

def numeratorY (a d x y u v s t : K) : K :=
  (y * v - a * x * u) * (1 + d * x * u * y * v) * t -
    a * (x * v + y * u) * (1 - d * x * u * y * v) * s

/-- What the denominators of a sum of three points add to and take from. -/
def square (d x y u v : K) : K := (1 + d * x * u * y * v) * (1 - d * x * u * y * v)

def cross (a d x y u v s t : K) : K := d * (x * v + y * u) * (y * v - a * x * u) * s * t

include h₁ h₂ h₃

theorem assoc_x : numeratorX a d x y u v s t * (square d u v s t + cross a d u v s t x y) =
    numeratorX a d u v s t x y * (square d x y u v + cross a d x y u v s t) := by
  unfold numeratorX square cross
  linear_combination (d * u * v * (a * y * u * v ^ 2 * s ^ 3 + y * u ^ 2 * v * t ^ 3
    + d * y * u ^ 2 * v ^ 3 * s ^ 2 * t + d * y * u ^ 3 * v ^ 2 * s * t ^ 2 + x * v ^ 3 * s * t ^ 2
    + x * u * v ^ 2 * t ^ 3 + a * x * u ^ 2 * v * s + a * d * x * u ^ 3 * v ^ 2 * s ^ 2 * t
    - y * v ^ 3 * s ^ 2 * t - y * u * v ^ 2 * s - y * u ^ 2 * v * t - a * y * u ^ 3 * s * t ^ 2
    - x * u * v ^ 2 * t - a ^ 2 * x * u ^ 2 * v * s ^ 3 - d * x * u ^ 2 * v ^ 3 * s * t ^ 2
    - a ^ 2 * x * u ^ 3 * s ^ 2 * t)) * h₁ + (d * u * v * (y ^ 3 * v * s ^ 2 * t
    + y ^ 3 * u * s * t ^ 2 + x * v * s * t ^ 2 + a * x * y ^ 2 * v * s ^ 3 + x * y ^ 2 * u * t
    + x ^ 2 * y * v * t + a * x ^ 2 * y * u * s + a ^ 2 * x ^ 3 * u * s ^ 2 * t - y * v * s ^ 2 * t
    - y * u * s * t ^ 2 - a * x * u * s ^ 2 * t - x * y ^ 2 * v * s - x * y ^ 2 * u * t ^ 3
    - x ^ 2 * y * v * t ^ 3 - a ^ 2 * x ^ 2 * y * u * s ^ 3 - a * x ^ 3 * v * s * t ^ 2)) * h₂
    + (d * u * v * (y * u * v ^ 2 * s + y * u ^ 2 * v * t + x * u * v ^ 2 * t
    + d * x * y ^ 2 * u ^ 2 * v ^ 3 * s + a * x * y ^ 2 * u ^ 3 * t + x ^ 2 * y * v ^ 3 * t
    + a ^ 2 * x ^ 2 * y * u ^ 3 * s + a ^ 2 * x ^ 3 * u ^ 2 * v * s - y ^ 3 * u * v ^ 2 * s
    - y ^ 3 * u ^ 2 * v * t - a * x * u ^ 2 * v * s - x * y ^ 2 * v ^ 3 * s
    - d * x * y ^ 2 * u ^ 3 * v ^ 2 * t - d * x ^ 2 * y * u ^ 2 * v ^ 3 * t
    - a * d * x ^ 2 * y * u ^ 3 * v ^ 2 * s - a * x ^ 3 * u * v ^ 2 * t)) * h₃

theorem assoc_y : numeratorY a d x y u v s t * (square d u v s t - cross a d u v s t x y) =
    numeratorY a d u v s t x y * (square d x y u v - cross a d x y u v s t) := by
  unfold numeratorY square cross
  linear_combination
    (d * u * v * (y * v ^ 3 * s * t ^ 2 + y * u * v ^ 2 * t ^ 3 + a * y * u ^ 2 * v * s
    + a * d * y * u ^ 3 * v ^ 2 * s ^ 2 * t + a * x * v ^ 3 * s ^ 2 * t + a * x * u * v ^ 2 * s
    + a * x * u ^ 2 * v * t + a ^ 2 * x * u ^ 3 * s * t ^ 2 - y * u * v ^ 2 * t
    - a ^ 2 * y * u ^ 2 * v * s ^ 3 - d * y * u ^ 2 * v ^ 3 * s * t ^ 2
    - a ^ 2 * y * u ^ 3 * s ^ 2 * t - a ^ 2 * x * u * v ^ 2 * s ^ 3 - a * x * u ^ 2 * v * t ^ 3
    - a * d * x * u ^ 2 * v ^ 3 * s ^ 2 * t - a * d * x * u ^ 3 * v ^ 2 * s * t ^ 2)) * h₁
    + (d * u * v * (y * v * s * t ^ 2 + a * y ^ 3 * u * s ^ 2 * t + a * x * v * s ^ 2 * t
    + a * x * u * s * t ^ 2 + x * y ^ 2 * v * t ^ 3 + a ^ 2 * x * y ^ 2 * u * s ^ 3
    + a ^ 2 * x ^ 2 * y * v * s ^ 3 + a * x ^ 2 * y * u * t - a * y * u * s ^ 2 * t
    - y ^ 3 * v * s * t ^ 2 - x * y ^ 2 * v * t - a * x * y ^ 2 * u * s - a * x ^ 2 * y * v * s
    - a * x ^ 2 * y * u * t ^ 3 - a ^ 2 * x ^ 3 * v * s ^ 2 * t
    - a ^ 2 * x ^ 3 * u * s * t ^ 2)) * h₂ + (d * u * v * (y * u * v ^ 2 * t
    + a * y ^ 3 * u ^ 2 * v * s + d * x * y ^ 2 * u ^ 2 * v ^ 3 * t
    + a * d * x * y ^ 2 * u ^ 3 * v ^ 2 * s + a * d * x ^ 2 * y * u ^ 2 * v ^ 3 * s
    + a ^ 2 * x ^ 2 * y * u ^ 3 * t + a ^ 2 * x ^ 3 * u * v ^ 2 * s + a ^ 2 * x ^ 3 * u ^ 2 * v * t
    - a * y * u ^ 2 * v * s - y ^ 3 * u * v ^ 2 * t - a * x * u * v ^ 2 * s - a * x * u ^ 2 * v * t
    - x * y ^ 2 * v ^ 3 * t - a ^ 2 * x * y ^ 2 * u ^ 3 * s - a * x ^ 2 * y * v ^ 3 * s
    - a * d * x ^ 2 * y * u ^ 3 * v ^ 2 * t)) * h₃

end

section

variable (p q r : Point E)

theorem add_add_eq : square E.d p.x p.y q.x q.y + cross E.a E.d p.x p.y q.x q.y r.x r.y ≠ 0 ∧
    square E.d p.x p.y q.x q.y - cross E.a E.d p.x p.y q.x q.y r.x r.y ≠ 0 ∧
    (p + q + r).x = numeratorX E.a E.d p.x p.y q.x q.y r.x r.y /
      (square E.d p.x p.y q.x q.y + cross E.a E.d p.x p.y q.x q.y r.x r.y) ∧
    (p + q + r).y = numeratorY E.a E.d p.x p.y q.x q.y r.x r.y /
      (square E.d p.x p.y q.x q.y - cross E.a E.d p.x p.y q.x q.y r.x r.y) := by
  have hb := plus_ne p q
  have hc := minus_ne p q
  have hplus := mul_ne_zero (mul_ne_zero hb hc) (plus_ne (p + q) r)
  have hminus := mul_ne_zero (mul_ne_zero hb hc) (minus_ne (p + q) r)
  rw [add_x (p + q), add_y (p + q)]
  rw [add_x, add_y] at *
  unfold numeratorX numeratorY square cross
  generalize 1 + E.d * p.x * q.x * p.y * q.y = b at *
  generalize 1 - E.d * p.x * q.x * p.y * q.y = c at *
  refine ⟨?_, ?_, by field_simp, by field_simp⟩
  · intro h
    refine hplus ?_
    field_simp
    linear_combination h
  · intro h
    refine hminus ?_
    field_simp
    linear_combination h

theorem add_rotate' : p + q + r = q + r + p := by
  obtain ⟨hplus, hminus, hx, hy⟩ := add_add_eq p q r
  obtain ⟨hplus', hminus', hx', hy'⟩ := add_add_eq q r p
  ext
  · rw [hx, hx', div_eq_div_iff hplus hplus']
    exact assoc_x p.on q.on r.on
  · rw [hy, hy', div_eq_div_iff hminus hminus']
    exact assoc_y p.on q.on r.on

theorem zero_add' : 0 + p = p := by
  have hx : (0 : Point E).x = 0 := rfl
  have hy : (0 : Point E).y = 1 := rfl
  ext
  · simp [add_x, hx, hy]
  · simp [add_y, hx, hy]

theorem neg_add' : -p + p = 0 := by
  have hx : (-p).x = -p.x := rfl
  have hy : (-p).y = p.y := rfl
  ext
  · rw [add_x, hx, hy, show -p.x * p.y + p.y * p.x = 0 by ring, zero_div]
    rfl
  · have hminus := minus_ne (-p) p
    rw [add_y]
    rw [hx] at *
    refine (div_eq_one_iff_eq hminus).2 ?_
    linear_combination p.on

end

instance : AddCommGroup (Point E) where
  add_assoc p q r := by rw [add_rotate', add_comm']
  zero_add := zero_add'
  add_zero p := by rw [add_comm', zero_add']
  neg_add_cancel := neg_add'
  add_comm := add_comm'
  nsmul := nsmulRec
  zsmul := zsmulRec

/-! ## Without divisions -/

/-- The coordinates of the point, times `z`. -/
structure Projective (x y z : K) (p : Point E) : Prop where
  ne : z ≠ 0
  x_eq : x = p.x * z
  y_eq : y = p.y * z

theorem Projective.add {x y z x' y' z' : K} {p q : Point E} (hp : Projective x y z p)
    (hq : Projective x' y' z' q) :
    Projective (z * z' * ((z * z') ^ 2 - E.d * (x * x') * (y * y')) * (x * y' + y * x'))
      (z * z' * ((z * z') ^ 2 + E.d * (x * x') * (y * y')) * (y * y' - E.a * (x * x')))
      (((z * z') ^ 2 - E.d * (x * x') * (y * y')) * ((z * z') ^ 2 + E.d * (x * x') * (y * y')))
      (p + q) := by
  obtain ⟨hz, rfl, rfl⟩ := hp
  obtain ⟨hz', rfl, rfl⟩ := hq
  have hplus := plus_ne p q
  have hminus := minus_ne p q
  have hzz := pow_ne_zero 4 (mul_ne_zero hz hz')
  refine ⟨?_, ?_, ?_⟩
  · have h := mul_ne_zero hzz (mul_ne_zero hminus hplus)
    intro hzero
    refine h ?_
    linear_combination hzero
  · rw [add_x, div_mul_eq_mul_div, eq_div_iff hplus]
    ring
  · rw [add_y, div_mul_eq_mul_div, eq_div_iff hminus]
    ring

end Point
end Idiom.Edwards
