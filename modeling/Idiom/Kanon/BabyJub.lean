import Idiom.Kanon.Leaf
import Idiom.Lib.Edwards
import Idiom.Lib.Primality
import Mathlib.FieldTheory.Finite.Basic
import Mathlib.Tactic.NormNum.Prime

/-!
# BabyJubjub arithmetic (`babyjub.rs`)

A twisted Edwards curve over the felts. The order of the felts is prime, `a` is a square in them
and `d` is not, so the addition has no exceptions and the points of the curve are a group.
-/

namespace Idiom.Kanon
namespace BabyJub

open Primality Edwards.Point List

/-! ## The code -/

def aParam : Fr := 168700

def dParam : Fr := 168696

/-- A point in affine coordinates. -/
structure Point where
  x : Fr
  y : Fr
  deriving DecidableEq

def Point.neutral : Point := ⟨0, 1⟩

def base8 : Point where
  x := 5299619240641551281634865583518297030282874472190772894086521144482721001553
  y := 16950150798460657717958625567821834550301663161624707787222815936182638968203

/-- Full group order (8 × subgroup order). -/
def order : ℕ := 21888242871839275222246405745257275088614511777268538073601725287587578984328

/-- Subgroup order. -/
def subOrder : ℕ := order / 8

/-- The inverse of a felt, as a power of it. -/
def inverse (x : Fr) : Option Fr :=
  if x = 0 then none
  else some (Fin.ofNat bn254Prime (powMod bn254Prime 256 x.val (bn254Prime - 2)))

/-- Twisted-Edwards point addition; `none` where `expect` panics. -/
def add (p q : Point) : Option Point := do
  let beta := p.x * q.y
  let gamma := p.y * q.x
  let delta := (p.y - aParam * p.x) * (q.x + q.y)
  let tau := beta * gamma
  let dtau := dParam * tau
  let invPos ← inverse (1 + dtau)
  let invNeg ← inverse (1 - dtau)
  some ⟨(beta + gamma) * invPos, (delta + aParam * beta - gamma) * invNeg⟩

/-- The loop of `mul`: double-and-add, lowest bit first. -/
def mulLoop (res exp : Point) (k : ℕ) : Option Point :=
  if h : k = 0 then some res
  else do
    let res ← if k % 2 = 1 then add res exp else some res
    let exp ← add exp exp
    mulLoop res exp (k / 2)
termination_by k

def mul (base : Point) (k : ℕ) : Option Point := mulLoop .neutral base k

/-- Curve membership test. -/
def inCurve (p : Point) : Bool :=
  let x2 := p.x * p.x
  let y2 := p.y * p.y
  aParam * x2 + y2 = 1 + dParam * x2 * y2

/-! ## Primes -/

theorem prime_bn254 : bn254Prime.Prime := by
  have h₁ : Nat.Prime 639533339 :=
    prime_of_lucas 2 [2, 229, 853, 1637] (by decide +kernel) (by norm_num)
  have h₂ : Nat.Prime 65865678001877903 :=
    prime_of_lucas 5 [639533339, 2, 83, 379, 1637] (by decide +kernel)
      (forall_mem_cons.2 ⟨h₁, by norm_num⟩)
  have h₃ : Nat.Prime 13818364434197438864469338081 :=
    prime_of_lucas 3 [65865678001877903, 2, 5, 823, 1593227] (by decide +kernel)
      (forall_mem_cons.2 ⟨h₂, by norm_num⟩)
  have h₄ : Nat.Prime 12048837557 :=
    prime_of_lucas 2 [2, 7, 661, 93001] (by decide +kernel) (by norm_num)
  have h₅ : Nat.Prime 5156902474397 :=
    prime_of_lucas 2 [12048837557, 2, 107] (by decide +kernel) (forall_mem_cons.2 ⟨h₄, by norm_num⟩)
  have h₆ : Nat.Prime 1670836401704629 :=
    prime_of_lucas 2 [5156902474397, 2, 3] (by decide +kernel) (forall_mem_cons.2 ⟨h₅, by norm_num⟩)
  have h₇ : Nat.Prime 405928799 :=
    prime_of_lucas 22 [2, 11, 3691, 4999] (by decide +kernel) (by norm_num)
  exact prime_of_lucas 5 [13818364434197438864469338081, 1670836401704629, 405928799, 2, 3, 13, 29,
    983, 11003, 237073] (by decide +kernel) (forall_mem_cons.2 ⟨h₃,
      forall_mem_cons.2 ⟨h₆, forall_mem_cons.2 ⟨h₇, by norm_num⟩⟩⟩)

theorem prime_subOrder : subOrder.Prime := by
  have h₁ : Nat.Prime 25485742523 :=
    prime_of_lucas 2 [2, 43189, 295049] (by decide +kernel) (by norm_num)
  have h₂ : Nat.Prime 202795150404015601 :=
    prime_of_lucas 7 [25485742523, 2, 3, 5, 19, 349] (by decide +kernel)
      (forall_mem_cons.2 ⟨h₁, by norm_num⟩)
  have h₃ : Nat.Prime 431548080059745198929 :=
    prime_of_lucas 3 [202795150404015601, 2, 7, 19] (by decide +kernel)
      (forall_mem_cons.2 ⟨h₂, by norm_num⟩)
  have h₄ : Nat.Prime 32151195060611136810608359 :=
    prime_of_lucas 3 [431548080059745198929, 2, 3, 4139] (by decide +kernel)
      (forall_mem_cons.2 ⟨h₃, by norm_num⟩)
  have h₅ : Nat.Prime 81654569 :=
    prime_of_lucas 3 [2, 10206821] (by decide +kernel) (by norm_num)
  have h₆ : Nat.Prime 27892051421815855583579 :=
    prime_of_lucas 2 [81654569, 2, 23, 521, 27743, 513749] (by decide +kernel)
      (forall_mem_cons.2 ⟨h₅, by norm_num⟩)
  have h₇ : Nat.Prime 1863691091902891838383581623 :=
    prime_of_lucas 5 [27892051421815855583579, 2, 33409] (by decide +kernel)
      (forall_mem_cons.2 ⟨h₆, by norm_num⟩)
  have h₈ : Nat.Prime 178259130663561045147472537592047227885001 :=
    prime_of_lucas 14 [1863691091902891838383581623, 2, 3, 5, 6323, 336157] (by decide +kernel)
      (forall_mem_cons.2 ⟨h₇, by norm_num⟩)
  exact prime_of_lucas 31 [178259130663561045147472537592047227885001,
    32151195060611136810608359, 2, 3, 5, 11, 17, 967] (by decide +kernel)
    (forall_mem_cons.2 ⟨h₈, forall_mem_cons.2 ⟨h₄, by norm_num⟩⟩)

/-! ## Felts as a field -/

instance : Fact bn254Prime.Prime := ⟨prime_bn254⟩

/-- The felt in the field of `bn254Prime` elements. -/
def felt (x : Fr) : ZMod bn254Prime := (x.val : ZMod bn254Prime)

theorem felt_injective : Function.Injective felt := by
  intro x y h
  have hmod := (ZMod.natCast_eq_natCast_iff' _ _ _).1 h
  rw [Nat.mod_eq_of_lt x.isLt, Nat.mod_eq_of_lt y.isLt] at hmod
  exact Fin.ext hmod

@[simp] theorem felt_ofNat (n : ℕ) : felt (Fin.ofNat bn254Prime n) = n := by
  simp [felt]

@[simp] theorem felt_zero : felt 0 = 0 := by simp [felt]

@[simp] theorem felt_one : felt 1 = 1 := by
  rw [show (1 : Fr) = Fin.ofNat bn254Prime 1 from rfl, felt_ofNat, Nat.cast_one]

@[simp] theorem felt_add (x y : Fr) : felt (x + y) = felt x + felt y := by
  simp [felt, Fin.val_add]

@[simp] theorem felt_mul (x y : Fr) : felt (x * y) = felt x * felt y := by
  simp [felt, Fin.val_mul]

@[simp] theorem felt_sub (x y : Fr) : felt (x - y) = felt x - felt y := by
  simp [felt, Fin.sub_def]
  ring

theorem inverse_eq (x : Fr) (h : felt x ≠ 0) : ∃ y, inverse x = some y ∧ felt y = (felt x)⁻¹ := by
  have hx : x ≠ 0 := by
    rintro rfl
    exact h felt_zero
  refine ⟨_, if_neg hx, ?_⟩
  rw [felt_ofNat, powMod_eq _ (by decide), ZMod.natCast_mod, Nat.cast_pow]
  refine eq_inv_of_mul_eq_one_left ?_
  show felt x ^ (bn254Prime - 2) * felt x = 1
  rw [← pow_succ]
  exact ZMod.pow_card_sub_one_eq_one h

/-! ## The curve -/

/-- A square root of `a`. -/
def rootA : ℕ := 7214280148105020021932206872019688659210616427216992810330019057549499971851

def curve : Edwards.Curve (ZMod bn254Prime) where
  a := felt aParam
  d := felt dParam
  root := rootA
  root_mul := by
    rw [← Nat.cast_mul]
    exact (ZMod.natCast_eq_natCast_iff' _ _ _).2 (by decide +kernel)
  root_ne := by
    rw [Ne, ZMod.natCast_eq_zero_iff]
    decide +kernel
  nonsquare s hs := by
    have hd : felt dParam = (168696 : ℕ) := congrArg Nat.cast (by decide : dParam.val = 168696)
    have hs' : s ≠ 0 := by
      rintro rfl
      rw [mul_zero, hd, eq_comm, ZMod.natCast_eq_zero_iff] at hs
      revert hs
      decide +kernel
    -- the test of Euler
    have hpow : ((168696 : ℕ) : ZMod bn254Prime) ^ ((bn254Prime - 1) / 2) = 1 := by
      rw [← hd, ← hs, ← pow_two, ← pow_mul,
        show 2 * ((bn254Prime - 1) / 2) = bn254Prime - 1 by decide]
      exact ZMod.pow_card_sub_one_eq_one hs'
    have hbits : (bn254Prime - 1) / 2 < 2 ^ 256 := by decide
    rw [cast_pow_eq_one_iff (by decide), ← powMod_eq _ hbits] at hpow
    revert hpow
    decide +kernel
  two_ne := by
    have h : ((2 : ℕ) : ZMod bn254Prime) ≠ 0 := by
      rw [Ne, ZMod.natCast_eq_zero_iff]
      decide +kernel
    exact_mod_cast h

structure Point.Is (p : Point) (P : Edwards.Point curve) : Prop where
  x : felt p.x = P.x
  y : felt p.y = P.y

variable {P : Edwards.Point curve} {p : Point}

theorem Point.Is.unique {q : Point} (hp : p.Is P) (hq : q.Is P) : p = q := by
  obtain ⟨x, y⟩ := p
  obtain ⟨x', y'⟩ := q
  obtain rfl : x = x' := felt_injective (hp.x.trans hq.x.symm)
  obtain rfl : y = y' := felt_injective (hp.y.trans hq.y.symm)
  rfl

variable {Q : Edwards.Point curve}

theorem Point.Is.inj (hp : p.Is P) (hq : p.Is Q) : P = Q :=
  Edwards.Point.ext (hp.x.symm.trans hq.x) (hp.y.symm.trans hq.y)

theorem neutral_is : Point.neutral.Is 0 := ⟨felt_zero, felt_one⟩

theorem inCurve_iff (p : Point) : inCurve p = true ↔ ∃ P, p.Is P := by
  have hcurve : inCurve p = true ↔ curve.a * felt p.x ^ 2 + felt p.y ^ 2 =
      1 + curve.d * felt p.x ^ 2 * felt p.y ^ 2 := by
    unfold inCurve
    rw [decide_eq_true_iff, ← felt_injective.eq_iff]
    simp only [felt_add, felt_mul, pow_two]
    rfl
  rw [hcurve]
  constructor
  · intro h
    exact ⟨⟨felt p.x, felt p.y, h⟩, rfl, rfl⟩
  · rintro ⟨P, hx, hy⟩
    rw [hx, hy]
    exact P.on

/-- **Addition** is that of the group, and no inverse is missing. -/
theorem Point.Is.add {q : Point} (hp : p.Is P) (hq : q.Is Q) :
    ∃ r, BabyJub.add p q = some r ∧ r.Is (P + Q) := by
  have htau : felt (dParam * (p.x * q.y * (p.y * q.x))) = curve.d * P.x * Q.x * P.y * Q.y := by
    simp only [felt_mul, hp.x, hp.y, hq.x, hq.y]
    show curve.d * _ = _
    ring
  obtain ⟨u, hu, hu'⟩ := inverse_eq (1 + dParam * (p.x * q.y * (p.y * q.x))) (by
    rw [felt_add, htau]
    exact plus_ne P Q)
  obtain ⟨v, hv, hv'⟩ := inverse_eq (1 - dParam * (p.x * q.y * (p.y * q.x))) (by
    rw [felt_sub, htau]
    exact minus_ne P Q)
  rw [felt_add, felt_one, htau] at hu'
  rw [felt_sub, felt_one, htau] at hv'
  refine ⟨_, by simp only [BabyJub.add, hu, hv]; rfl, ?_, ?_⟩
  · rw [add_x, div_eq_mul_inv, ← hu']
    simp only [felt_mul, felt_add, hp.x, hp.y, hq.x, hq.y]
  · rw [add_y, div_eq_mul_inv, ← hv']
    simp only [felt_mul, felt_add, felt_sub, hp.x, hp.y, hq.x, hq.y]
    show (_ + felt aParam * _ - _) * _ = (_ - felt aParam * _ * _) * _
    ring

theorem Point.Is.mulLoop {res exp : Point} {R X : Edwards.Point curve} (hres : res.Is R)
    (hexp : exp.Is X) (k : ℕ) : ∃ p, BabyJub.mulLoop res exp k = some p ∧ p.Is (R + k • X) := by
  induction k using Nat.strong_induction_on generalizing res exp R X with
  | _ k ih =>
    rw [BabyJub.mulLoop]
    by_cases hk : k = 0
    · rw [hk, zero_nsmul, add_zero]
      exact ⟨res, rfl, hres⟩
    · rw [dif_neg hk]
      obtain ⟨e, he, hexp'⟩ := hexp.add hexp
      have hsum : (k / 2) • (X + X) = (2 * (k / 2)) • X := by
        rw [nsmul_add, two_mul, add_nsmul]
      by_cases hodd : k % 2 = 1
      · obtain ⟨r, hr, hres'⟩ := hres.add hexp
        obtain ⟨p, hp, his⟩ := ih (k / 2) (by omega) hres' hexp'
        refine ⟨p, by simp [hodd, hr, he, hp], ?_⟩
        rwa [hsum, add_assoc, ← succ_nsmul', show 2 * (k / 2) + 1 = k by omega] at his
      · obtain ⟨p, hp, his⟩ := ih (k / 2) (by omega) hres hexp'
        refine ⟨p, by simp [hodd, he, hp], ?_⟩
        rwa [hsum, show 2 * (k / 2) = k by omega] at his

theorem Point.Is.mul (hp : p.Is P) (k : ℕ) : ∃ q, BabyJub.mul p k = some q ∧ q.Is (k • P) := by
  obtain ⟨q, hq, his⟩ := neutral_is.mulLoop hp k
  rw [zero_add] at his
  exact ⟨q, hq, his⟩

/-! ## The order of the base point -/

/-- The addition of projective coordinates. -/
def addCoordinates (p q : ℕ × ℕ × ℕ) : ℕ × ℕ × ℕ :=
  let a := p.2.2 * q.2.2 % bn254Prime
  let b := a * a % bn254Prime
  let c := p.1 * q.1 % bn254Prime
  let e := 168696 * c * (p.2.1 * q.2.1) % bn254Prime
  let f := b + (bn254Prime - e)
  let g := b + e
  (a * f * (p.1 * q.2.1 + p.2.1 * q.1) % bn254Prime,
    a * g * (p.2.1 * q.2.1 + 168700 * (bn254Prime - c)) % bn254Prime, f * g % bn254Prime)

/-- The multiple of a point, for a factor of at most so many bits. -/
def mulCoordinates : (bits : ℕ) → (res exp : ℕ × ℕ × ℕ) → (k : ℕ) → ℕ × ℕ × ℕ
  | 0, res, _, _ => res
  | bits + 1, res, exp, k =>
    mulCoordinates bits (if k % 2 = 0 then res else addCoordinates res exp)
      (addCoordinates exp exp) (k / 2)

def Coordinates (p : ℕ × ℕ × ℕ) (P : Edwards.Point curve) : Prop :=
  Projective (p.1 : ZMod bn254Prime) p.2.1 p.2.2 P

theorem cast_sub_mod (n : ℕ) :
    ((bn254Prime - n % bn254Prime : ℕ) : ZMod bn254Prime) = -(n : ZMod bn254Prime) := by
  have hle : n % bn254Prime ≤ bn254Prime := (Nat.mod_lt _ (by decide)).le
  rw [Nat.cast_sub hle, ZMod.natCast_mod, ZMod.natCast_self, zero_sub]

theorem Coordinates.add {p q : ℕ × ℕ × ℕ} (hp : Coordinates p P) (hq : Coordinates q Q) :
    Coordinates (addCoordinates p q) (P + Q) := by
  have ha : curve.a = (168700 : ℕ) := congrArg Nat.cast (by decide : aParam.val = 168700)
  have hd : curve.d = (168696 : ℕ) := congrArg Nat.cast (by decide : dParam.val = 168696)
  have hsum := Projective.add hp hq
  rw [ha, hd] at hsum
  unfold Coordinates addCoordinates
  convert hsum using 1
  all_goals
    simp only [ZMod.natCast_mod, Nat.cast_mul, Nat.cast_add, cast_sub_mod]
    ring

theorem Coordinates.mul (bits : ℕ) {p q : ℕ × ℕ × ℕ} (hp : Coordinates p P) (hq : Coordinates q Q)
    {k : ℕ} (hk : k < 2 ^ bits) : Coordinates (mulCoordinates bits p q k) (P + k • Q) := by
  induction bits generalizing p q P Q k with
  | zero =>
    obtain rfl : k = 0 := by omega
    rw [zero_nsmul, add_zero]
    exact hp
  | succ bits ih =>
    have hhalf : k / 2 < 2 ^ bits := by omega
    rw [mulCoordinates]
    split
    · have h := ih hp (hq.add hq) hhalf
      rwa [nsmul_add, ← add_nsmul, show k / 2 + k / 2 = k by omega] at h
    · have h := ih (hp.add hq) (hq.add hq) hhalf
      rwa [nsmul_add, ← add_nsmul, add_assoc, ← succ_nsmul',
        show k / 2 + k / 2 + 1 = k by omega] at h

theorem base8_is : ∃ B, base8.Is B := (inCurve_iff base8).1 (by decide +kernel)

/-- **The order of the base point** divides `sub_order`. -/
theorem subOrder_nsmul {B : Edwards.Point curve} (hB : base8.Is B) : subOrder • B = 0 := by
  have hbase : Coordinates (base8.x.val, base8.y.val, 1) B := by
    refine ⟨by simp, ?_, ?_⟩
    · rw [Nat.cast_one, mul_one]
      exact hB.x
    · rw [Nat.cast_one, mul_one]
      exact hB.y
  have hzero : Coordinates (0, 1, 1) 0 := ⟨by simp, by rfl, by rfl⟩
  have h := hzero.mul 251 hbase (by decide : subOrder < 2 ^ 251)
  generalize hc : mulCoordinates 251 (0, 1, 1) (base8.x.val, base8.y.val, 1) subOrder = c at h
  have hx : c.1 = 0 := by
    rw [← hc]
    decide +kernel
  have hy : c.2.1 = c.2.2 := by
    rw [← hc]
    decide +kernel
  obtain ⟨hne, hx', hy'⟩ := h
  rw [hx, Nat.cast_zero, zero_add, eq_comm, mul_eq_zero] at hx'
  rw [hy, zero_add] at hy'
  ext
  · exact hx'.resolve_right hne
  · exact mul_right_cancel₀ hne (hy'.symm.trans (one_mul _).symm)

end BabyJub
end Idiom.Kanon
