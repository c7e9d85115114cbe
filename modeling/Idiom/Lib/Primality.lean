import Mathlib.NumberTheory.LucasPrimality

/-!
# Large primes

The test of Lucas, with powers that the kernel can compute.
-/

namespace Idiom.Primality

/-- The power of `a` modulo `n` for an exponent of at most so many bits. -/
def powMod (n : ℕ) : (bits a e : ℕ) → ℕ
  | 0, _, _ => 1 % n
  | bits + 1, a, e =>
    if e % 2 = 0 then powMod n bits (a * a % n) (e / 2)
    else a * powMod n bits (a * a % n) (e / 2) % n

theorem powMod_eq (n : ℕ) {bits a e : ℕ} (he : e < 2 ^ bits) : powMod n bits a e = a ^ e % n := by
  induction bits generalizing a e with
  | zero =>
    obtain rfl : e = 0 := by omega
    rfl
  | succ bits ih =>
    have hhalf : e / 2 < 2 ^ bits := by omega
    have hsquare : powMod n bits (a * a % n) (e / 2) = a ^ (2 * (e / 2)) % n := by
      rw [ih hhalf, ← Nat.pow_mod, ← Nat.pow_two, ← Nat.pow_mul]
    rw [powMod, hsquare]
    split
    · rw [show 2 * (e / 2) = e by omega]
    · rw [Nat.mul_mod_mod, ← Nat.pow_succ', show (2 * (e / 2)).succ = e by omega]

theorem cast_pow_eq_one_iff {n : ℕ} (hn : 1 < n) (a e : ℕ) :
    (a : ZMod n) ^ e = 1 ↔ a ^ e % n = 1 := by
  rw [← Nat.cast_pow, ← Nat.cast_one, ZMod.natCast_eq_natCast_iff', Nat.mod_eq_of_lt hn]

/-- The powers of `a` show that its order modulo `n` is `n - 1`; the factors include all prime
factors of `n - 1`. -/
def lucas (n a : ℕ) (factors : List ℕ) : Bool :=
  1 < n && n < 2 ^ 256 && factors.prod ^ 32 % (n - 1) == 0 && powMod n 256 a (n - 1) == 1 &&
    factors.all fun q => powMod n 256 a ((n - 1) / q) != 1

/-- **The test of Lucas.** -/
theorem prime_of_lucas {n : ℕ} (a : ℕ) (factors : List ℕ) (h : lucas n a factors = true)
    (hprime : ∀ q ∈ factors, q.Prime) : n.Prime := by
  simp only [lucas, Bool.and_eq_true, decide_eq_true_eq, beq_iff_eq, List.all_eq_true,
    bne_iff_ne] at h
  obtain ⟨⟨⟨⟨hn, hlt⟩, hprod⟩, hone⟩, hne⟩ := h
  have hbits : ∀ e ≤ n - 1, e < 2 ^ 256 := by
    intro e he
    omega
  refine lucas_primality n a ?_ fun q hq hdvd => ?_
  · rw [cast_pow_eq_one_iff hn, ← powMod_eq n (hbits _ le_rfl)]
    exact hone
  · have hpow : q ∣ factors.prod ^ 32 := hdvd.trans (Nat.dvd_of_mod_eq_zero hprod)
    obtain ⟨r, hr, hdvd⟩ := hq.prime.dvd_prod_iff.1 (hq.dvd_of_dvd_pow hpow)
    obtain rfl : q = r := (Nat.prime_dvd_prime_iff_eq hq (hprime r hr)).1 hdvd
    rw [Ne, cast_pow_eq_one_iff hn, ← powMod_eq n (hbits _ (Nat.div_le_self _ _))]
    exact hne q hr

end Idiom.Primality
