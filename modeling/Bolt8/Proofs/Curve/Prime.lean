import Bolt8.Curve.Point
import Mathlib.Data.ZMod.Basic
import Mathlib.NumberTheory.LucasPrimality
import Mathlib.Tactic.NormNum.Prime

/-!
# The two primes of the curve

The field of the curve has a prime number of elements, and so has the group of
its points. Both numbers have 256 bits, so that trial division is out of
reach. Lucas's test takes its place: a base whose power at `p - 1` is one, and
at `(p - 1) / q` is not one for any prime `q` dividing `p - 1`. The larger of
these `q` are prime by the same test, so the tests form a chain.
-/

namespace Bolt8.Curve

/-- What `twice` and `once` keep holds of the whole ladder. -/
theorem ladder_induction {α : Type} {zero : α} {twice once : α → α} {R : ℕ → α → Prop}
    (h0 : R 0 zero) (htwice : ∀ k a, R k a → R (2 * k) (twice a))
    (honce : ∀ k a, R k a → R (k + 1) (once a)) :
    ∀ bits n : ℕ, n < 2 ^ bits → R n (ladder zero twice once bits n) := by
  intro bits
  induction bits with
  | zero =>
      intro n hn
      obtain rfl : n = 0 := by simpa using hn
      exact h0
  | succ bits ih =>
      intro n hn
      have hhalf := htwice _ _ (ih (n / 2) (by rw [pow_succ] at hn; omega))
      rw [ladder]
      by_cases hodd : n % 2 = 1
      · have hfull := honce _ _ hhalf
        rw [show 2 * (n / 2) + 1 = n by omega] at hfull
        simpa only [if_pos hodd] using hfull
      · rw [show 2 * (n / 2) = n by omega] at hhalf
        simpa only [if_neg hodd] using hhalf

/-! ## Lucas's test -/

/-- The power `a ^ n` modulo `m`, for `n` below 2²⁵⁶. -/
def powMod (m a n : ℕ) : ℕ :=
  ladder (1 % m) (fun r => r * r % m) (· * a % m) 256 n

theorem powMod_lt {m : ℕ} (hm : 0 < m) (a n : ℕ) : powMod m a n < m := by
  rw [powMod, ladder]
  split <;> exact Nat.mod_lt _ hm

theorem cast_powMod (m a : ℕ) {n : ℕ} (hn : n < 2 ^ 256) :
    ((powMod m a n : ℕ) : ZMod m) = (a : ZMod m) ^ n := by
  refine ladder_induction (R := fun k r => ((r : ℕ) : ZMod m) = (a : ZMod m) ^ k)
    ?_ ?_ ?_ 256 n hn
  · simp
  · intro k r hr
    simp [hr, two_mul, pow_add]
  · intro k r hr
    simp [hr, pow_succ]

theorem powMod_eq_one_iff {m : ℕ} (hm : 1 < m) (a : ℕ) {n : ℕ} (hn : n < 2 ^ 256) :
    powMod m a n = 1 ↔ (a : ZMod m) ^ n = 1 := by
  rw [← cast_powMod m a hn]
  constructor
  · intro h
    rw [h, Nat.cast_one]
  · intro h
    rw [← Nat.cast_one, ZMod.natCast_eq_natCast_iff', Nat.mod_eq_of_lt hm,
      Nat.mod_eq_of_lt (powMod_lt (by omega) a n)] at h
    exact h

/-- Lucas's test of `p` to the base `a`, given the factors of `p - 1`. -/
def lucas (p a : ℕ) (factors : List ℕ) : Bool :=
  decide (1 < p ∧ p < 2 ^ 256 ∧ factors.prod = p - 1) && powMod p a (p - 1) == 1 &&
    factors.all fun q => powMod p a ((p - 1) / q) != 1

/-- A number that passes the test with prime factors is prime. -/
theorem prime_of_lucas {p : ℕ} (a : ℕ) (factors : List ℕ) (h : lucas p a factors = true)
    (hf : ∀ q ∈ factors, q.Prime) : p.Prime := by
  simp only [lucas, Bool.and_eq_true, decide_eq_true_eq, beq_iff_eq, List.all_eq_true,
    bne_iff_ne] at h
  obtain ⟨⟨⟨hp, hbits, hprod⟩, hone⟩, hne⟩ := h
  refine lucas_primality p a ((powMod_eq_one_iff hp a (by omega)).1 hone) ?_
  intro q hq hdvd
  have hmem : q ∈ factors := by
    rw [← hprod, hq.prime.dvd_prod_iff] at hdvd
    obtain ⟨r, hr, hqr⟩ := hdvd
    rwa [(Nat.prime_dvd_prime_iff_eq hq (hf r hr)).1 hqr]
  have hlt : (p - 1) / q < 2 ^ 256 := lt_of_le_of_lt (Nat.div_le_self _ _) (by omega)
  rw [ne_eq, ← powMod_eq_one_iff hp a hlt]
  exact hne q hmem

/-! ## Chains of tests -/

/-- Each number passes the test to its base with factors that are known to be
prime or come before it. -/
def chain : List ℕ → List (ℕ × ℕ × List ℕ) → Bool
  | _, [] => true
  | known, (p, a, factors) :: later =>
    lucas p a factors && factors.all (known.contains ·) && chain (p :: known) later

theorem prime_of_chain {known : List ℕ} {tests : List (ℕ × ℕ × List ℕ)}
    (h : chain known tests = true) (hknown : ∀ q ∈ known, q.Prime) :
    ∀ test ∈ tests, test.1.Prime := by
  induction tests generalizing known with
  | nil =>
      exact fun _ hmem => nomatch hmem
  | cons test later ih =>
      obtain ⟨p, a, factors⟩ := test
      simp only [chain, Bool.and_eq_true, List.all_eq_true, List.contains_iff_mem] at h
      obtain ⟨⟨htest, hfactors⟩, hlater⟩ := h
      have hp := prime_of_lucas a factors htest fun q hq => hknown q (hfactors q hq)
      rintro test hmem
      rcases List.mem_cons.1 hmem with rfl | hmem
      · exact hp
      · exact ih hlater (List.forall_mem_cons.2 ⟨hp, hknown⟩) test hmem

/-- The factors small enough for trial division. -/
def smallFactors : List ℕ :=
  [2, 3, 5, 7, 11, 17, 29, 31, 41, 59, 109, 149, 293, 461, 631, 1627, 2621, 2657, 4051, 4423, 5323,
    7723, 13441, 16699, 24809, 28181, 41201, 85831, 96557, 120233, 305873, 1627771, 4681609,
    7240687, 13331831, 44706919, 107590001]

theorem prime_of_mem_smallFactors : ∀ q ∈ smallFactors, q.Prime := by
  simp only [smallFactors, List.forall_mem_cons, List.not_mem_nil, false_imp_iff, imp_true_iff]
  norm_num

/-- Up to the number of field elements, then up to the number of points. -/
def curveTests : List (ℕ × ℕ × List ℕ) :=
  [(173378833005251801, 6, [2, 2, 2, 5, 5, 2621, 24809, 13331831]),
    (22149492674086928081353, 5, [2, 2, 2, 3, 5323, 173378833005251801]),
    (132896956044521568488119, 6, [2, 3, 22149492674086928081353]),
    (255515944373312847190720520512484175977, 3,
      [2, 2, 2, 7, 7, 11, 1627, 2657, 4423, 41201, 96557, 7240687, 107590001]),
    (205115282021455665897114700593932402728804164701536103180137503955397371, 10,
      [2, 3, 5, 29, 29, 31, 7723, 132896956044521568488119,
        255515944373312847190720520512484175977]),
    (prime, 3, [2, 3, 7, 13441,
      205115282021455665897114700593932402728804164701536103180137503955397371]),
    (545358713, 5, [2, 2, 2, 41, 59, 28181]),
    (297159362677, 2, [2, 2, 3, 3, 11, 461, 1627771]),
    (29047611873442575647497758179, 2, [2, 293, 305873, 545358713, 297159362677]),
    (341948486974166000522343609283189, 2, [2, 2, 3, 3, 3, 109, 29047611873442575647497758179]),
    (107361793816595537, 3, [2, 2, 2, 2, 16699, 85831, 4681609]),
    (174723607534414371449, 3, [2, 2, 2, 17, 59, 4051, 120233, 44706919]),
    (order, 7, [2, 2, 2, 2, 2, 2, 3, 149, 631, 107361793816595537, 174723607534414371449,
      341948486974166000522343609283189])]

theorem prime_of_mem_curveTests : ∀ test ∈ curveTests, test.1.Prime :=
  prime_of_chain (by decide +kernel) prime_of_mem_smallFactors

theorem prime_prime : Nat.Prime prime :=
  prime_of_mem_curveTests _ (List.mem_of_getElem? (i := 5) rfl)

theorem prime_order : Nat.Prime order :=
  prime_of_mem_curveTests _ (List.mem_of_getElem? (i := 12) rfl)

instance : Fact prime.Prime := ⟨prime_prime⟩

end Bolt8.Curve
