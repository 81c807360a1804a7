import Bolt8.Curve.Encoding
import Bolt8.Proofs.Curve.Prime
import Mathlib.FieldTheory.Finite.Basic

/-!
# The field laws

Powers are taken by the ladder, and the inverse and the square root are fixed
powers. Fermat's theorem says that they are what their names promise, so that
the numbers modulo the prime are a field in which the curve can be studied.
-/

namespace Bolt8.Curve.Fe

/-! ## Powers -/

section

open Fin.CommRing

theorem pow_eq (x : Fe) {n : ℕ} (hn : n < 2 ^ 256) : pow x n = x ^ n := by
  refine ladder_induction (R := fun k a => a = x ^ k) ?_ ?_ ?_ 256 n hn
  · exact (pow_zero x).symm
  · rintro k a rfl
    rw [two_mul, pow_add]
  · rintro k a rfl
    exact (pow_succ x k).symm

/-- Fermat's theorem. -/
theorem pow_prime_sub_one {x : Fe} (hx : x ≠ 0) : x ^ (prime - 1) = 1 := by
  apply (ZMod.finEquiv prime).injective
  rw [map_pow, map_one]
  exact ZMod.pow_card_sub_one_eq_one ((map_ne_zero_iff _ (ZMod.finEquiv prime).injective).2 hx)

theorem mul_inv {x : Fe} (hx : x ≠ 0) : x * inv x = 1 := by
  rw [inv, pow_eq x (by decide), ← pow_succ']
  exact pow_prime_sub_one hx

end

/-! ## The field -/

open Fin.CommRing in
noncomputable instance : Field Fe :=
  { Fin.instCommRing prime with
    inv := Ring.inverse
    div := fun x y => x * Ring.inverse y
    div_eq_mul_inv := fun _ _ => rfl
    exists_pair_ne := ⟨0, 1, by decide⟩
    mul_inv_cancel := fun x hx => Ring.mul_inverse_cancel x (.of_mul_eq_one _ (mul_inv hx))
    inv_zero := Ring.inverse_zero Fe
    nnqsmul := _
    nnqsmul_def := fun _ _ => rfl
    qsmul := _
    qsmul_def := fun _ _ => rfl }

theorem inv_eq (x : Fe) : inv x = x⁻¹ := by
  by_cases hx : x = 0
  · subst hx
    rw [inv, pow_eq 0 (by decide), zero_pow (by decide), inv_zero]
  · exact eq_inv_of_mul_eq_one_right (mul_inv hx)

theorem two_ne_zero : (2 : Fe) ≠ 0 := by decide

/-! ## Square roots -/

/-- The root of a square is one of the two numbers with this square. -/
theorem sqrt?_mul_self (y : Fe) : ∃ r, sqrt? (y * y) = some r ∧ (r = y ∨ r = -y) := by
  have hexp : 2 * ((prime + 1) / 4) + 2 * ((prime + 1) / 4) = prime - 1 + 2 := by
    decide
  have hroot : pow (y * y) ((prime + 1) / 4) * pow (y * y) ((prime + 1) / 4) = y * y := by
    rw [pow_eq _ (by decide), ← pow_two y, ← pow_mul, ← pow_add, hexp, pow_add]
    by_cases hy : y = 0
    · rw [hy, zero_pow (n := 2) (by decide), mul_zero]
    · rw [pow_prime_sub_one hy, one_mul]
  refine ⟨pow (y * y) ((prime + 1) / 4), ?_, mul_self_eq_mul_self_iff.1 hroot⟩
  rw [sqrt?]
  exact if_pos hroot

/-- The prime is odd, so a number and its negative differ in parity. -/
theorem isOdd_neg {y : Fe} (hy : y ≠ 0) : (-y).isOdd = !y.isOdd := by
  have hpos : 0 < y.val := Nat.pos_of_ne_zero fun h => hy (Fin.ext h)
  have hlt : y.val < prime := y.isLt
  have hodd : prime % 2 = 1 := by decide
  have hval : (-y).val = prime - y.val := by
    rw [Fin.val_neg, if_neg hy]
  rw [isOdd, isOdd, hval]
  rcases Nat.mod_two_eq_zero_or_one y.val with h | h
  · simp [h, show (prime - y.val) % 2 = 1 by omega]
  · simp [h, show (prime - y.val) % 2 = 0 by omega]

end Bolt8.Curve.Fe
