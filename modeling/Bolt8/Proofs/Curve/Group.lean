import Bolt8.Curve.Jacobian
import Bolt8.Proofs.Curve.Field
import Mathlib.AlgebraicGeometry.EllipticCurve.Affine.Point
import Mathlib.Tactic.FieldSimp
import Mathlib.Tactic.LinearCombination

/-!
# The group of points

The points of the curve and the point at infinity are a group. `coords` gives
the two coordinates of its elements, and `Represents` says when a Jacobian
triple stands for one. Doubling and mixed addition follow the group law in
every case, so the ladder multiplies: `mul_coords`. The generator has the
prime order, so that no secret key sends it to infinity.
-/

namespace Bolt8.Curve

open WeierstrassCurve.Affine (equation_iff negY addX addY negAddY slope_of_Y_ne slope_of_X_ne
  Y_eq_of_X_eq)
open WeierstrassCurve.Affine.Point (some_ne_zero add_self_of_Y_eq add_self_of_Y_ne add_of_Y_eq
  add_of_X_ne)

/-- The curve y² = x³ + 7. -/
def curve : WeierstrassCurve.Affine Fe := ⟨0, 0, 0, 0, 7⟩

theorem disc_ne_zero : curve.Δ ≠ 0 := by
  have hval : curve.Δ = -(432 * 49) := by
    simp only [WeierstrassCurve.Δ, WeierstrassCurve.b₂, WeierstrassCurve.b₄,
      WeierstrassCurve.b₆, WeierstrassCurve.b₈, curve]
    ring
  rw [hval]
  decide

theorem nonsingular_iff (x y : Fe) : curve.Nonsingular x y ↔ Point.OnCurve ⟨x, y⟩ := by
  rw [← curve.equation_iff_nonsingular_of_Δ_ne_zero disc_ne_zero,
    equation_iff, Point.OnCurve, Point.cubic]
  simp only [curve]
  constructor <;> intro h <;> linear_combination h

/-- The two coordinates of a group element. -/
def coords : curve.Point → Point
  | .zero => .infinity
  | .some x y _ => ⟨x, y⟩

theorem onCurve_coords {Q : curve.Point} (hQ : Q ≠ 0) : (coords Q).OnCurve := by
  cases Q with
  | zero => exact absurd rfl hQ
  | some x y h => exact (nonsingular_iff x y).1 h

theorem not_onCurve_infinity : ¬ Point.infinity.OnCurve := by decide

theorem coords_eq_infinity_iff (Q : curve.Point) : coords Q = .infinity ↔ Q = 0 := by
  constructor
  · intro h
    by_contra hQ
    exact not_onCurve_infinity (h ▸ onCurve_coords hQ)
  · rintro rfl
    rfl

/-! ## Jacobian triples -/

namespace Jacobian

/-- The triple stands for the group element. -/
def Represents (J : Jacobian) : curve.Point → Prop
  | .zero => J.z = 0
  | .some x y _ => J.z ≠ 0 ∧ J.x = x * J.z ^ 2 ∧ J.y = y * J.z ^ 3

theorem represents_infinity : infinity.Represents 0 := rfl

theorem represents_ofPoint (Q : curve.Point) : (ofPoint (coords Q)).Represents Q := by
  rw [ofPoint]
  cases Q with
  | zero => exact represents_infinity
  | some x y h =>
      rw [if_neg ((coords_eq_infinity_iff _).not.2 (some_ne_zero h))]
      simp [Represents, coords]

theorem toPoint_eq {J : Jacobian} {Q : curve.Point} (h : J.Represents Q) :
    J.toPoint = coords Q := by
  cases Q with
  | zero =>
      have hz : J.z = 0 := h
      simp [toPoint, hz, Fe.inv_eq, coords, Point.infinity]
  | some x y hQ =>
      obtain ⟨hz, hx, hy⟩ := h
      simp only [toPoint, Fe.inv_eq, coords, Point.mk.injEq]
      constructor
      · rw [hx]
        field_simp
      · rw [hy]
        field_simp

/-- The tangent rule, with the vertical tangent and infinity. -/
theorem represents_double {J : Jacobian} {Q : curve.Point} (h : J.Represents Q) :
    J.double.Represents (Q + Q) := by
  cases Q with
  | zero =>
      have hz : J.z = 0 := h
      show 2 * J.y * J.z = 0
      rw [hz, mul_zero]
  | some x y hQ =>
      obtain ⟨hz, hx, hy⟩ := h
      have h2 := Fe.two_ne_zero
      by_cases h0 : y = 0
      · rw [add_self_of_Y_eq (by simp [h0, curve])]
        show 2 * J.y * J.z = 0
        rw [hy, h0, zero_mul, mul_zero, zero_mul]
      · have hdiff : y - curve.negY x y = 2 * y := by
          simp only [negY, curve]
          ring
        have hne : y ≠ curve.negY x y :=
          sub_ne_zero.1 (hdiff ▸ mul_ne_zero h2 h0)
        rw [add_self_of_Y_ne hne]
        simp only [Represents, double, slope_of_Y_ne rfl hne, hdiff, hx, hy]
        simp only [addX, addY, negAddY, negY, curve]
        refine ⟨?_, ?_, ?_⟩
        · exact mul_ne_zero (mul_ne_zero h2 (mul_ne_zero h0 (pow_ne_zero 3 hz))) hz
        · field_simp
          ring
        · field_simp
          ring

/-- The chord rule, with equal and opposite points and infinity on either side. -/
theorem represents_add {J : Jacobian} {Q : curve.Point} (h : J.Represents Q)
    (R : curve.Point) : (J.add (coords R)).Represents (Q + R) := by
  rw [add]
  cases R with
  | zero =>
      have hinf : coords .zero = .infinity := rfl
      rw [if_pos hinf]
      exact (add_zero Q).symm ▸ h
  | some x' y' hR =>
      rw [if_neg ((coords_eq_infinity_iff _).not.2 (some_ne_zero hR))]
      cases Q with
      | zero =>
          rw [if_pos (show J.z = 0 from h)]
          exact represents_ofPoint _
      | some x y hQ =>
          have hP := h
          obtain ⟨hz, hx, hy⟩ := h
          have hh : x' * (J.z * J.z) - J.x = (x' - x) * J.z ^ 2 := by
            rw [hx]
            ring
          have hr : y' * (J.z * J.z * J.z) - J.y = (y' - y) * J.z ^ 3 := by
            rw [hy]
            ring
          simp only [if_neg hz, coords, hh, hr]
          by_cases hxx : x = x'
          · subst hxx
            rw [if_pos (by ring)]
            by_cases hyy : y = y'
            · subst hyy
              rw [if_pos (by ring)]
              exact represents_double hP
            · have hopp : y = curve.negY x y' :=
                (Y_eq_of_X_eq hQ.1 hR.1 rfl).resolve_left hyy
              rw [if_neg (mul_ne_zero (sub_ne_zero.2 (Ne.symm hyy)) (pow_ne_zero 3 hz)),
                add_of_Y_eq rfl hopp]
              exact represents_infinity
          · have hd : x' - x ≠ 0 := sub_ne_zero.2 (Ne.symm hxx)
            have hd' : x - x' ≠ 0 := sub_ne_zero.2 hxx
            rw [if_neg (mul_ne_zero hd (pow_ne_zero 2 hz)), add_of_X_ne hxx]
            simp only [Represents, slope_of_X_ne hxx, hx, hy]
            simp only [addX, addY, negAddY, negY, curve]
            refine ⟨mul_ne_zero (mul_ne_zero hd (pow_ne_zero 2 hz)) hz, ?_, ?_⟩
            · field_simp
              ring
            · field_simp
              ring

end Jacobian

/-! ## Multiples -/

/-- The ladder computes the multiple in the group. -/
theorem mul_coords {k : ℕ} (hk : k < 2 ^ 256) (Q : curve.Point) :
    Point.mul k (coords Q) = coords (k • Q) := by
  apply Jacobian.toPoint_eq
  refine ladder_induction (R := fun n (J : Jacobian) => J.Represents (n • Q)) ?_ ?_ ?_ 256 k hk
  · rw [zero_smul]
    exact Jacobian.represents_infinity
  · intro n J hJ
    rw [two_mul, add_smul]
    exact Jacobian.represents_double hJ
  · intro n J hJ
    rw [succ_nsmul]
    exact Jacobian.represents_add hJ Q

theorem order_lt : order < 2 ^ 256 := by decide

/-- The generator in the group. -/
def base : curve.Point :=
  .some Point.generator.x Point.generator.y
    ((nonsingular_iff _ _).2 (by decide))

theorem coords_base : coords base = .generator := rfl

theorem order_smul_base : order • base = 0 := by
  rw [← coords_eq_infinity_iff, ← mul_coords order_lt, coords_base]
  decide +kernel

/-- The generator has the prime order: only multiples of that lead to infinity. -/
theorem smul_base_ne_zero {k : ℕ} (hpos : 0 < k) (hlt : k < order) : k • base ≠ 0 := by
  have : Fact order.Prime := ⟨prime_order⟩
  have hord : addOrderOf base = order :=
    addOrderOf_eq_prime order_smul_base (some_ne_zero _)
  intro h
  have hdvd : order ∣ k := hord ▸ addOrderOf_dvd_of_nsmul_eq_zero h
  exact absurd (Nat.le_of_dvd hpos hdvd) (by omega)

end Bolt8.Curve
