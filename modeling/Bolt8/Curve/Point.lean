import Bolt8.Curve.Field

/-!
# Points of the curve y² = x³ + 7

A point is its two coordinates. The pair (0, 0) does not satisfy the equation
and stands for the point at infinity.
-/

namespace Bolt8.Curve

structure Point where
  x : Fe
  y : Fe
  deriving DecidableEq

/-- The number of points, a prime. -/
def order : Nat := 0xfffffffffffffffffffffffffffffffebaaedce6af48a03bbfd25e8cd0364141

namespace Point

def infinity : Point := ⟨0, 0⟩

/-- The point whose multiples are the public keys. -/
def generator : Point :=
  ⟨0x79be667ef9dcbbac55a06295ce870b07029bfcdb2dce28d959f2815b16f81798,
   0x483ada7726a3c4655da4fbfc0e1108a8fd17b448a68554199c47d08ffb10d4b8⟩

/-- The right side of the equation. -/
def cubic (x : Fe) : Fe := x * x * x + 7

def OnCurve (P : Point) : Prop := P.y * P.y = cubic P.x

instance (P : Point) : Decidable P.OnCurve := inferInstanceAs (Decidable (_ = _))

end Point

end Bolt8.Curve
