import Bolt8.Curve.Point

/-!
# Multiples of a point

Sums are taken in Jacobian coordinates, where (X, Y, Z) is the point
(X / Z², Y / Z³) and Z = 0 the point at infinity, so that a multiple costs a
single inversion at its end.
-/

namespace Bolt8.Curve

structure Jacobian where
  x : Fe
  y : Fe
  z : Fe
  deriving DecidableEq

namespace Jacobian

def infinity : Jacobian := ⟨1, 1, 0⟩

def ofPoint (P : Point) : Jacobian :=
  if P = .infinity then infinity else ⟨P.x, P.y, 1⟩

/-- Division by the powers of Z; infinity goes to (0, 0), as zero inverts to zero. -/
def toPoint (P : Jacobian) : Point :=
  let i := P.z.inv
  ⟨P.x * (i * i), P.y * (i * i * i)⟩

/-- The tangent's third intersection, reflected. -/
def double (P : Jacobian) : Jacobian :=
  let yy := P.y * P.y
  let s := 4 * P.x * yy
  let m := 3 * (P.x * P.x)
  let x := m * m - 2 * s
  ⟨x, m * (s - x) - 8 * (yy * yy), 2 * P.y * P.z⟩

/-- The sum with a point in plain coordinates. -/
def add (P : Jacobian) (Q : Point) : Jacobian :=
  if Q = .infinity then P
  else if P.z = 0 then ofPoint Q
  else
    let zz := P.z * P.z
    let h := Q.x * zz - P.x
    let r := Q.y * (zz * P.z) - P.y
    if h = 0 then
      if r = 0 then double P else infinity
    else
      let hh := h * h
      let hhh := hh * h
      let v := P.x * hh
      let x := r * r - hhh - 2 * v
      ⟨x, r * (v - x) - P.y * hhh, h * P.z⟩

end Jacobian

/-- The sum of `k` copies of a point, for `k` below 2²⁵⁶. -/
def Point.mul (k : Nat) (P : Point) : Point :=
  (ladder .infinity Jacobian.double (Jacobian.add · P) 256 k).toPoint

end Bolt8.Curve
