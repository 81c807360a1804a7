import Bolt8.Bytes
import Bolt8.Curve.Point

/-!
# Points as bytes

A point is sent compressed: one byte for the parity of y, then x. Reading
takes the root of x³ + 7 that has this parity, and refuses an x that is not
reduced or has no such root.
-/

namespace Bolt8.Curve

/-- The size of a compressed point. -/
def compressedSize : Nat := 33

namespace Fe

def toBytes (x : Fe) : FixedBytes 32 := ⟨Bytes.ofNatBE 32 x.val, by simp⟩

/-- Only reduced numbers are field elements. -/
def ofBytes? (bs : Bytes) : Option Fe :=
  if h : Bytes.toNatBE bs < prime then some ⟨Bytes.toNatBE bs, h⟩ else none

def isOdd (x : Fe) : Bool := x.val % 2 == 1

end Fe

namespace Point

/-- Parity of y (2 even, 3 odd), then x. -/
def compress (P : Point) : FixedBytes 33 :=
  ⟨(if P.y.isOdd then 3 else 2) :: P.x.toBytes.val, by simp [P.x.toBytes.property]⟩

/-- The byte 4, then x, then y. -/
def uncompressed (P : Point) : FixedBytes 65 :=
  ⟨4 :: P.x.toBytes.val ++ P.y.toBytes.val, by simp [P.x.toBytes.property, P.y.toBytes.property]⟩

/-- The point with this x whose y has this parity. -/
def lift? (x : Fe) (odd : Bool) : Option Point :=
  (cubic x).sqrt?.map fun y => ⟨x, if y.isOdd = odd then y else -y⟩

/-- Reads a compressed point, and no other form. -/
def ofCompressed? (bs : Bytes) : Option Point :=
  match bs with
  | parity :: x =>
    if x.length = 32 ∧ (parity = 2 ∨ parity = 3) then
      (Fe.ofBytes? x).bind (lift? · (parity == 3))
    else none
  | [] => none

end Point

end Bolt8.Curve
