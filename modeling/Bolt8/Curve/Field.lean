/-!
# The field of the curve secp256k1

Integers modulo a prime just below 2²⁵⁶. The prime leaves 3 modulo 4, so a
root of a square is a fixed power of it, and so is the inverse.
-/

namespace Bolt8.Curve

/-- The number of elements of the field: 2²⁵⁶ - 2³² - 977. -/
def prime : Nat := 0xfffffffffffffffffffffffffffffffffffffffffffffffffffffffefffffc2f

instance : @NeZero Nat Zero.ofOfNat0 prime := ⟨Nat.succ_ne_zero _⟩

/-- Elements of the field. -/
abbrev Fe := Fin prime

/-- Reads the low `bits` binary digits of `n` from the top: `twice` at each
digit, then `once` where the digit is 1. -/
def ladder {α : Type} (zero : α) (twice once : α → α) : (bits n : Nat) → α
  | 0, _ => zero
  | bits + 1, n =>
    let a := twice (ladder zero twice once bits (n / 2))
    if n % 2 = 1 then once a else a

namespace Fe

/-- The power `x ^ n`, for `n` below 2²⁵⁶. -/
def pow (x : Fe) (n : Nat) : Fe :=
  ladder 1 (fun a => a * a) (· * x) 256 n

/-- The inverse of a nonzero element; zero goes to zero. -/
def inv (x : Fe) : Fe := pow x (prime - 2)

/-- A square root, when there is one. -/
def sqrt? (x : Fe) : Option Fe :=
  let r := pow x ((prime + 1) / 4)
  if r * r = x then some r else none

end Fe

end Bolt8.Curve
