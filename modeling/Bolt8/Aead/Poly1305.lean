import Bolt8.Bytes

/-!
# The Poly1305 authenticator

The message, cut into 16-byte blocks, is the coefficients of a polynomial; the
tag is its value at a secret point modulo 2¹³⁰ - 5, under a one-time pad.
-/

namespace Bolt8.Poly1305

/-- The prime 2¹³⁰ - 5. -/
def modulus : Nat := 0x3fffffffffffffffffffffffffffffffb

/-- The bits that a secret point may have. -/
def clampMask : Nat := 0x0ffffffc0ffffffc0ffffffc0fffffff

/-- One step of the evaluation; a one bit is set just above the block. -/
def absorb (r acc : Nat) (block : Bytes) : Nat :=
  (acc + Bytes.toNatLE (block ++ [1])) * r % modulus

/-- The tag of a message under a one-time key: point, then pad. -/
def tag (key message : Bytes) : FixedBytes 16 :=
  let r := Bytes.toNatLE (key.take 16) &&& clampMask
  let pad := Bytes.toNatLE ((key.drop 16).take 16)
  let value := (Bytes.blocks 16 message).foldl (absorb r) 0
  ⟨Bytes.ofNatLE 16 (value + pad), by simp⟩

end Bolt8.Poly1305
