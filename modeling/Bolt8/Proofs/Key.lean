import Bolt8.Handshake.Act
import Bolt8.Proofs.Curve.Encoding
import Bolt8.Proofs.Curve.Group

/-!
# Public keys and shared secrets

A public key is a multiple of the generator other than infinity, so it is read
back from its compressed form; and either of two key pairs can compute what
they share, as multiples of multiples commute.
-/

namespace Bolt8

open Curve

namespace SecretKey

theorem lt_bits (k : SecretKey) : k.val < 2 ^ 256 := lt_trans k.lt_order order_lt

theorem publicKey_eq (k : SecretKey) : k.publicKey = coords (k.val • base) := by
  rw [publicKey, ← coords_base, mul_coords k.lt_bits]

theorem onCurve_publicKey (k : SecretKey) : k.publicKey.OnCurve := by
  rw [publicKey_eq]
  exact onCurve_coords (smul_base_ne_zero k.pos k.lt_order)

/-- The shared secret does not depend on which of the two secret keys is at hand. -/
theorem agree_comm (k l : SecretKey) : k.agree l.publicKey = l.agree k.publicKey := by
  have hmul : Point.mul k.val l.publicKey = Point.mul l.val k.publicKey := by
    rw [publicKey_eq, publicKey_eq, mul_coords k.lt_bits, mul_coords l.lt_bits,
      smul_smul, smul_smul, Nat.mul_comm]
  rw [agree, agree, hmul]

end SecretKey

namespace KeyPair

theorem agree_comm (p q : KeyPair) : p.secret.agree q.pub = q.secret.agree p.pub := by
  rw [p.pub_eq, q.pub_eq]
  exact SecretKey.agree_comm p.secret q.secret

theorem read_compress (p : KeyPair) : PublicKey.read p.pub.compress.val = .ok p.pub := by
  rw [PublicKey.read, Point.ofCompressed?_compress (p.pub_eq ▸ p.secret.onCurve_publicKey)]

end KeyPair

end Bolt8
