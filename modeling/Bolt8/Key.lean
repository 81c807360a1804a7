import Bolt8.Curve.Encoding
import Bolt8.Curve.Jacobian
import Bolt8.Hash.Sha256

/-!
# Keys and shared secrets

A secret key is a number from 1 up to the order of the curve, and its public
key that multiple of the generator. Two key pairs share the digest of the
multiple that both can compute.
-/

namespace Bolt8

open Curve

abbrev PublicKey := Point

structure SecretKey where
  val : Nat
  pos : 0 < val
  lt_order : val < order
  deriving DecidableEq

namespace SecretKey

/-- The key read as a big-endian number, when that is in range. -/
def ofBytes? (bs : FixedBytes 32) : Option SecretKey :=
  if h : 0 < Bytes.toNatBE bs.val ∧ Bytes.toNatBE bs.val < order then
    some ⟨Bytes.toNatBE bs.val, h.1, h.2⟩
  else none

def toBytes (k : SecretKey) : FixedBytes 32 := ⟨Bytes.ofNatBE 32 k.val, by simp⟩

def publicKey (k : SecretKey) : PublicKey := Point.mul k.val .generator

/-- How a secret key shows itself: not at all. -/
def summary (_ : SecretKey) : String := "StaticSecret([REDACTED])"

end SecretKey

/-! ## Shared secrets -/

structure SharedSecret where
  digest : Digest
  deriving DecidableEq

/-- The size of a shared secret. -/
def sharedSecretSize : Nat := 32

/-- The digest of the compressed product of the one's secret and the other's public key. -/
def SecretKey.agree (k : SecretKey) (remote : PublicKey) : SharedSecret :=
  ⟨sha256 (Point.mul k.val remote).compress.val⟩

/-- How a shared secret shows itself: not at all. -/
def SharedSecret.summary (_ : SharedSecret) : String := "SharedSecret([REDACTED])"

/-! ## Pairs -/

/-- A secret key with its public key. -/
structure KeyPair where
  secret : SecretKey
  pub : PublicKey
  pub_eq : pub = secret.publicKey
  deriving DecidableEq

namespace KeyPair

def ofSecret (k : SecretKey) : KeyPair := ⟨k, k.publicKey, rfl⟩

def ofBytes? (bs : FixedBytes 32) : Option KeyPair := (SecretKey.ofBytes? bs).map ofSecret

end KeyPair

end Bolt8
