import Bolt8.Hash.Sha256

/-!
# Key derivation

HKDF over SHA-256 with the chaining key as salt, no context information, and
two blocks of output. It both folds a shared secret into the chaining key and
rotates transport keys.
-/

namespace Bolt8

/-- HMAC-SHA256. A key is one digest long, so it always fits its 64-byte block. -/
def hmac (key : Digest) (message : Bytes) : Digest :=
  let block := key.val ++ List.replicate 32 0
  let inner := sha256 (block.map (· ^^^ 0x36) ++ message)
  sha256 (block.map (· ^^^ 0x5c) ++ inner.val)

/-- What one derivation gives: two independent blocks. -/
structure Derived where
  first : Digest
  second : Digest
  deriving DecidableEq

/-- Extract under `salt`, then expand to two blocks, each bound to the one before it. -/
def hkdf (salt : Digest) (material : Bytes) : Derived :=
  let extracted := hmac salt material
  let first := hmac extracted [1]
  ⟨first, hmac extracted (first.val ++ [2])⟩

end Bolt8
