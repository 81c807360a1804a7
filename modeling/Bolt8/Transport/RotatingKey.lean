import Bolt8.Aead
import Bolt8.Outcome
import Bolt8.Hash.Hkdf

/-!
# A key that rotates

One direction of a channel. Each text uses one counter value; after 1000 of
them the chaining key yields the next key, and the counter starts again. A
frame takes two values, so a key serves 500 whole frames.
-/

namespace Bolt8

/-- How many texts a key seals. -/
def rotationInterval : UInt64 := 1000

structure RotatingKey where
  key : Aead.Key
  chainingKey : Digest
  counter : UInt64
  epoch : UInt64
  deriving DecidableEq

namespace RotatingKey

def start (key : Aead.Key) (chainingKey : Digest) : RotatingKey := ⟨key, chainingKey, 0, 0⟩

/-- The next epoch: chaining key and key are derived from the old ones. -/
def rotate (k : RotatingKey) : RotatingKey :=
  let d := hkdf k.chainingKey k.key.val
  ⟨d.second, d.first, 0, k.epoch + 1⟩

/-- One counter value is used up. -/
def advance (k : RotatingKey) : RotatingKey :=
  let used := { k with counter := k.counter + 1 }
  if used.counter = rotationInterval then used.rotate else used

def encrypt (k : RotatingKey) (plain : Bytes) : Bytes :=
  Aead.encrypt k.key k.counter [] plain

/-- Decrypts `offset` counter values ahead, using none up. -/
def decryptAt (k : RotatingKey) (offset : UInt64) (sealed : Bytes) : Option Bytes :=
  Aead.decrypt k.key (k.counter + offset) [] sealed

/-- The line for a key that has just come to a fresh epoch. -/
def rotation (k : RotatingKey) (direction : Direction) : List Event :=
  if k.counter = 0 then [.rotated direction k.epoch] else []

end RotatingKey

end Bolt8
