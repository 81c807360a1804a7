import Bolt8.Aead
import Bolt8.Error

/-!
# The temporary key

The key that is in force inside a handshake, with the counter of its uses.
Nothing is encrypted before the first key is installed, each new key starts at
counter 0, and a failed decryption does not count as a use.
-/

namespace Bolt8

structure TempKey where
  key : Option Aead.Key
  counter : UInt64
  deriving DecidableEq

namespace TempKey

def empty : TempKey := ⟨none, 0⟩

def install (key : Aead.Key) : TempKey := ⟨some key, 0⟩

def advance (k : TempKey) : TempKey := { k with counter := k.counter + 1 }

/-- The sealed text and the key after this use. -/
def encrypt (k : TempKey) (data plain : Bytes) : Except Error (Bytes × TempKey) :=
  match k.key with
  | none => .error .outOfTurn
  | some key => .ok (Aead.encrypt key k.counter data plain, k.advance)

/-- The plain text and the key after this use. -/
def decrypt (k : TempKey) (data sealed : Bytes) : Except Error (Bytes × TempKey) :=
  match k.key with
  | none => .error .outOfTurn
  | some key =>
    match Aead.decrypt key k.counter data sealed with
    | none => .error .notAuthentic
    | some plain => .ok (plain, k.advance)

end TempKey

end Bolt8
