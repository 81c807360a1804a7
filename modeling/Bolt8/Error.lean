import Bolt8.Handshake.Stage

/-!
# Errors

One constructor for each cause. All but `outOfTurn` and `messageTooLarge` come
from what a peer sent, or from key material out of range.
-/

namespace Bolt8

inductive Error
  /-- A call out of sequence, or after the handshake failed. -/
  | outOfTurn
  /-- An act of the wrong size. -/
  | actSize (act : Act) (expected actual : Nat)
  /-- An act with an unknown version byte. -/
  | actVersion (act : Act) (version : UInt8)
  /-- Bytes that are no compressed point. -/
  | malformedKey
  /-- A secret that is zero or not below the order of the curve. -/
  | secretOutOfRange
  /-- A tag that does not verify. -/
  | notAuthentic
  /-- A message that its two-byte length cannot announce. -/
  | messageTooLarge (size : Nat)
  /-- A body that is not of the announced length. -/
  | bodySize (expected actual : Nat)
  /-- More bytes than a paused reader holds. -/
  | readerFull
  deriving DecidableEq

def Error.message : Error → String
  | outOfTurn => "operation not valid in current state"
  | actSize act expected actual =>
    s!"act {act.number} read failed: expected {expected} bytes, got {actual}"
  | actVersion act version => s!"act {act.number} bad version {version.toNat}"
  | malformedKey => "the public key could not be parsed or is invalid"
  | secretOutOfRange => "the secret key is out of range"
  | notAuthentic => "unable to authenticate"
  | messageTooLarge size => s!"message too large: {size} bytes (max 65535)"
  | bodySize expected actual => s!"ciphertext body is {actual} bytes, expected {expected}"
  | readerFull => "frame buffer full: drain ready messages first"

end Bolt8
