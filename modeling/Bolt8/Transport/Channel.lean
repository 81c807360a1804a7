import Bolt8.Transcript
import Bolt8.Transport.RotatingKey

/-!
# The encrypted channel

A message travels as one frame: its length as two sealed bytes, then the
sealed message. A frame can be received whole, or its length first and its
message after; the receiving key moves on only when the message has opened, so
an attempt that fails can be repeated.
-/

namespace Bolt8

/-- The size of a sealed length. -/
def sealedLengthSize : Nat := 2 + Aead.tagSize

/-- The size of the largest message whose length fits two bytes. -/
def maxMessageSize : Nat := 65535

structure Channel where
  sending : RotatingKey
  receiving : RotatingKey
  /-- A length received, whose message is still to come. -/
  pending : Option UInt16
  handshakeHash : Option Digest
  deriving DecidableEq

/-- A message, and the size of the frame it came in. -/
structure Received where
  message : Bytes
  size : Nat
  deriving DecidableEq

namespace Channel

/-! ## Opening a channel -/

/-- A channel on given keys, bound to no handshake. -/
def ofKeys (sending receiving : Aead.Key) (chainingKey : Digest) : Channel :=
  ⟨.start sending chainingKey, .start receiving chainingKey, none, none⟩

/-- The initiator sends with the first key, the responder with the second. -/
def ofSplit (keys : TransportKeys) : Role → Channel
  | .initiator =>
    { ofKeys keys.first keys.second keys.chainingKey with handshakeHash := some keys.hash }
  | .responder =>
    { ofKeys keys.second keys.first keys.chainingKey with handshakeHash := some keys.hash }

/-! ## Sending -/

def encrypt (c : Channel) (message : Bytes) : Outcome Channel Bytes :=
  if maxMessageSize < message.length then
    ⟨.error (.messageTooLarge message.length), c, []⟩
  else
    let header := c.sending.encrypt (Bytes.ofNatBE 2 message.length)
    let body := c.sending.advance.encrypt message
    let sending := c.sending.advance.advance
    ⟨.ok (header ++ body), { c with sending }, sending.rotation .sending⟩

/-! ## Receiving -/

/-- The length that a sealed length announces, if it is authentic. -/
def announced (c : Channel) (sealed : FixedBytes 18) : Option UInt16 :=
  (c.receiving.decryptAt 0 sealed.val).map fun bs => UInt16.ofNat (Bytes.toNatBE bs)

/-- The channel after a whole frame has been received. -/
def commit (c : Channel) : Channel :=
  { c with receiving := c.receiving.advance.advance, pending := none }

/-- Receives the length of the next frame, in place of any still pending. -/
def decryptLength (c : Channel) (sealed : FixedBytes 18) : Outcome Channel UInt16 :=
  match c.announced sealed with
  | none => ⟨.error .notAuthentic, { c with pending := none }, []⟩
  | some length => ⟨.ok length, { c with pending := some length }, []⟩

/-- Receives the message whose length is pending. -/
def decryptMessage (c : Channel) (sealed : Bytes) : Outcome Channel Bytes :=
  match c.pending with
  | none => ⟨.error .outOfTurn, c, []⟩
  | some length =>
    let expected := length.toNat + Aead.tagSize
    if sealed.length ≠ expected then ⟨.error (.bodySize expected sealed.length), c, []⟩
    else
      match c.receiving.decryptAt 1 sealed with
      | none => ⟨.error .notAuthentic, c, []⟩
      | some message => ⟨.ok message, c.commit, c.commit.receiving.rotation .receiving⟩

/-- Receives one whole frame from the front of `input`, or `none` while it is incomplete. -/
def decryptFrame (c : Channel) (input : Bytes) : Outcome Channel (Option Received) :=
  if c.pending.isSome then ⟨.error .outOfTurn, c, []⟩
  else
    match FixedBytes.firstOf? 18 input with
    | none => ⟨.ok none, c, []⟩
    | some sealed =>
      match c.announced sealed with
      | none => ⟨.error .notAuthentic, c, []⟩
      | some length =>
        let size := sealedLengthSize + length.toNat + Aead.tagSize
        if input.length < size then ⟨.ok none, c, []⟩
        else
          match c.receiving.decryptAt 1 ((input.take size).drop sealedLengthSize) with
          | none => ⟨.error .notAuthentic, c, []⟩
          | some message =>
            ⟨.ok (some ⟨message, size⟩), c.commit, c.commit.receiving.rotation .receiving⟩

/-! ## Inspection -/

/-- What a frame is longer than its message. -/
def overhead (_ : Channel) : Nat := sealedLengthSize + Aead.tagSize

/-- The counters, and no key. -/
def summary (c : Channel) : String :=
  s!"TransportCipher \x7b send_nonce: {c.sending.counter.toNat}, " ++
  s!"send_epoch: {c.sending.epoch.toNat}, recv_nonce: {c.receiving.counter.toNat}, " ++
  s!"recv_epoch: {c.receiving.epoch.toNat}, .. \x7d"

end Channel

end Bolt8
