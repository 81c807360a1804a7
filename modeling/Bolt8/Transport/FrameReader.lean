import Bolt8.Transport.Channel

/-!
# Reading frames from a stream

Bytes arrive in pieces of any size. The reader keeps what is not yet decoded
and up to eight messages not yet taken; with eight waiting it pauses, and then
refuses a piece that would leave it with more bytes than the largest frame has.
-/

namespace Bolt8

structure FrameReader where
  /-- Bytes not yet decoded. -/
  buffer : Bytes
  /-- Messages not yet taken, oldest first. -/
  ready : List Bytes
  deriving DecidableEq

/-- What was found at the front of a string of frames, and what stopped the search. -/
structure Decoded where
  messages : List Bytes
  rest : Bytes
  channel : Channel
  log : List Event
  stopped : Option Error

namespace FrameReader

/-- How many messages may wait. -/
def readyMax : Nat := 8

/-- A paused reader takes in nothing that would leave it with more undecoded bytes. -/
def bufferMax : Nat := sealedLengthSize + maxMessageSize + Aead.tagSize

def empty : FrameReader := ⟨[], []⟩

def isPaused (r : FrameReader) : Bool := readyMax ≤ r.ready.length

/-- Receives frame after frame while there are places, up to a frame that is
incomplete or fails. -/
def decode : (places : Nat) → Channel → Bytes → Decoded
  | 0, c, input => ⟨[], input, c, [], none⟩
  | places + 1, c, input =>
    let out := c.decryptFrame input
    match out.result with
    | .error e => ⟨[], input, out.state, out.log, some e⟩
    | .ok none => ⟨[], input, out.state, out.log, none⟩
    | .ok (some frame) =>
      let later := decode places out.state (input.drop frame.size)
      { later with messages := frame.message :: later.messages, log := out.log ++ later.log }

/-- Takes in bytes and decodes all they complete; says whether a message waits.
Decoded bytes are dropped together at the end, so a frame that fails leaves in
place also those decoded before it in this call. -/
def ingest (r : FrameReader) (c : Channel) (bytes : Bytes) :
    Outcome (FrameReader × Channel) Bool :=
  if r.isPaused ∧ bufferMax < r.buffer.length + bytes.length then
    ⟨.error .readerFull, (r, c), []⟩
  else
    let input := r.buffer ++ bytes
    let decoded := decode (readyMax - r.ready.length) c input
    let ready := r.ready ++ decoded.messages
    match decoded.stopped with
    | some e => ⟨.error e, (⟨input, ready⟩, decoded.channel), decoded.log⟩
    | none => ⟨.ok (!ready.isEmpty), (⟨decoded.rest, ready⟩, decoded.channel), decoded.log⟩

/-- The oldest waiting message, and the reader without it. -/
def next? (r : FrameReader) : Option (Bytes × FrameReader) :=
  match r.ready with
  | [] => none
  | message :: ready => some (message, { r with ready })

/-- The number of undecoded bytes. -/
def pendingBytes (r : FrameReader) : Nat := r.buffer.length

/-! ## Inspection -/

/-- A list in brackets. -/
def listText (items : List String) : String := "[" ++ ", ".intercalate items ++ "]"

def bytesText (bs : Bytes) : String := listText (bs.map fun b => toString b.toNat)

/-- The undecoded bytes and the waiting messages, in decimal. -/
def summary (r : FrameReader) : String :=
  s!"FrameDecoder \x7b buffer: {bytesText r.buffer}, " ++
  s!"messages_ready: {listText (r.ready.map bytesText)} \x7d"

end FrameReader

end Bolt8
