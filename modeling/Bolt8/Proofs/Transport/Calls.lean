import Bolt8.Proofs.Transport.Attempt
import Mathlib.Data.List.Induction

/-!
# A channel in use

Four calls on a channel, in any order and with any arguments. A call sends one
message, receives one, or does neither, and a key moves on by one frame exactly
when a message went through it (`does_use`). So a key is never left in the
middle of a frame (`atFrame_of_reachable`).
-/

namespace Bolt8

/-- A sealed text, with the epoch and the counter value it is sealed or opened at. -/
structure Segment where
  epoch : UInt64
  counter : UInt64
  bytes : Bytes
  deriving DecidableEq

namespace RotatingKey

/-- The two texts of a frame. -/
def segments (k : RotatingKey) (message : Bytes) : List Segment :=
  [⟨k.epoch, k.counter, k.encrypt (Bytes.ofNatBE 2 message.length)⟩,
    ⟨k.advance.epoch, k.advance.counter, k.advance.encrypt message⟩]

end RotatingKey

namespace Channel

inductive Call
  | encrypt (message : Bytes)
  | decryptLength (sealed : FixedBytes 18)
  | decryptMessage (sealed : Bytes)
  | decryptFrame (input : Bytes)

/-- The channel that a call leaves behind. -/
def after (c : Channel) : Call → Channel
  | .encrypt message => (c.encrypt message).state
  | .decryptLength sealed => (c.decryptLength sealed).state
  | .decryptMessage sealed => (c.decryptMessage sealed).state
  | .decryptFrame input => (c.decryptFrame input).state

/-- The message for which a call makes a frame, if it does. -/
def sentBy (c : Channel) : Call → List Bytes
  | .encrypt message =>
    match (c.encrypt message).result with
    | .ok _ => [message]
    | .error _ => []
  | .decryptLength _ | .decryptMessage _ | .decryptFrame _ => []

/-- The message that a call receives, if it does. -/
def acceptedBy (c : Channel) : Call → List Bytes
  | .decryptMessage sealed =>
    match (c.decryptMessage sealed).result with
    | .ok message => [message]
    | .error _ => []
  | .decryptFrame input =>
    match (c.decryptFrame input).result with
    | .ok (some frame) => [frame.message]
    | .ok none | .error _ => []
  | .encrypt _ | .decryptLength _ => []

/-- The texts that a call seals. -/
def sealedBy (c : Channel) : Call → List Segment
  | .encrypt message =>
    if maxMessageSize < message.length then [] else c.sending.segments message
  | .decryptLength _ | .decryptMessage _ | .decryptFrame _ => []

/-- Joined, they are the frame. -/
theorem flatten_sealedBy {c : Channel} {message frame : Bytes}
    (h : (c.encrypt message).result = .ok frame) :
    ((c.sealedBy (.encrypt message)).map Segment.bytes).flatten = frame := by
  by_cases hlarge : maxMessageSize < message.length
  · rw [encrypt, if_pos hlarge] at h
    cases h
  · rw [encrypt_eq c (Nat.le_of_not_lt hlarge)] at h
    rw [sealedBy, if_neg hlarge, ← Except.ok.inj h]
    simp [RotatingKey.segments, RotatingKey.frame]

/-- The texts that a call tries to open, each so many counter values ahead. -/
def triedBy (c : Channel) : Call → List (UInt64 × Bytes)
  | .encrypt _ => []
  | .decryptLength sealed => [(0, sealed.val)]
  | .decryptMessage sealed =>
    match c.pending with
    | none => []
    | some length => if sealed.length = length.toNat + Aead.tagSize then [(1, sealed)] else []
  | .decryptFrame input =>
    if c.pending.isSome then []
    else
      match FixedBytes.firstOf? 18 input with
      | none => []
      | some sealed =>
        (0, sealed.val) ::
          match c.announced sealed with
          | none => []
          | some length =>
            if input.length < sealedLengthSize + length.toNat + Aead.tagSize then []
            else [(1, body input length)]

/-- Those of them that open. -/
def openedBy (c : Channel) (d : Call) : List Segment :=
  (c.triedBy d).filterMap fun (offset, bytes) =>
    (c.receiving.decryptAt offset bytes).map fun _ =>
      ⟨c.receiving.epoch, c.receiving.counter + offset, bytes⟩

theorem mem_openedBy {c : Channel} {d : Call} {offset : UInt64} {bytes plain : Bytes}
    (htried : (offset, bytes) ∈ c.triedBy d)
    (hopen : c.receiving.decryptAt offset bytes = some plain) :
    ⟨c.receiving.epoch, c.receiving.counter + offset, bytes⟩ ∈ c.openedBy d := by
  refine List.mem_filterMap.2 ⟨_, htried, ?_⟩
  simp only [hopen, Option.map_some]

end Channel

/-! ## What a call does -/

/-- A channel, and all that it has sent, received, sealed and opened. -/
structure Usage where
  channel : Channel
  sent : List Bytes
  accepted : List Bytes
  sealed : List Segment
  opened : List Segment

namespace Channel

/-- The channel after one call, and what happened in it. -/
def use (c : Channel) (d : Call) : Usage :=
  ⟨c.after d, c.sentBy d, c.acceptedBy d, c.sealedBy d, c.openedBy d⟩

/-- What a call can do: send a message, receive one whose text it has opened,
or neither. -/
inductive Does (c : Channel) : Call → Usage → Prop
  | send {message : Bytes} :
      message.length ≤ maxMessageSize →
      Does c (.encrypt message)
        ⟨{ c with sending := c.sending.advance.advance }, [message], [],
          c.sending.segments message, []⟩
  | receive {d : Call} {bytes message : Bytes} {opened : List Segment} :
      ⟨c.receiving.epoch, c.receiving.counter + 1, bytes⟩ ∈ opened →
      c.receiving.decryptAt 1 bytes = some message →
      Does c d ⟨c.commit, [], [message], [], opened⟩
  | neither {d : Call} {pending : Option UInt16} {opened : List Segment} :
      Does c d ⟨{ c with pending }, [], [], [], opened⟩

theorem does_encrypt (c : Channel) (message : Bytes) :
    Does c (.encrypt message) (c.use (.encrypt message)) := by
  by_cases h : maxMessageSize < message.length
  · simp only [use, after, sentBy, acceptedBy, sealedBy, encrypt, if_pos h]
    exact .neither
  · simp only [use, after, sentBy, acceptedBy, sealedBy, if_neg h,
      encrypt_eq c (Nat.le_of_not_lt h)]
    exact .send (Nat.le_of_not_lt h)

theorem does_decryptLength (c : Channel) (sealed : FixedBytes 18) :
    Does c (.decryptLength sealed) (c.use (.decryptLength sealed)) := by
  simp only [use, after, sentBy, acceptedBy, sealedBy, decryptLength]
  cases c.announced sealed <;> exact .neither

theorem does_decryptMessage (c : Channel) (sealed : Bytes) :
    Does c (.decryptMessage sealed) (c.use (.decryptMessage sealed)) := by
  have hopened : ∀ {length message}, c.pending = some length →
      sealed.length = length.toNat + Aead.tagSize →
      c.receiving.decryptAt 1 sealed = some message →
      ⟨c.receiving.epoch, c.receiving.counter + 1, sealed⟩ ∈
        c.openedBy (.decryptMessage sealed) := by
    intro length message hpending hsize hopen
    refine mem_openedBy ?_ hopen
    simp only [triedBy, hpending, if_pos hsize, List.mem_singleton]
  have hattempt := attempt_decryptMessage c sealed
  simp only [use, after, sentBy, acceptedBy, sealedBy]
  generalize c.decryptMessage sealed = out at hattempt ⊢
  cases hattempt with
  | early | misfit | forged => exact .neither
  | received hpending hsize hopen => exact .receive (hopened hpending hsize hopen) hopen

theorem does_decryptFrame (c : Channel) (input : Bytes) :
    Does c (.decryptFrame input) (c.use (.decryptFrame input)) := by
  have hopened : ∀ {length message}, c.pending = none → c.Announces input length →
      sealedLengthSize + length.toNat + Aead.tagSize ≤ input.length →
      c.receiving.decryptAt 1 (body input length) = some message →
      ⟨c.receiving.epoch, c.receiving.counter + 1, body input length⟩ ∈
        c.openedBy (.decryptFrame input) := by
    rintro length message hpending ⟨sealed, hfirst, hannounced⟩ hlong hopen
    refine mem_openedBy ?_ hopen
    simp only [triedBy, hpending, Option.isSome_none, hfirst, hannounced, Bool.false_eq_true,
      if_false, if_neg (Nat.not_lt_of_le hlong), List.mem_cons, true_or, or_true]
  have hattempt := attempt_decryptFrame c input
  simp only [use, after, sentBy, acceptedBy, sealedBy]
  generalize c.decryptFrame input = out at hattempt ⊢
  cases hattempt with
  | busy | short | forgedLength | incomplete | forgedBody => exact .neither
  | whole hpending hannounces hlong hopen =>
      exact .receive (hopened hpending hannounces hlong hopen) hopen

theorem does_use (c : Channel) (d : Call) : Does c d (c.use d) := by
  cases d with
  | encrypt message => exact does_encrypt c message
  | decryptLength sealed => exact does_decryptLength c sealed
  | decryptMessage sealed => exact does_decryptMessage c sealed
  | decryptFrame input => exact does_decryptFrame c input

/-! ## Channels that calls lead to -/

/-- A fresh channel, or one that a sequence of calls leads to from there. -/
inductive Reachable : Channel → Prop
  | ofKeys (sending receiving : Aead.Key) (chainingKey : Digest) :
      Reachable (.ofKeys sending receiving chainingKey)
  | ofSplit (keys : TransportKeys) (role : Role) :
      Reachable (.ofSplit keys role)
  | after {c : Channel} (h : Reachable c) (d : Call) :
      Reachable (c.after d)

theorem atFrame_of_reachable {c : Channel} (h : c.Reachable) :
    c.sending.AtFrame ∧ c.receiving.AtFrame := by
  induction h with
  | ofKeys =>
      exact ⟨RotatingKey.atFrame_start .., RotatingKey.atFrame_start ..⟩
  | ofSplit keys role =>
      cases role <;> exact ⟨RotatingKey.atFrame_start .., RotatingKey.atFrame_start ..⟩
  | @after c _ d ih =>
      obtain ⟨hsending, hreceiving⟩ := ih
      have hdoes := does_use c d
      show (c.use d).channel.sending.AtFrame ∧ (c.use d).channel.receiving.AtFrame
      generalize c.use d = out at hdoes ⊢
      cases hdoes with
      | send => exact ⟨RotatingKey.atFrame_advance_advance hsending, hreceiving⟩
      | receive => exact ⟨hsending, RotatingKey.atFrame_advance_advance hreceiving⟩
      | neither => exact ⟨hsending, hreceiving⟩

end Channel

/-! ## Runs -/

open Channel

namespace Usage

def start (c : Channel) : Usage := ⟨c, [], [], [], []⟩

def call (u : Usage) (d : Channel.Call) : Usage :=
  let out := u.channel.use d
  ⟨out.channel, u.sent ++ out.sent, u.accepted ++ out.accepted, u.sealed ++ out.sealed,
    u.opened ++ out.opened⟩

/-- The channel after a sequence of calls. -/
def run (u : Usage) (calls : List Channel.Call) : Usage := calls.foldl call u

theorem run_snoc (u : Usage) (calls : List Channel.Call) (d : Channel.Call) :
    u.run (calls ++ [d]) = (u.run calls).call d := by
  rw [run, List.foldl_append]
  rfl

end Usage

end Bolt8
