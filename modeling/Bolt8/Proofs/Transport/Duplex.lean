import Bolt8.Proofs.Run
import Bolt8.Proofs.Transport.Stream

/-!
# Two ends of a connection

Each end has its channel and its reader, and the bytes sent to it wait on a
wire of their own. In any order, an end sends a message, takes in the front of
its wire, or hands out a message. `Flow` is what holds of one direction: what
was sent is what was handed out, what waits, and what is still coming, and the
buffer and the wire together hold the frames of exactly what is coming.
-/

namespace Bolt8

/-- A message that fits a frame. -/
abbrev Message := { bytes : Bytes // bytes.length ≤ maxMessageSize }

/-! ## Frames in a row -/

namespace RotatingKey

/-- The frames of these messages, one after the other. -/
def frames : RotatingKey → List Message → Bytes
  | _, [] => []
  | k, m :: ms => k.frame m.val ++ frames k.advance.advance ms

/-- The key after the frames of these messages. -/
def after (k : RotatingKey) (ms : List Message) : RotatingKey :=
  ms.foldl (fun k _ => k.advance.advance) k

theorem frames_append (k : RotatingKey) (ms more : List Message) :
    k.frames (ms ++ more) = k.frames ms ++ (k.after ms).frames more := by
  induction ms generalizing k with
  | nil => rfl
  | cons m ms ih =>
      rw [List.cons_append, frames, ih, frames, List.append_assoc]
      rfl

theorem frames_snoc (k : RotatingKey) (ms : List Message) (m : Message) :
    k.frames (ms ++ [m]) = k.frames ms ++ (k.after ms).frame m.val := by
  rw [frames_append, frames, frames, List.append_nil]

theorem after_snoc (k : RotatingKey) (ms : List Message) (m : Message) :
    k.after (ms ++ [m]) = (k.after ms).advance.advance := by
  simp [after]

theorem length_frames (k : RotatingKey) (ms : List Message) :
    (k.frames ms).length = Channel.framesSize (ms.map Subtype.val) := by
  induction ms generalizing k with
  | nil => rfl
  | cons m ms ih =>
      rw [frames, List.length_append, Channel.length_frame, ih]
      rfl

theorem length_frames_replicate (k : RotatingKey) (n : ℕ) (m : Message) :
    (k.frames (List.replicate n m)).length = n * Channel.frameSize m.val := by
  rw [length_frames, List.map_replicate, Channel.framesSize, List.map_replicate,
    List.sum_replicate_nat]

end RotatingKey

namespace Channel

/-- Ready for the next frame. -/
def BetweenFrames (c : Channel) : Prop := c.pending = none ∧ c.receiving.AtFrame

theorem betweenFrames_commit {c : Channel} (h : c.BetweenFrames) : c.commit.BetweenFrames :=
  ⟨rfl, RotatingKey.atFrame_advance_advance h.2⟩

theorem decryptFrame_nil {c : Channel} (h : c.BetweenFrames) :
    c.decryptFrame [] = ⟨.ok none, c, []⟩ := by
  unfold decryptFrame
  rw [h.1]
  rfl

variable {c c' : Channel} {stream later rest : Bytes} {ms : List Message}

/-- The front of an honest stream is incomplete, or its first frame is received. -/
theorem decryptFrame_front (hc : c.BetweenFrames)
    (hstream : stream ++ later = c.receiving.frames ms) :
    (c.decryptFrame stream).result = .ok none ∨
      ∃ m ms', ms = m :: ms' ∧ c.decryptFrame stream = ⟨.ok (some ⟨m.val, frameSize m.val⟩),
        c.commit, c.commit.receiving.rotation .receiving⟩ := by
  by_cases hnone : (c.decryptFrame stream).result = .ok none
  · exact .inl hnone
  have hsame := decryptFrame_append hnone later
  rw [hstream] at hsame
  cases ms with
  | nil =>
      rw [RotatingKey.frames, decryptFrame_nil hc] at hsame
      exact .inl (by rw [← hsame])
  | cons m ms =>
      exact .inr ⟨m, ms, rfl, hsame.symm.trans (decryptFrame_frame hc.1 hc.2 m.property _)⟩

/-- What is received of an honest stream is what was sent, and the rest is honest. -/
theorem receives_front {frames : List Framed} (h : c.Receives stream frames c' rest)
    (hc : c.BetweenFrames) (hstream : stream ++ later = c.receiving.frames ms) :
    ∃ coming, ms.map Subtype.val = frames.map Framed.message ++ coming.map Subtype.val ∧
      rest ++ later = c'.receiving.frames coming ∧
      c'.receiving.after coming = c.receiving.after ms ∧ c'.BetweenFrames := by
  induction h generalizing ms with
  | nil =>
      exact ⟨ms, rfl, hstream, rfl, hc⟩
  | @cons c stream f _ _ _ hframe _ ih =>
      rcases decryptFrame_front hc hstream with hnone | ⟨m, ms, rfl, hfront⟩
      · rw [hnone] at hframe
        exact nomatch hframe
      · rw [hfront] at hframe ih
        obtain ⟨hmessage, hsize⟩ := Received.mk.inj (Option.some.inj (Except.ok.inj hframe))
        rw [RotatingKey.frames, List.append_assoc] at hstream
        obtain ⟨-, hstream⟩ := List.append_inj hstream (by rw [length_frame, hsize])
        obtain ⟨coming, hms, hrest, hafter, hc'⟩ := ih (betweenFrames_commit hc) hstream
        exact ⟨coming, by rw [List.map_cons, hms, hmessage]; rfl, hrest, hafter, hc'⟩

end Channel

/-! ## Two ends -/

open Channel FrameReader

structure End where
  channel : Channel
  reader : FrameReader
  /-- The bytes on their way to this end. -/
  incoming : Bytes
  sent : List Bytes
  given : List Bytes
  /-- How many messages the last `ingest` left waiting. -/
  waiting : ℕ

structure Duplex where
  near : End
  far : End

/-- What an end does: send a message, take in the first `n` bytes from its
wire, or hand out a message. -/
inductive Action
  | send (message : Message)
  | ingest (n : ℕ)
  | next

inductive Move
  | near (action : Action)
  | far (action : Action)

def End.start (c : Channel) : End := ⟨c, .empty, [], [], [], 0⟩

namespace Duplex

def start (a b : Channel) : Duplex := ⟨.start a, .start b⟩

def swap (s : Duplex) : Duplex := ⟨s.far, s.near⟩

/-- An action of the near end. -/
def act (s : Duplex) : Action → Outcome Duplex Unit
  | .send message =>
    let out := s.near.channel.encrypt message.val
    let near := { s.near with channel := out.state }
    match out.result with
    | .ok frame =>
      ⟨.ok (), ⟨{ near with sent := near.sent ++ [message.val] },
        { s.far with incoming := s.far.incoming ++ frame }⟩, out.log⟩
    | .error e => ⟨.error e, { s with near }, out.log⟩
  | .ingest n =>
    let out := s.near.reader.ingest s.near.channel (s.near.incoming.take n)
    let near := { s.near with
      reader := out.state.1, channel := out.state.2, waiting := out.state.1.ready.length }
    match out.result with
    | .ok _ => ⟨.ok (), { s with near := { near with incoming := near.incoming.drop n } }, out.log⟩
    | .error .readerFull => ⟨.error .readerFull, { s with near }, out.log⟩
    | .error e =>
      ⟨.error e, { s with near := { near with incoming := near.incoming.drop n } }, out.log⟩
  | .next =>
    match s.near.reader.next? with
    | none => ⟨.ok (), s, []⟩
    | some (message, reader) =>
      ⟨.ok (), { s with near := { s.near with reader, given := s.near.given ++ [message] } }, []⟩

def move (s : Duplex) : Move → Outcome Duplex Unit
  | .near action => s.act action
  | .far action =>
    let out := s.swap.act action
    ⟨out.result, out.state.swap, out.log⟩

def after (s : Duplex) (m : Move) : Duplex := (s.move m).state

/-- The two ends after a sequence of moves. -/
def run (s : Duplex) (moves : List Move) : Duplex := moves.foldl after s

end Duplex

/-! ## One direction -/

/-- What was handed out is the front of what was sent. Once the wire is empty
and the last `ingest` left the reader a place, all that was sent is handed out
or waits, and nothing is buffered. -/
def Delivered (a b : End) : Prop :=
  b.given <+: a.sent ∧ (b.incoming = [] → b.waiting < readyMax →
    a.sent = b.given ++ b.reader.ready ∧ b.reader.pendingBytes = 0)

/-- From `a` to `b`, the messages `coming` are sent and not yet received. -/
structure Flow (a b : End) (coming : List Message) : Prop where
  receiver : b.channel.BetweenFrames
  messages : a.sent = b.given ++ b.reader.ready ++ coming.map Subtype.val
  bytes : b.reader.buffer ++ b.incoming = b.channel.receiving.frames coming
  sender : a.channel.sending = b.channel.receiving.after coming
  settled : b.waiting < readyMax → (b.channel.decryptFrame b.reader.buffer).result = .ok none

namespace Flow

variable {a b : End} {coming : List Message}

theorem start {a b : Channel} (hpending : b.pending = none)
    {key : Aead.Key} {chainingKey : Digest} (ha : a.sending = .start key chainingKey)
    (hb : b.receiving = .start key chainingKey) : Flow (End.start a) (End.start b) [] := by
  have hready : b.BetweenFrames := ⟨hpending, by rw [hb]; exact RotatingKey.atFrame_start ..⟩
  exact ⟨hready, rfl, rfl, ha.trans hb.symm, fun _ => by
    rw [End.start, FrameReader.empty, decryptFrame_nil hready]⟩

theorem delivered (h : Flow a b coming) : Delivered a b := by
  refine ⟨⟨_, by rw [h.messages, List.append_assoc]⟩, fun hincoming hwaiting => ?_⟩
  have hbytes := h.bytes
  have hsettled := h.settled hwaiting
  rw [hincoming, List.append_nil] at hbytes
  -- the buffer alone is all that is coming, and it does not begin with a whole frame
  rw [hbytes] at hsettled
  cases coming with
  | nil =>
      exact ⟨by simpa using h.messages, by rw [FrameReader.pendingBytes, hbytes]; rfl⟩
  | cons m ms =>
      rw [RotatingKey.frames, decryptFrame_frame h.receiver.1 h.receiver.2 m.property] at hsettled
      exact nomatch hsettled

/-! ## One action -/

theorem send (h : Flow a b coming) (m : Message) :
    Flow { a with
        channel := { a.channel with sending := a.channel.sending.advance.advance },
        sent := a.sent ++ [m.val] }
      { b with incoming := b.incoming ++ a.channel.sending.frame m.val } (coming ++ [m]) where
  receiver := h.receiver
  messages := by simp [h.messages]
  bytes := by rw [RotatingKey.frames_snoc, ← h.bytes, ← h.sender, List.append_assoc]
  sender := by rw [RotatingKey.after_snoc, ← h.sender]
  settled := h.settled

theorem congr_sender {a' : End} (h : Flow a b coming) (hsent : a'.sent = a.sent)
    (hsending : a'.channel.sending = a.channel.sending) : Flow a' b coming where
  receiver := h.receiver
  messages := by rw [hsent, h.messages]
  bytes := h.bytes
  sender := by rw [hsending, h.sender]
  settled := h.settled

theorem bytes_take (h : Flow a b coming) (n : ℕ) :
    b.reader.buffer ++ b.incoming.take n ++ b.incoming.drop n =
      b.channel.receiving.frames coming := by
  rw [List.append_assoc, List.take_append_drop, h.bytes]

/-- What the receiving end does as a sender is nothing to this direction. -/
theorem congr_receiver {c : Channel} {sent : List Bytes} (h : Flow a b coming)
    (hc : c.SameReceiving b.channel) : Flow a { b with channel := c, sent } coming where
  receiver := ⟨hc.2.trans h.receiver.1, by rw [hc.1]; exact h.receiver.2⟩
  messages := h.messages
  bytes := by rw [hc.1, h.bytes]
  sender := by rw [hc.1, h.sender]
  settled := fun hwaiting => (decryptFrame_congr hc _).1.trans (h.settled hwaiting)

theorem ingest {n : ℕ} {frames : List Framed} {c : Channel} {rest : Bytes} (h : Flow a b coming)
    (hreceives : b.channel.Receives (b.reader.buffer ++ b.incoming.take n) frames c rest)
    (hstop : frames.length = readyMax - b.reader.ready.length ∨
      (c.decryptFrame rest).result = .ok none) :
    ∃ left, Flow a { b with
        channel := c
        reader := ⟨rest, b.reader.ready ++ frames.map Framed.message⟩
        incoming := b.incoming.drop n
        waiting := (b.reader.ready ++ frames.map Framed.message).length } left := by
  obtain ⟨left, hleft, hrest, hafter, hc⟩ := receives_front hreceives h.receiver (h.bytes_take n)
  refine ⟨left, hc, ?_, hrest, h.sender.trans hafter.symm, fun hwaiting => ?_⟩
  · rw [h.messages, hleft]
    simp only [List.append_assoc]
  · -- fewer than eight wait, so it was not for want of places that decoding stopped
    refine hstop.resolve_left fun hfull => ?_
    simp only [List.length_append, List.length_map, hfull] at hwaiting
    omega

/-- What an honest wire brings never fails to open. -/
theorem not_failed {n : ℕ} {frames : List Framed} {c : Channel} {rest : Bytes} {e : Error}
    (h : Flow a b coming)
    (hreceives : b.channel.Receives (b.reader.buffer ++ b.incoming.take n) frames c rest) :
    (c.decryptFrame rest).result ≠ .error e := by
  obtain ⟨left, -, hrest, -, hc⟩ := receives_front hreceives h.receiver (h.bytes_take n)
  intro hfail
  rcases decryptFrame_front hc hrest with hnone | ⟨m, ms, -, hsome⟩
  · rw [hnone] at hfail
    exact nomatch hfail
  · rw [hsome] at hfail
    exact nomatch hfail

theorem next {m : Bytes} {ready : List Bytes} (h : Flow a b coming)
    (hready : b.reader.ready = m :: ready) :
    Flow a { b with reader := { b.reader with ready }, given := b.given ++ [m] } coming := by
  refine { h with messages := ?_ }
  rw [h.messages, hready]
  simp

end Flow

/-! ## Both directions -/

namespace Duplex

/-- Both directions flow. -/
def Linked (s : Duplex) : Prop :=
  (∃ there, Flow s.near s.far there) ∧ ∃ back, Flow s.far s.near back

theorem linked_start {a b : Channel} (h : a.Mirrored b) : (start a b).Linked := by
  obtain ⟨first, second, chainingKey, ha, hb, hb', ha', hpa, hpb⟩ := h
  exact ⟨⟨[], .start hpb ha hb⟩, [], .start hpa hb' ha'⟩

theorem linked_act {s : Duplex} (h : s.Linked) (action : Action) :
    (∀ e, (s.act action).result = .error e → e = .readerFull) ∧ (s.act action).state.Linked := by
  obtain ⟨⟨there, hthere⟩, back, hback⟩ := h
  cases action with
  | send m =>
      simp only [act, encrypt_eq s.near.channel m.property]
      refine ⟨nofun, ⟨there ++ [m], hthere.send m⟩, back, ?_⟩
      -- the way back sees a longer wire at its sender and another sending key at its receiver
      refine (hback.congr_receiver ?_).congr_sender rfl rfl
      exact ⟨rfl, rfl⟩
  | ingest n =>
      have hout := ingested_ingest s.near.reader s.near.channel (s.near.incoming.take n)
      unfold act
      dsimp only
      generalize s.near.reader.ingest s.near.channel (s.near.incoming.take n) = out at hout ⊢
      cases hout with
      | refused hpaused =>
          refine ⟨fun e heq => (Except.error.inj heq).symm, ⟨there, hthere.congr_sender rfl rfl⟩,
            back, { hback with settled := fun hwaiting => ?_ }⟩
          exact absurd hpaused (Nat.not_le_of_lt hwaiting)
      | decoded hreceives _ hstop =>
          obtain ⟨left, hleft⟩ := hback.ingest hreceives hstop
          have hsending := sending_of_receives hreceives
          exact ⟨nofun, ⟨there, hthere.congr_sender rfl hsending⟩, left, hleft⟩
      | failed hreceives _ _ hfail =>
          exact absurd hfail (hback.not_failed hreceives)
  | next =>
      unfold act next?
      cases hready : s.near.reader.ready with
      | nil =>
          exact ⟨nofun, ⟨there, hthere⟩, back, hback⟩
      | cons m ready =>
          exact ⟨nofun, ⟨there, hthere.congr_sender rfl rfl⟩, back, hback.next hready⟩

theorem linked_move {s : Duplex} (h : s.Linked) (m : Move) :
    (∀ e, (s.move m).result = .error e → e = .readerFull) ∧ (s.after m).Linked := by
  cases m with
  | near action =>
      exact linked_act h action
  | far action =>
      -- the far end acts as the near end of the swapped pair
      have hswap : s.swap.Linked := ⟨h.2, h.1⟩
      obtain ⟨herror, hthere, hback⟩ := linked_act hswap action
      exact ⟨herror, hback, hthere⟩

theorem delivery {a b : Channel} (h : a.Mirrored b) (moves : List Move) :
    let s := (start a b).run moves
    Always after (fun s m => ∀ e, (s.move m).result = .error e → e = .readerFull)
      (start a b) moves ∧
    Delivered s.near s.far ∧ Delivered s.far s.near := by
  intro s
  have hfree : Always after (fun _ _ => True) (start a b) moves := fun _ _ _ _ => trivial
  have hstep := fun (s : Duplex) m (hs : s.Linked) (_ : True) => (linked_move hs m).2
  obtain ⟨⟨there, hthere⟩, back, hback⟩ := invariant_run hstep (linked_start h) hfree
  refine ⟨?_, hthere.delivered, hback.delivered⟩
  exact always_of_invariant hstep (fun s m hs _ => (linked_move hs m).1) (linked_start h) hfree

theorem delivery_in_two_pieces :
    let chainingKey : Digest := ⟨List.replicate 32 7, rfl⟩
    let a : Channel := .ofKeys ⟨List.replicate 32 1, rfl⟩ ⟨List.replicate 32 2, rfl⟩ chainingKey
    let b : Channel := .ofKeys ⟨List.replicate 32 2, rfl⟩ ⟨List.replicate 32 1, rfl⟩ chainingKey
    let moves := [.near (.send ⟨[104, 105], by decide⟩), .far (.ingest 20), .far (.ingest 100),
      .far .next]
    let s := (start a b).run moves
    a.Mirrored b ∧ s.far.given = [[104, 105]] ∧
      s.near.sent = s.far.given ++ s.far.reader.ready := by
  intro chainingKey a b moves s
  have h : a.Mirrored b := ⟨_, _, chainingKey, rfl, rfl, rfl, rfl, rfl, rfl⟩
  have hincoming : s.far.incoming = [] := by decide +kernel
  have hwaiting : s.far.waiting < readyMax := by decide +kernel
  have hgiven : s.far.given = [[104, 105]] := by decide +kernel
  have hdelivered : Delivered s.near s.far := (delivery h moves).2.1
  exact ⟨h, hgiven, (hdelivered.2 hincoming hwaiting).1⟩

end Duplex

end Bolt8
