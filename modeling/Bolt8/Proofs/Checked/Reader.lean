import Bolt8.Proofs.Checked.Channel
import Bolt8.Proofs.Checked.Handshake
import Bolt8.Proofs.Transport.Intruder
import Bolt8.Proofs.Transport.Pause

/-!
# Nothing stops on what a peer sends

The reader decodes at an offset into its buffer, which never runs past the end.
With this, of all objects that calls can lead to, every call with any bytes
stays within the limits of the machine (`never_stops`).
-/

namespace Bolt8

namespace Checked

/-! ## The reader -/

/-- What was decoded, and how much of the buffer. -/
structure Scan where
  messages : List Bytes
  consumed : ℕ
  channel : Channel
  log : List Event
  stopped : Option Error

def scan : (places : ℕ) → Channel → Bytes → ℕ → Checked Scan
  | 0, c, _, consumed => return ⟨[], consumed, c, [], none⟩
  | places + 1, c, buffer, consumed => do
    let input ← slice buffer consumed buffer.length
    let out ← decryptFrame c input
    match out.result with
    | .error e => return ⟨[], consumed, out.state, out.log, some e⟩
    | .ok none => return ⟨[], consumed, out.state, out.log, none⟩
    | .ok (some frame) =>
      let consumed ← add consumed frame.size
      let later ← scan places out.state buffer consumed
      return { later with messages := frame.message :: later.messages, log := out.log ++ later.log }

/-- The sum is taken only while the reader is paused. -/
def isFull (r : FrameReader) (bytes : Bytes) : Checked Bool := do
  if r.isPaused then
    let total ← add r.buffer.length bytes.length
    return FrameReader.bufferMax < total
  else return false

def ingest (r : FrameReader) (c : Channel) (bytes : Bytes) :
    Checked (Outcome (FrameReader × Channel) Bool) := do
  if ← isFull r bytes then return ⟨.error .readerFull, (r, c), []⟩
  else
    let _ ← add r.buffer.length bytes.length
    let buffer := r.buffer ++ bytes
    let found ← scan (FrameReader.readyMax - r.ready.length) c buffer 0
    let ready := r.ready ++ found.messages
    match found.stopped with
    | some e => return ⟨.error e, (⟨buffer, ready⟩, found.channel), found.log⟩
    | none =>
      let rest ← drain buffer found.consumed
      return ⟨.ok (!ready.isEmpty), (⟨rest, ready⟩, found.channel), found.log⟩

/-- The offset stays within the buffer, and the rest is what lies behind it. -/
theorem scan_eq {places : ℕ} {c : Channel} {buffer : Bytes} {consumed : ℕ}
    (hreceiving : c.receiving.AtFrame) (hbuffer : buffer.length < UInt64.size)
    (hconsumed : consumed ≤ buffer.length)
    (hlasts : c.receiving.Lasts
      (FrameReader.decode places c (buffer.drop consumed)).messages.length) :
    let d := FrameReader.decode places c (buffer.drop consumed)
    ∃ consumed', consumed' ≤ buffer.length ∧ d.rest = buffer.drop consumed' ∧
      scan places c buffer consumed = .ok ⟨d.messages, consumed', d.channel, d.log, d.stopped⟩ := by
  induction places generalizing c consumed with
  | zero => exact ⟨consumed, hconsumed, rfl, rfl⟩
  | succ places ih =>
      have hslice : slice buffer consumed buffer.length = .ok (buffer.drop consumed) := by
        rw [slice_eq hconsumed (Nat.le_refl _), List.take_length]
      have hattempt := Channel.attempt_decryptFrame c (buffer.drop consumed)
      have hframe : c.receiving.Lasts
          (c.acceptedBy (.decryptFrame (buffer.drop consumed))).length →
          decryptFrame c (buffer.drop consumed) = .ok (c.decryptFrame (buffer.drop consumed)) :=
        decryptFrame_eq hreceiving
      simp only [FrameReader.decode, scan, hslice, ok_bind] at hlasts ⊢
      simp only [Channel.acceptedBy] at hframe
      generalize c.decryptFrame (buffer.drop consumed) = out at hattempt hlasts hframe
      cases hattempt with
      | busy | short | forgedLength | incomplete | forgedBody =>
          rw [hframe hlasts]
          exact ⟨consumed, hconsumed, rfl, rfl⟩
      | @whole length message hpending hannounces hlong hopen =>
          have hsize : consumed + (sealedLengthSize + length.toNat + Aead.tagSize) ≤
              buffer.length := by
            rw [List.length_drop] at hlong
            omega
          have hroom := add_eq (Nat.lt_of_le_of_lt hsize hbuffer)
          simp only [List.drop_drop, List.length_cons] at hlasts
          have hone : c.receiving.Lasts 1 := by
            unfold RotatingKey.Lasts at hlasts ⊢
            omega
          have hatFrame : c.commit.receiving.AtFrame :=
            RotatingKey.atFrame_advance_advance hreceiving
          have hlater := lasts_advance_advance hreceiving hlasts
          obtain ⟨consumed', hconsumed', hrest, hscan⟩ := ih hatFrame hsize hlater
          rw [hframe hone, ok_bind]
          simp only [hroom, ok_bind, hscan, List.drop_drop]
          exact ⟨consumed', hconsumed', hrest, rfl⟩

section

variable {r : FrameReader} {c : Channel} {bytes : Bytes}

theorem isFull_eq (hroom : r.buffer.length + bytes.length < UInt64.size) :
    isFull r bytes =
      .ok (decide (r.isPaused ∧ FrameReader.bufferMax < r.buffer.length + bytes.length)) := by
  unfold isFull
  by_cases hpaused : r.isPaused
  · rw [if_pos hpaused, add_eq hroom]
    simp [hpaused, pure, Except.pure]
  · rw [if_neg hpaused]
    simp [hpaused, pure, Except.pure]

theorem ingest_eq (hreceiving : c.receiving.AtFrame) (hbuffer : r.buffer.length < 2 ^ 63)
    (hbytes : bytes.length < 2 ^ 63)
    (hlasts : c.receiving.Lasts
      ((r.ingest c bytes).state.1.ready.length - r.ready.length)) :
    ingest r c bytes = .ok (r.ingest c bytes) := by
  have hroom : r.buffer.length + bytes.length < UInt64.size := by
    rw [UInt64.size]
    omega
  unfold ingest FrameReader.ingest at *
  rw [isFull_eq hroom, ok_bind]
  by_cases hfull : r.isPaused ∧ FrameReader.bufferMax < r.buffer.length + bytes.length
  · rw [if_pos (decide_eq_true hfull), if_pos hfull]
    rfl
  · have hwhole : (r.buffer ++ bytes).length < UInt64.size := by
      rwa [List.length_append]
    have hscan := @scan_eq (FrameReader.readyMax - r.ready.length) c (r.buffer ++ bytes) 0
      hreceiving hwhole (Nat.zero_le _)
    have hopen : ¬ decide (r.isPaused ∧
        FrameReader.bufferMax < r.buffer.length + bytes.length) = true := by
      rwa [decide_eq_true_iff]
    rw [List.drop_zero] at hscan
    rw [if_neg hfull] at hlasts
    rw [if_neg hopen, if_neg hfull, add_eq hroom, ok_bind]
    dsimp only at hlasts hscan ⊢
    generalize FrameReader.decode _ c (r.buffer ++ bytes) = d at hlasts hscan ⊢
    have hmore : c.receiving.Lasts d.messages.length := by
      cases hstopped : d.stopped <;> simpa [hstopped] using hlasts
    obtain ⟨consumed, hle, hrest, hscan⟩ := hscan hmore
    rw [hscan, ok_bind]
    dsimp only
    cases hstopped : d.stopped with
    | some e => rfl
    | none =>
        rw [drain_eq hle, ← hrest]
        rfl

end

/-! ## All objects -/

/-- Whatever calls have led to an object, the next call stays within the limits,
while the numbers of the epochs last and buffers are as large as they can be;
what it gives is what it gives without them. -/
theorem never_stops :
    (∀ setup, openHandshake setup = .ok (.start setup)) ∧
    (∀ (setup : Setup) (calls : List Handshake.Call) (c : Handshake.Call),
      let h := (Handshake.start setup).run calls
      call h c = .ok (h.call c) ∧ ∀ act, h.written c = some act → act.length = c.act.size) ∧
    [Act.one, .two, .three].map Act.size = [50, 50, 66] ∧
    (∀ key counter data plain,
      (Aead.encrypt key counter data plain).length = plain.length + 16) ∧
    ∀ c : Channel, c.Reachable →
      (∀ message, c.sending.Lasts (c.sentBy (.encrypt message)).length →
        encryptFrame c message = .ok (c.encrypt message)) ∧
      (∀ sealed, decryptLength c sealed = .ok (c.decryptLength sealed) ∧
        ∀ plain, c.receiving.decryptAt 0 sealed.val = some plain → plain.length = 2) ∧
      (∀ sealed, c.receiving.Lasts (c.acceptedBy (.decryptMessage sealed)).length →
        decryptMessage c sealed = .ok (c.decryptMessage sealed)) ∧
      (∀ input, c.receiving.Lasts (c.acceptedBy (.decryptFrame input)).length →
        decryptFrame c input = .ok (c.decryptFrame input)) ∧
      ∀ (r : FrameReader) (bytes : Bytes), r.buffer.length < 2 ^ 63 → bytes.length < 2 ^ 63 →
        c.receiving.Lasts ((r.ingest c bytes).state.1.ready.length - r.ready.length) →
        ingest r c bytes = .ok (r.ingest c bytes) ∧ (r.ingest c bytes).state.2.Reachable := by
  refine ⟨openHandshake_eq, ?_, rfl, Aead.length_encrypt, ?_⟩
  · intro setup calls c
    have hcame := Handshake.came_run setup calls
    exact ⟨call_eq hcame c, fun act => length_of_written hcame⟩
  · intro c hc
    obtain ⟨hsending, hreceiving⟩ := Channel.atFrame_of_reachable hc
    refine ⟨fun message => encryptFrame_eq hsending, ?_, fun sealed => decryptMessage_eq hreceiving,
      fun input => decryptFrame_eq hreceiving, ?_⟩
    · intro sealed
      exact ⟨decryptLength_eq hreceiving sealed, fun plain => length_of_decryptAt⟩
    · intro r bytes hbuffer hbytes hlasts
      exact ⟨ingest_eq hreceiving hbuffer hbytes hlasts, FrameReader.reachable_ingest hc r bytes⟩

theorem length_ready_of_frames {c : Channel} (hc : c.BetweenFrames) (m : Message)
    (tail : Bytes) :
    (FrameReader.empty.ingest c
      (c.receiving.frames (List.replicate FrameReader.readyMax m) ++ tail)).state.1.ready.length =
        FrameReader.readyMax := by
  have hms : (List.replicate FrameReader.readyMax m).length = FrameReader.readyMax :=
    List.length_replicate
  generalize List.replicate FrameReader.readyMax m = ms at hms
  have hroom : FrameReader.empty.ready.length < FrameReader.readyMax := by decide
  have hfill : FrameReader.empty.ready.length + ms.length = FrameReader.readyMax := by
    rw [hms]
    exact Nat.zero_add _
  obtain ⟨_, -, -, hstate⟩ := FrameReader.ingest_frames hc hroom hfill
    (List.nil_append (c.receiving.frames ms ++ tail))
  rw [hstate, List.length_append, List.length_map]
  exact hfill

/-- A piece with eight frames, which fill the queue, and the beginning of a ninth. -/
theorem never_stops_in_full_queue :
    let c : Channel :=
      .ofKeys ⟨List.replicate 32 1, rfl⟩ ⟨List.replicate 32 2, rfl⟩ ⟨List.replicate 32 7, rfl⟩
    let piece := c.receiving.frames (List.replicate FrameReader.readyMax ⟨[], Nat.zero_le _⟩) ++
      [0, 0, 0]
    let out := FrameReader.empty.ingest c piece
    (c.Reachable ∧ c.sending.Lasts (c.sentBy (.encrypt [])).length ∧
      piece.length < 2 ^ 63 ∧
      c.receiving.Lasts (out.state.1.ready.length - FrameReader.empty.ready.length)) ∧
    encryptFrame c [] = .ok (c.encrypt []) ∧
    ingest .empty c piece = .ok out ∧ out.state.1.ready.length = 8 := by
  intro c piece out
  have hc : c.Reachable := .ofKeys ..
  have hfresh : c.BetweenFrames := ⟨rfl, RotatingKey.atFrame_start ..⟩
  have hlasts : ∀ frames, frames ≤ 8 → c.sending.Lasts frames ∧ c.receiving.Lasts frames := by
    intro frames hle
    have hfew : frames < 500 * UInt64.size := Nat.lt_of_le_of_lt hle (by decide)
    exact ⟨RotatingKey.lasts_start _ _ hfew, RotatingKey.lasts_start _ _ hfew⟩
  clear_value c
  have hone : c.sending.Lasts (c.sentBy (.encrypt [])).length := by
    rw [Channel.sentBy, Channel.encrypt_eq c (Nat.zero_le _)]
    exact (hlasts 1 (by decide)).1
  have hpiece : piece.length < 2 ^ 63 := by
    rw [List.length_append, RotatingKey.length_frames_replicate]
    decide
  have hready : out.state.1.ready.length = 8 := length_ready_of_frames hfresh _ _
  clear_value piece
  have height : c.receiving.Lasts
      (out.state.1.ready.length - FrameReader.empty.ready.length) := by
    rw [hready]
    exact (hlasts _ (Nat.sub_le _ _)).2
  obtain ⟨-, -, -, -, hchannel⟩ := never_stops
  obtain ⟨hencrypt, -, -, -, hingest⟩ := hchannel c hc
  exact ⟨⟨hc, hone, hpiece, height⟩, hencrypt [] hone,
    (hingest .empty piece (by decide) hpiece height).1, hready⟩

end Checked

end Bolt8
