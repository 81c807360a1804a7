import Bolt8.Proofs.Transport.Accept
import Bolt8.Proofs.Transport.Pause

/-!
# The turns of the reader's loop

What `ingest` decodes it decodes in turns, one frame to each. A turn adds a
message to the queue and takes its frame off the bytes to decode, so there is a
last one, and both the places in the queue and the bytes say how far off it can
be. What the reader is left with is what the last turn leaves (`ingest_eq_last`),
and no call brings queue, turns or an unpaused buffer past their limits
(`limits`).
-/

namespace Bolt8

open Channel FrameReader

/-- The loop between two turns: the waiting messages, the bytes still to be
decoded, and the channel. -/
structure Pass where
  ready : List Bytes
  rest : Bytes
  channel : Channel

namespace Pass

/-- The next turn, if the loop goes on. -/
def turn? (p : Pass) : Option Pass :=
  if readyMax ≤ p.ready.length then none
  else
    let out := p.channel.decryptFrame p.rest
    match out.result with
    | .ok (some frame) => some ⟨p.ready ++ [frame.message], p.rest.drop frame.size, out.state⟩
    | .ok none | .error _ => none

/-- The error that the loop stops at, if it does so at one. -/
def failure? (p : Pass) : Option Error :=
  if readyMax ≤ p.ready.length then none
  else
    match (p.channel.decryptFrame p.rest).result with
    | .error e => some e
    | .ok _ => none

/-- So many turns lead from the one to the other. -/
inductive Turns : ℕ → Pass → Pass → Prop
  | zero {p : Pass} :
      Turns 0 p p
  | succ {n : ℕ} {p q last : Pass} :
      p.turn? = some q → Turns n q last → Turns (n + 1) p last

/-- What is left of a loop that has come to its end, when it began with `input`:
the result, the reader and the channel. -/
def left (p : Pass) (input : Bytes) : Except Error Bool × FrameReader × Channel :=
  match p.failure? with
  | some e => (.error e, ⟨input, p.ready⟩, p.channel)
  | none => (.ok (!p.ready.isEmpty), ⟨p.rest, p.ready⟩, p.channel)

variable {p q last : Pass} {n : ℕ}

/-! ## One turn -/

theorem turn?_eq_some (h : p.turn? = some q) :
    p.ready.length < readyMax ∧ ∃ message, frameSize message ≤ p.rest.length ∧
      q = ⟨p.ready ++ [message], p.rest.drop (frameSize message), p.channel.commit⟩ ∧
      p.channel.decryptFrame p.rest =
        ⟨.ok (some ⟨message, frameSize message⟩), p.channel.commit,
          p.channel.commit.receiving.rotation .receiving⟩ := by
  unfold turn? at h
  split at h
  · cases h
  · rename_i hroom
    rcases decryptFrame_cases p.channel p.rest with ⟨e, -, hout⟩ | hout | ⟨message, hlong, hout⟩
    · rw [hout] at h
      cases h
    · rw [hout] at h
      cases h
    · rw [hout] at h
      obtain rfl := Option.some.inj h
      exact ⟨Nat.lt_of_not_le hroom, message, hlong, rfl, hout⟩

/-- A turn that goes on takes at least the smallest frame, and adds one message. -/
theorem turn?_consumes (h : p.turn? = some q) :
    (∃ message, q.ready = p.ready ++ [message]) ∧ q.rest.length + 34 ≤ p.rest.length := by
  obtain ⟨-, message, hlong, rfl, -⟩ := turn?_eq_some h
  refine ⟨⟨message, rfl⟩, ?_⟩
  rw [List.length_drop]
  rw [frameSize_eq] at hlong ⊢
  omega

/-! ## All turns -/

theorem turns_consume (h : Turns n p last) :
    last.ready.length = p.ready.length + n ∧ last.rest.length + 34 * n ≤ p.rest.length ∧
      (p.ready.length ≤ readyMax → last.ready.length ≤ readyMax) := by
  induction h with
  | zero => exact ⟨rfl, Nat.le_refl _, id⟩
  | @succ n p q last hturn _ ih =>
      obtain ⟨hready, hrest, hmax⟩ := ih
      obtain ⟨⟨message, hmessage⟩, hconsumes⟩ := turn?_consumes hturn
      have hroom := (turn?_eq_some hturn).1
      rw [hmessage, List.length_append, List.length_singleton] at hready hmax
      exact ⟨by omega, by omega, fun _ => hmax hroom⟩

theorem turns_le (hp : p.ready.length ≤ readyMax) (h : Turns n p last) :
    n ≤ min (readyMax - p.ready.length) (p.rest.length / 34) := by
  obtain ⟨hready, hrest, hmax⟩ := turns_consume h
  have := hmax hp
  have : n ≤ p.rest.length / 34 := by
    rw [Nat.le_div_iff_mul_le (by decide)]
    omega
  omega

/-- The loop ends. -/
theorem exists_last (p : Pass) : ∃ n last, Turns n p last ∧ last.turn? = none := by
  cases hturn : p.turn? with
  | none => exact ⟨0, p, .zero, hturn⟩
  | some q =>
      obtain ⟨n, last, hturns, hlast⟩ := exists_last q
      exact ⟨n + 1, last, .succ hturn hturns, hlast⟩
termination_by p.rest.length
decreasing_by
  have := (turn?_consumes hturn).2
  omega

/-! ## What the turns come to -/

theorem decode_of_last (hlast : p.turn? = none) :
    let d := decode (readyMax - p.ready.length) p.channel p.rest
    d.messages = [] ∧ d.rest = p.rest ∧ d.channel = p.channel ∧ d.stopped = p.failure? := by
  unfold turn? at hlast
  unfold failure?
  split at hlast
  · rename_i hfull
    rw [Nat.sub_eq_zero_of_le hfull, if_pos hfull]
    exact ⟨rfl, rfl, rfl, rfl⟩
  · rename_i hroom
    obtain ⟨places, hplaces⟩ : ∃ places, readyMax - p.ready.length = places + 1 :=
      ⟨readyMax - p.ready.length - 1, by omega⟩
    rw [hplaces, if_neg hroom]
    rcases decryptFrame_cases p.channel p.rest with ⟨e, -, hout⟩ | hout | ⟨message, -, hout⟩
    · simp only [decode, hout]
      exact ⟨trivial, trivial, trivial, trivial⟩
    · simp only [decode, hout]
      exact ⟨trivial, trivial, trivial, trivial⟩
    · rw [hout] at hlast
      cases hlast

theorem decode_of_turns (h : Turns n p last) (hlast : last.turn? = none) :
    let d := decode (readyMax - p.ready.length) p.channel p.rest
    p.ready ++ d.messages = last.ready ∧ d.rest = last.rest ∧ d.channel = last.channel ∧
      d.stopped = last.failure? := by
  induction h with
  | @zero p =>
      obtain ⟨hmessages, hd⟩ := decode_of_last hlast
      exact ⟨by rw [hmessages, List.append_nil], hd⟩
  | @succ n p q last hturn _ ih =>
      obtain ⟨hroom, message, -, rfl, hout⟩ := turn?_eq_some hturn
      have hplaces : readyMax - p.ready.length =
          readyMax - (p.ready ++ [message]).length + 1 := by
        rw [List.length_append, List.length_singleton]
        omega
      obtain ⟨hready, hd⟩ := ih hlast
      rw [hplaces]
      simp only [decode, hout]
      rw [List.append_assoc] at hready
      exact ⟨hready, hd⟩

end Pass

namespace FrameReader

variable {r : FrameReader} {c : Channel} {bytes : Bytes}

theorem ingest_eq_readerFull_iff :
    (r.ingest c bytes).result = .error .readerFull ↔
      readyMax ≤ r.ready.length ∧ bufferMax < r.pendingBytes + bytes.length := by
  rw [← isPaused_iff, pendingBytes]
  unfold ingest
  split
  · rename_i hfull
    exact iff_of_true rfl hfull
  · rename_i hroom
    refine iff_of_false ?_ hroom
    have hdecodes := decodes_decode (readyMax - r.ready.length) c (r.buffer ++ bytes)
    dsimp only
    generalize decode (readyMax - r.ready.length) c (r.buffer ++ bytes) = d at hdecodes ⊢
    intro h
    cases hdecodes with
    | stopped => cases h
    | failed _ _ hne _ => exact hne (Except.error.inj h)

/-- The reader is left with what the last turn leaves. -/
theorem ingest_eq_last {n : ℕ} {last : Pass}
    (hroom : (r.ingest c bytes).result ≠ .error .readerFull)
    (hturns : Pass.Turns n ⟨r.ready, r.buffer ++ bytes, c⟩ last) (hlast : last.turn? = none) :
    ((r.ingest c bytes).result, (r.ingest c bytes).state) = last.left (r.buffer ++ bytes) := by
  rw [Ne, ingest_eq_readerFull_iff, ← isPaused_iff, pendingBytes] at hroom
  obtain ⟨hready, hrest, hchannel, hstopped⟩ := Pass.decode_of_turns hturns hlast
  unfold ingest Pass.left
  rw [if_neg hroom]
  dsimp only at hready hrest hchannel hstopped ⊢
  rw [hready, hrest, hchannel, hstopped]
  cases last.failure? <;> rfl

theorem exists_next {n : ℕ} (h : r.ready.length = n + 1) :
    ∃ message reader, r.next? = some (message, reader) ∧ reader.ready.length = n := by
  obtain ⟨buffer, ready⟩ := r
  cases ready with
  | nil => cases h
  | cons message ready => exact ⟨message, _, rfl, Nat.succ.inj h⟩

end FrameReader

namespace Reading

theorem ready_le_run (c : Channel) (calls : List ReaderCall) :
    ((start c).run calls).reader.ready.length ≤ readyMax := by
  induction calls using List.reverseRecOn with
  | nil => exact Nat.zero_le _
  | append_singleton calls d ih =>
      rw [run, List.foldl_append]
      exact ready_le_call ih d

/-- No call takes a reader past its limits, whatever the bytes. The queue holds
eight messages at most; the loop ends with the places or the bytes; an unpaused
reader is left with less than the largest frame; and what a paused one refuses
it takes when one message has been handed out. -/
theorem limits (c : Channel) (calls : List ReaderCall) :
    let s := (start c).run calls
    s.reader.ready.length ≤ readyMax ∧
    (∀ p q : Pass, p.turn? = some q →
      (∃ message, q.ready = p.ready ++ [message]) ∧ q.rest.length + 34 ≤ p.rest.length) ∧
    ∀ bytes,
      let out := s.ingest bytes
      let input := s.reader.buffer ++ bytes
      (out.result = .error .readerFull ↔
        s.reader.ready.length = readyMax ∧ bufferMax < s.reader.pendingBytes + bytes.length) ∧
      (out.result = .error .readerFull → out.state = (s.reader, s.channel) ∧
        ∃ message reader, s.reader.next? = some (message, reader) ∧
          (reader.ingest s.channel bytes).result ≠ .error .readerFull) ∧
      (out.result ≠ .error .readerFull →
        ∃ n last, Pass.Turns n ⟨s.reader.ready, input, s.channel⟩ last ∧ last.turn? = none ∧
          n ≤ min (readyMax - s.reader.ready.length) (input.length / 34) ∧
          (out.result, out.state) = last.left input) ∧
      (∀ waiting, out.result = .ok waiting → out.state.1.ready.length < readyMax →
        out.state.1.pendingBytes < bufferMax) := by
  intro s
  have hs : s.reader.ready.length ≤ readyMax := ready_le_run c calls
  refine ⟨hs, fun _ _ => Pass.turn?_consumes, ?_⟩
  intro bytes out input
  have hfull : out.result = .error .readerFull ↔
      readyMax ≤ s.reader.ready.length ∧ bufferMax < s.reader.pendingBytes + bytes.length :=
    ingest_eq_readerFull_iff
  refine ⟨?_, ?_, ?_, ?_⟩
  · rw [hfull]
    exact and_congr_left' ⟨hs.antisymm, ge_of_eq⟩
  · intro h
    obtain ⟨hpaused, hlong⟩ := hfull.1 h
    refine ⟨?_, ?_⟩
    · exact (ingest_of_paused (isPaused_iff.2 hpaused)).trans (if_pos hlong)
    · obtain ⟨message, reader, hnext, hready⟩ := exists_next (hs.antisymm hpaused)
      refine ⟨message, reader, hnext, ?_⟩
      rw [Ne, ingest_eq_readerFull_iff, hready]
      rintro ⟨hle, -⟩
      exact absurd hle (by decide)
  · intro h
    obtain ⟨n, last, hturns, hlast⟩ := Pass.exists_last ⟨s.reader.ready, input, s.channel⟩
    exact ⟨n, last, hturns, hlast, Pass.turns_le hs hturns, ingest_eq_last h hturns hlast⟩
  · intro waiting h hroom
    have hsettles := settles hs (.ingest bytes) waiting h
    rcases hsettles.1 with heq | hnone
    · exact absurd heq (Nat.ne_of_lt hroom)
    · exact length_lt_of_decryptFrame_none hnone

/-- Eight frames fill the queue, and one byte more is too much for a largest frame. -/
theorem limits_of_full_queue :
    let c : Channel :=
      .ofKeys ⟨List.replicate 32 1, rfl⟩ ⟨List.replicate 32 2, rfl⟩ ⟨List.replicate 32 7, rfl⟩
    let piece := c.receiving.frames (List.replicate readyMax ⟨[], Nat.zero_le _⟩) ++ [0]
    let s := (start c).run [.ingest piece]
    let large : Bytes := List.replicate bufferMax 0
    (s.ingest large).result = .error .readerFull ∧
      ∃ message reader, s.reader.next? = some (message, reader) ∧
        (reader.ingest s.channel large).result ≠ .error .readerFull := by
  intro c piece s large
  have hc : c.BetweenFrames := ⟨rfl, RotatingKey.atFrame_start ..⟩
  have hms : (start c).reader.ready.length +
      (List.replicate readyMax (⟨[], Nat.zero_le _⟩ : Message)).length = readyMax :=
    (Nat.zero_add _).trans List.length_replicate
  have hlarge : large.length = bufferMax := List.length_replicate
  clear_value c large
  have hreader : s.reader = ⟨[0], _⟩ :=
    (call_ingest_frames (s := start c) hc (Nat.succ_pos 7) hms rfl).1
  have hready : s.reader.ready.length = readyMax := by
    rw [hreader, List.length_append, List.length_map]
    exact hms
  have hlong : bufferMax < s.reader.pendingBytes + large.length := by
    rw [hreader, hlarge, pendingBytes, List.length_singleton]
    omega
  obtain ⟨-, -, hingest⟩ := limits c [.ingest piece]
  obtain ⟨hfull, hrefused, -, -⟩ := hingest large
  have hresult := hfull.2 ⟨hready, hlong⟩
  exact ⟨hresult, (hrefused hresult).2⟩

end Reading

end Bolt8
