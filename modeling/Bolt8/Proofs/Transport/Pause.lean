import Bolt8.Proofs.Transport.Attempt
import Bolt8.Proofs.Transport.Duplex
import Bolt8.Proofs.Transport.Reading

/-!
# What a paused reader holds

A paused reader refuses what would take it past its limit, one largest frame.
The piece that brings the pause is not measured, though, and whatever stands in
it behind the last message with a place stays buffered. Without such a piece a
reader keeps to its limit, and only then (`withinLimit_iff`).
-/

namespace Bolt8

open Channel FrameReader

/-! ## How far a piece is decoded -/

theorem Channel.receives_prefix {c c' c'' : Channel} {stream rest rest' : Bytes}
    {frames more : List Framed} (h : c.Receives stream frames c' rest)
    (hmore : c.Receives stream more c'' rest') (hle : frames.length ≤ more.length) :
    ∃ later, more = frames ++ later ∧ c'.Receives rest later c'' rest' := by
  induction h generalizing more with
  | nil =>
      exact ⟨more, rfl, hmore⟩
  | @cons c stream f frames c' rest hframe _ ih =>
      generalize hwhole : f.bytes ++ stream = whole at hmore
      cases hmore with
      | nil => exact nomatch hle
      | @cons _ stream' f' more _ _ hframe' hmore =>
          -- one attempt has one result, so both lists begin with one frame
          rw [hwhole, hframe'] at hframe
          obtain ⟨hmessage, hsize⟩ := Received.mk.inj (Option.some.inj (Except.ok.inj hframe))
          obtain ⟨hbytes, rfl⟩ := List.append_inj hwhole hsize.symm
          obtain rfl : f = f' := by
            cases f
            cases f'
            exact congrArg₂ Framed.mk hbytes hmessage.symm
          obtain ⟨later, rfl, hlater⟩ := ih hmore (Nat.le_of_succ_le_succ hle)
          exact ⟨later, rfl, hlater⟩

theorem Channel.length_lt_of_decryptFrame_none {c : Channel} {input : Bytes}
    (h : (c.decryptFrame input).result = .ok none) : input.length < bufferMax := by
  have hattempt := attempt_decryptFrame c input
  generalize c.decryptFrame input = out at hattempt h
  unfold bufferMax sealedLengthSize maxMessageSize Aead.tagSize
  cases hattempt with
  | busy | forgedLength | forgedBody | whole => exact nomatch h
  | short _ hshort => omega
  | @incomplete length _ _ hlt =>
      have hmax := length.toNat_lt
      simp only [sealedLengthSize, Aead.tagSize] at hlt
      omega

theorem Channel.frameSize_nil_le_framesSize (message : Bytes) (messages : List Bytes) :
    frameSize [] ≤ framesSize (message :: messages) := by
  simp only [framesSize, List.map_cons, List.sum_cons, frameSize, List.length_nil]
  omega

namespace FrameReader

variable {r : FrameReader} {c : Channel} {bytes : Bytes}

theorem isPaused_iff : r.isPaused = true ↔ readyMax ≤ r.ready.length := by
  simp [isPaused]

theorem length_messages_of_stopped {places : ℕ} {input : Bytes} {e : Error}
    (h : (decode places c input).stopped = some e) :
    (decode places c input).messages.length < places := by
  induction places generalizing c input with
  | zero => exact nomatch h
  | succ places ih =>
      simp only [decode] at h ⊢
      cases hframe : (c.decryptFrame input).result with
      | error => exact Nat.succ_pos places
      | ok received =>
          rw [hframe] at h
          cases received with
          | none => exact Nat.succ_pos places
          | some frame => exact Nat.succ_lt_succ (ih h)

/-- The queue of a reader is not full when a frame fails. -/
theorem ready_lt_of_failed {e : Error} (hne : e ≠ .readerFull)
    (h : (r.ingest c bytes).result = .error e) :
    (r.ingest c bytes).state.1.ready.length < readyMax := by
  unfold ingest at h ⊢
  split
  · rename_i hfull
    rw [if_pos hfull] at h
    exact absurd (Except.error.inj h).symm hne
  · rename_i hroom
    rw [if_neg hroom] at h
    dsimp only at h ⊢
    split
    · rename_i stopped
      have hlength := length_messages_of_stopped stopped
      rw [List.length_append]
      omega
    · rename_i stopped
      rw [stopped] at h
      exact nomatch h

theorem decode_frames {c : Channel} (hc : c.BetweenFrames) (ms : List Message) (tail : Bytes) :
    ∃ c' log, c'.BetweenFrames ∧ c'.receiving = c.receiving.after ms ∧
      decode ms.length c (c.receiving.frames ms ++ tail) =
        ⟨ms.map Subtype.val, tail, c', log, none⟩ := by
  induction ms generalizing c with
  | nil => exact ⟨c, [], hc, rfl, rfl⟩
  | cons m ms ih =>
      obtain ⟨c', log, hc', hafter, hdecode⟩ := ih (betweenFrames_commit hc)
      have hframe := decryptFrame_frame hc.1 hc.2 m.property
        (c.receiving.advance.advance.frames ms ++ tail)
      have hdrop : (c.receiving.frame m.val ++
          (c.receiving.advance.advance.frames ms ++ tail)).drop (frameSize m.val) =
          c.commit.receiving.frames ms ++ tail :=
        List.drop_left' (length_frame ..)
      refine ⟨c', c.commit.receiving.rotation .receiving ++ log, hc', hafter, ?_⟩
      rw [RotatingKey.frames, List.append_assoc, List.length_cons, decode, hframe]
      dsimp only
      rw [hdrop, hdecode]
      rfl

/-- Frames that fill the queue are received, and the rest of the piece stays. -/
theorem ingest_frames (hc : c.BetweenFrames) {ms : List Message} {tail : Bytes}
    (hroom : r.ready.length < readyMax) (hms : r.ready.length + ms.length = readyMax)
    (hinput : r.buffer ++ bytes = c.receiving.frames ms ++ tail) :
    ∃ c', c'.BetweenFrames ∧ c'.receiving = c.receiving.after ms ∧
      (r.ingest c bytes).state = (⟨tail, r.ready ++ ms.map Subtype.val⟩, c') := by
  obtain ⟨c', log, hc', hafter, hdecode⟩ := decode_frames hc ms tail
  have hplaces : readyMax - r.ready.length = ms.length := by omega
  have hunpaused : ¬(r.isPaused = true ∧ bufferMax < r.buffer.length + bytes.length) := by
    rw [isPaused_iff]
    omega
  refine ⟨c', hc', hafter, ?_⟩
  unfold ingest
  rw [if_neg hunpaused, hplaces, hinput]
  simp only [hdecode]

/-- A paused reader only takes what fits. -/
theorem ingest_of_paused (h : r.isPaused = true) :
    (r.ingest c bytes).state =
      if bufferMax < r.buffer.length + bytes.length then (r, c)
      else (⟨r.buffer ++ bytes, r.ready⟩, c) := by
  have hplaces : readyMax - r.ready.length = 0 := Nat.sub_eq_zero_of_le (isPaused_iff.1 h)
  unfold ingest
  by_cases hfull : bufferMax < r.buffer.length + bytes.length
  · rw [if_pos ⟨h, hfull⟩, if_pos hfull]
  · rw [if_neg fun hboth => hfull hboth.2, if_neg hfull, hplaces]
    simp only [decode, List.append_nil]

end FrameReader

/-! ## The limit -/

namespace Reading

variable {s : Reading} {bytes : Bytes}

def WithinLimit (s : Reading) : Prop :=
  s.reader.isPaused = true → s.reader.pendingBytes ≤ bufferMax

/-- The call is an `ingest` whose frames fill the queue of a reader that is not
paused, and what follows them is longer than a frame can be. -/
def Overruns (s : Reading) : ReaderCall → Prop
  | .ingest bytes => s.reader.ready.length < readyMax ∧ ∃ frames c' rest,
      s.channel.Receives (s.reader.buffer ++ bytes) frames c' rest ∧
      s.reader.ready.length + frames.length = readyMax ∧ bufferMax < rest.length
  | .next | .encrypt _ => False

theorem withinLimit_ingest_iff (hs : s.reader.ready.length < readyMax) :
    (s.call (.ingest bytes)).WithinLimit ↔ ¬ s.Overruns (.ingest bytes) := by
  have hout := ingested_ingest s.reader s.channel bytes
  have hfailed : ∀ e, e ≠ .readerFull → (s.reader.ingest s.channel bytes).result = .error e →
      (s.reader.ingest s.channel bytes).state.1.ready.length < readyMax := by
    intro e hne h
    exact ready_lt_of_failed hne h
  simp only [call, ingest, WithinLimit, Overruns, isPaused_iff, pendingBytes]
  generalize s.reader.ingest s.channel bytes = out at hout hfailed ⊢
  cases hout with
  | refused hfull => exact absurd hs (Nat.not_lt_of_le hfull)
  | @decoded frames c' rest _ hreceives hle hstop =>
      rw [List.length_append, List.length_map]
      constructor
      · rintro hwithin ⟨-, frames', c'', rest', hreceives', hfull, hover⟩
        -- the call has received all of these frames, or it would not have stopped
        obtain ⟨later, rfl, hlater⟩ := receives_prefix hreceives hreceives' (by omega)
        rw [List.length_append] at hfull
        cases hlater with
        | nil => exact absurd (hwithin (by simpa using hfull.ge)) (Nat.not_le_of_lt hover)
        | cons hframe _ =>
            rcases hstop with hplaces | hnone
            · rw [List.length_cons] at hfull
              omega
            · cases hnone.symm.trans hframe
      · intro hover hpaused
        apply Nat.le_of_not_lt
        intro hlong
        apply hover
        exact ⟨hs, frames, c', rest, hreceives, by omega, hlong⟩
  | @failed frames c' rest _ e hreceives hle hne hfail =>
      have hlt := hfailed e hne rfl
      constructor
      · rintro - ⟨-, frames', c'', rest', hreceives', hfull, -⟩
        obtain ⟨later, rfl, hlater⟩ := receives_prefix hreceives hreceives' (by omega)
        simp only [List.length_append, List.length_map] at hlt hfull
        cases hlater with
        | nil =>
            rw [List.length_nil] at hfull
            omega
        | cons hframe _ => cases hfail.symm.trans hframe
      · intro _ hpaused
        exact absurd hlt (Nat.not_lt_of_le hpaused)

/-- While a reader is paused, only what stays within the limit is added. -/
theorem pendingBytes_call_of_paused (hs : s.reader.isPaused = true) (d : ReaderCall) :
    (s.call d).reader.pendingBytes ≤ max s.reader.pendingBytes bufferMax := by
  cases d with
  | ingest bytes =>
      simp only [call, ingest, ingest_of_paused hs, pendingBytes]
      split
      · exact le_max_left ..
      · rename_i hfits
        rw [List.length_append]
        exact (Nat.le_of_not_lt hfits).trans (le_max_right ..)
  | next =>
      rw [pendingBytes, (call_next s).2.1]
      exact le_max_left ..
  | encrypt => exact le_max_left ..

theorem ready_call_next (s : Reading) : (s.call .next).reader.ready = s.reader.ready.tail := by
  unfold call next?
  cases hready : s.reader.ready with
  | nil => exact hready
  | cons => rfl

theorem withinLimit_call_iff (hs : s.WithinLimit) (d : ReaderCall) :
    (s.call d).WithinLimit ↔ ¬ s.Overruns d := by
  by_cases hpaused : s.reader.isPaused = true
  · have hfull := isPaused_iff.1 hpaused
    constructor
    · intro _ hover
      cases d with
      | ingest => exact absurd hover.1 (Nat.not_lt_of_le hfull)
      | next | encrypt => exact hover
    · intro _ _
      apply (pendingBytes_call_of_paused hpaused d).trans
      exact max_le (hs hpaused) le_rfl
  · have hroom : s.reader.ready.length < readyMax := by
      apply Nat.lt_of_not_le
      intro hfull
      exact hpaused (isPaused_iff.2 hfull)
    -- only an `ingest` can bring the pause
    cases d with
    | ingest bytes => exact withinLimit_ingest_iff hroom
    | next =>
        constructor
        · intro _ hover
          exact hover
        · intro _ hpaused'
          have hfull := isPaused_iff.1 hpaused'
          rw [ready_call_next, List.length_tail] at hfull
          omega
    | encrypt =>
        constructor
        · intro _ hover
          exact hover
        · intro _ hpaused'
          exact absurd hpaused' hpaused

theorem withinLimit_iff (c : Channel) (calls : List ReaderCall) :
    (∀ pre, pre <+: calls → ((start c).run pre).WithinLimit) ↔
      Always call (fun s d => ¬ s.Overruns d) (start c) calls := by
  induction calls using List.reverseRecOn with
  | nil =>
      constructor
      · intro _
        exact always_nil
      · intro _ pre hpre hpaused
        obtain rfl := List.prefix_nil.1 hpre
        exact Nat.zero_le _
  | append_singleton calls d ih =>
      have hrun : (start c).run (calls ++ [d]) = ((start c).run calls).call d := by
        rw [run, List.foldl_append]
        rfl
      rw [always_snoc, ← ih]
      constructor
      · intro h
        have hcalls : ∀ pre, pre <+: calls → ((start c).run pre).WithinLimit := by
          intro pre hpre
          exact h pre (hpre.trans (List.prefix_append calls [d]))
        have hlast := h _ (List.prefix_refl _)
        rw [hrun] at hlast
        exact ⟨hcalls, (withinLimit_call_iff (hcalls calls (List.prefix_refl _)) d).1 hlast⟩
      · rintro ⟨hcalls, hd⟩ pre hpre
        rcases List.prefix_concat_iff.1 hpre with rfl | hpre
        · rw [hrun]
          exact (withinLimit_call_iff (hcalls calls (List.prefix_refl _)) d).2 hd
        · exact hcalls pre hpre

/-! ## Pieces that cannot overrun -/

/-- The call takes in no more than the frame of an empty message. -/
def Small : ReaderCall → Prop
  | .ingest bytes => bytes.length ≤ frameSize []
  | .next | .encrypt _ => True

theorem pendingBytes_call_of_small (hs : s.reader.pendingBytes ≤ bufferMax) {d : ReaderCall}
    (hunfailed : s.Unfailed d) (hsmall : Small d) : (s.call d).reader.pendingBytes ≤ bufferMax := by
  by_cases hpaused : s.reader.isPaused = true
  · exact (pendingBytes_call_of_paused hpaused d).trans (max_le hs le_rfl)
  rw [isPaused_iff] at hpaused
  cases d with
  | ingest bytes =>
      have hout := ingested_ingest s.reader s.channel bytes
      simp only [call, ingest, Unfailed, Small, pendingBytes] at hs hunfailed hsmall ⊢
      generalize s.reader.ingest s.channel bytes = out at hout hunfailed ⊢
      cases hout with
      | refused => exact hs
      | @decoded frames c' rest _ hreceives hle hstop =>
          have hlength := length_of_receives hreceives
          rw [List.length_append] at hlength
          cases frames with
          | nil =>
              rcases hstop with hplaces | hnone
              · rw [List.length_nil] at hplaces
                omega
              · exact (length_lt_of_decryptFrame_none hnone).le
          | cons f frames =>
              -- at least as much is decoded as comes in
              have hleast := frameSize_nil_le_framesSize f.message (frames.map Framed.message)
              rw [← List.map_cons] at hleast
              show rest.length ≤ bufferMax
              omega
      | failed _ _ hne _ => exact absurd (hunfailed _ rfl) hne
  | next =>
      rw [pendingBytes, (call_next s).2.1]
      exact hs
  | encrypt => exact hs

theorem pendingBytes_le_of_small (c : Channel) (calls : List ReaderCall)
    (hunfailed : Always call Unfailed (start c) calls) (hsmall : ∀ d ∈ calls, Small d) :
    ((start c).run calls).reader.pendingBytes ≤ bufferMax := by
  have hboth : Always call (fun s d => s.Unfailed d ∧ Small d) (start c) calls := by
    rintro pre d post rfl
    exact ⟨hunfailed pre d post rfl, hsmall d (by simp)⟩
  have hstep : ∀ (s : Reading) d, s.reader.pendingBytes ≤ bufferMax → s.Unfailed d ∧ Small d →
      (s.call d).reader.pendingBytes ≤ bufferMax := by
    rintro s d hs ⟨hunfailed, hsmall⟩
    exact pendingBytes_call_of_small hs hunfailed hsmall
  have hstart : (start c).reader.pendingBytes ≤ bufferMax := Nat.zero_le _
  exact invariant_run hstep hstart hboth

/-! ## Past the limit -/

theorem call_ingest_frames {s : Reading} (hc : s.channel.BetweenFrames)
    {bytes tail : Bytes} {ms : List Message} (hroom : s.reader.ready.length < readyMax)
    (hms : s.reader.ready.length + ms.length = readyMax)
    (hinput : s.reader.buffer ++ bytes = s.channel.receiving.frames ms ++ tail) :
    (s.call (.ingest bytes)).reader = ⟨tail, s.reader.ready ++ ms.map Subtype.val⟩ ∧
      (s.call (.ingest bytes)).channel.BetweenFrames ∧
      (s.call (.ingest bytes)).channel.receiving = s.channel.receiving.after ms := by
  obtain ⟨c', hc', hafter, hstate⟩ := ingest_frames hc hroom hms hinput
  have hchannel : (s.call (.ingest bytes)).channel = c' := congrArg Prod.snd hstate
  rw [hchannel]
  exact ⟨congrArg Prod.fst hstate, hc', hafter⟩

theorem not_withinLimit_of_frames {c : Channel} (hc : c.BetweenFrames) {ms later : List Message}
    (hms : ms.length = readyMax) (hlater : bufferMax < framesSize (later.map Subtype.val)) :
    ¬ ((start c).run [.ingest (c.receiving.frames (ms ++ later))]).WithinLimit := by
  have hinput : (start c).reader.buffer ++ c.receiving.frames (ms ++ later) =
      c.receiving.frames ms ++ (c.receiving.after ms).frames later :=
    RotatingKey.frames_append ..
  obtain ⟨hreader, -, -⟩ := call_ingest_frames (s := start c) hc (Nat.succ_pos 7)
    ((Nat.zero_add _).trans hms) hinput
  intro hwithin
  have hpaused : ((start c).call (.ingest (c.receiving.frames (ms ++ later)))).reader.isPaused =
      true := by
    rw [hreader, isPaused_iff, List.length_append, List.length_map, hms]
    exact Nat.le_add_left ..
  have hle := hwithin hpaused
  rw [run, List.foldl_cons, List.foldl_nil, hreader, pendingBytes,
    RotatingKey.length_frames] at hle
  exact Nat.not_le_of_lt hlater hle

theorem not_withinLimit_of_ten_frames :
    let key : RotatingKey := .start ⟨List.replicate 32 1, rfl⟩ ⟨List.replicate 32 7, rfl⟩
    let c : Channel := .ofKeys ⟨List.replicate 32 2, rfl⟩ key.key key.chainingKey
    let small : Message := ⟨[], Nat.zero_le _⟩
    let large : Message := ⟨List.replicate maxMessageSize 0, List.length_replicate.le⟩
    let bytes := key.frames (List.replicate 8 small ++ [large, small])
    ¬ ((start c).run [.ingest bytes]).WithinLimit := by
  intro key c small large bytes
  have hc : c.BetweenFrames := ⟨rfl, RotatingKey.atFrame_start ..⟩
  refine not_withinLimit_of_frames hc List.length_replicate ?_
  have hlarge : frameSize large.val = bufferMax := by
    rw [frameSize, List.length_replicate]
    rfl
  rw [List.map_cons, List.map_singleton, framesSize, List.map_cons, List.sum_cons, hlarge]
  exact Nat.lt_add_of_pos_right (Nat.succ_pos 33)

/-- A full queue, and behind it `n` frames of one message. -/
structure Backlog (m : Message) (n : ℕ) (s : Reading) : Prop where
  channel : s.channel.BetweenFrames
  ready : s.reader.ready.length = readyMax
  buffer : s.reader.buffer = s.channel.receiving.frames (List.replicate n m)

theorem backlog_ingest {s : Reading} {m : Message} {n : ℕ} {bytes : Bytes} {ms : List Message}
    (hc : s.channel.BetweenFrames) (hroom : s.reader.ready.length < readyMax)
    (hms : s.reader.ready.length + ms.length = readyMax)
    (hinput : s.reader.buffer ++ bytes = s.channel.receiving.frames (ms ++ List.replicate n m)) :
    (s.call (.ingest bytes)).Backlog m n := by
  rw [RotatingKey.frames_append] at hinput
  obtain ⟨hreader, hc', hafter⟩ := call_ingest_frames hc hroom hms hinput
  refine ⟨hc', ?_, by rw [hreader, hafter]⟩
  rw [hreader, List.length_append, List.length_map, hms]

theorem backlog_of_full_queue {c : Channel} (hc : c.BetweenFrames) (m : Message)
    {ms : List Message} (hms : ms.length = readyMax) :
    ((start c).run [.ingest (c.receiving.frames ms)]).Backlog m 0 := by
  apply backlog_ingest (s := start c) hc (Nat.succ_pos 7) ((Nat.zero_add _).trans hms)
  rw [List.replicate_zero, List.append_nil]
  rfl

/-- One message out and two frames in leave one frame more. -/
theorem exists_piece_of_backlog {s : Reading} {m : Message} {n : ℕ} (h : s.Backlog m n) :
    ∃ bytes, bytes.length = 2 * frameSize m.val ∧
      ((s.call .next).call (.ingest bytes)).Backlog m (n + 1) := by
  obtain ⟨hc, hfull, hbuffer⟩ := h
  obtain ⟨-, hbuffer', hchannel, -⟩ := call_next s
  have hready : (s.call .next).reader.ready.length = 7 := by
    rw [ready_call_next, List.length_tail, hfull]
    rfl
  have hinput : (s.call .next).reader.buffer ++
      (s.channel.receiving.after (List.replicate n m)).frames (List.replicate 2 m) =
      (s.call .next).channel.receiving.frames ([m] ++ List.replicate (n + 1) m) := by
    rw [hbuffer', hbuffer, hchannel, ← RotatingKey.frames_append,
      List.replicate_append_replicate]
    rfl
  refine ⟨(s.channel.receiving.after (List.replicate n m)).frames (List.replicate 2 m),
    RotatingKey.length_frames_replicate .., ?_⟩
  refine backlog_ingest (by rwa [hchannel]) ?_ ?_ hinput
  · rw [hready]
    decide
  · rw [hready]
    rfl

theorem exists_backlog {c : Channel} (hc : c.BetweenFrames) (m : Message) (n : ℕ) :
    ∃ calls, (∀ bytes, .ingest bytes ∈ calls → bytes.length ≤ readyMax * frameSize m.val) ∧
      ((start c).run calls).Backlog m n := by
  induction n with
  | zero =>
      refine ⟨[.ingest (c.receiving.frames (List.replicate readyMax m))], ?_, ?_⟩
      · intro bytes hbytes
        obtain rfl := ReaderCall.ingest.inj (List.mem_singleton.1 hbytes)
        exact (RotatingKey.length_frames_replicate ..).le
      · exact backlog_of_full_queue hc m List.length_replicate
  | succ n ih =>
      obtain ⟨calls, hpieces, hbacklog⟩ := ih
      obtain ⟨bytes, hlength, hnext⟩ := exists_piece_of_backlog hbacklog
      refine ⟨calls ++ [.next, .ingest bytes], ?_, ?_⟩
      · intro piece hpiece
        rcases List.mem_append.1 hpiece with hpiece | hpiece
        · exact hpieces piece hpiece
        · obtain rfl : piece = bytes := by simpa using hpiece
          rw [hlength]
          exact Nat.mul_le_mul_right _ (by decide)
      · rw [run, List.foldl_append]
        exact hnext

/-- A reader that is drained one message at a time can be made to hold any
number of bytes, although no piece is longer than eight frames. -/
theorem exists_pendingBytes_eq {c : Channel} (hc : c.BetweenFrames) (m : Message) (n : ℕ) :
    ∃ calls, (∀ bytes, .ingest bytes ∈ calls → bytes.length ≤ readyMax * frameSize m.val) ∧
      ((start c).run calls).reader.isPaused = true ∧
      ((start c).run calls).reader.pendingBytes = n * frameSize m.val := by
  obtain ⟨calls, hpieces, -, hfull, hbuffer⟩ := exists_backlog hc m n
  refine ⟨calls, hpieces, isPaused_iff.2 hfull.ge, ?_⟩
  rw [pendingBytes, hbuffer]
  exact RotatingKey.length_frames_replicate ..

end Reading

end Bolt8
