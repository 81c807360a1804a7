import Bolt8.Proofs.Transport.Frame
import Bolt8.Transport.FrameReader
import Mathlib.Algebra.BigOperators.Group.List.Basic
import Mathlib.Algebra.Ring.Nat

/-!
# A stream received frame by frame

`Receives` is the plain reading of a stream, one `decryptFrame` after the
other with nothing between. `Ingested` lists what one `ingest` can do in these
terms; what a reader does in a run is proved from that list alone.
-/

namespace Bolt8

/-- A frame, and the message in it. -/
structure Framed where
  bytes : Bytes
  message : Bytes

namespace Channel

/-- The stream begins with these frames; the channel and the rest are what is
left after them. -/
inductive Receives : Channel → Bytes → List Framed → Channel → Bytes → Prop
  | nil {c stream} :
      Receives c stream [] c stream
  | cons {c stream f frames c' rest} :
      (c.decryptFrame (f.bytes ++ stream)).result = .ok (some ⟨f.message, f.bytes.length⟩) →
      Receives (c.decryptFrame (f.bytes ++ stream)).state stream frames c' rest →
      Receives c (f.bytes ++ stream) (f :: frames) c' rest

variable {c c' c'' d : Channel} {stream rest rest' : Bytes} {frames more : List Framed}

theorem eq_of_receives_nil (h : c.Receives stream [] c' rest) : c' = c ∧ rest = stream := by
  cases h
  exact ⟨rfl, rfl⟩

theorem receives_flatten (h : c.Receives stream frames c' rest) :
    stream = (frames.map Framed.bytes).flatten ++ rest := by
  induction h with
  | nil => rfl
  | cons _ _ ih =>
      rw [List.map_cons, List.flatten_cons, List.append_assoc, ← ih]

theorem receives_trans (h : c.Receives stream frames c' rest)
    (hmore : c'.Receives rest more c'' rest') :
    c.Receives stream (frames ++ more) c'' rest' := by
  induction h with
  | nil => exact hmore
  | cons hframe _ ih => exact .cons hframe (ih hmore)

theorem sending_of_receives (h : c.Receives stream frames c' rest) : c'.sending = c.sending := by
  induction h with
  | nil => rfl
  | cons hframe _ ih =>
      rw [ih, (decryptFrame_of_received hframe).2]
      rfl

/-- Bytes that come later do not change what was received. -/
theorem receives_append (h : c.Receives stream frames c' rest) (later : Bytes) :
    c.Receives (stream ++ later) frames c' (rest ++ later) := by
  induction h with
  | nil => exact .nil
  | @cons c stream f frames c' rest hframe _ ih =>
      have hsame := decryptFrame_append (q := later) (by rw [hframe]; simp)
      rw [List.append_assoc] at hsame ⊢
      exact .cons (by rw [hsame, hframe]) (by rw [hsame]; exact ih)

/-- What is received does not depend on the sending key. -/
theorem receives_congr (h : c.Receives stream frames c' rest) (hcd : c.SameReceiving d) :
    ∃ d', d.Receives stream frames d' rest ∧ c'.SameReceiving d' := by
  induction h generalizing d with
  | nil => exact ⟨d, .nil, hcd⟩
  | @cons c stream f _ _ _ hframe _ ih =>
      obtain ⟨hresult, hstate⟩ := decryptFrame_congr hcd (f.bytes ++ stream)
      obtain ⟨d', hd, hcd'⟩ := ih hstate
      exact ⟨d', .cons (by rw [← hresult, hframe]) hd, hcd'⟩

/-! ## Sizes -/

/-- The bytes that these messages took on the wire. -/
def framesSize (messages : List Bytes) : ℕ := (messages.map frameSize).sum

theorem framesSize_nil : framesSize [] = 0 := rfl

theorem framesSize_append (messages more : List Bytes) :
    framesSize (messages ++ more) = framesSize messages + framesSize more := by
  simp [framesSize]

theorem framesSize_eq_zero {messages : List Bytes} : framesSize messages = 0 ↔ messages = [] := by
  cases messages with
  | nil => simp [framesSize]
  | cons message messages =>
      simp only [framesSize, List.map_cons, List.sum_cons, frameSize, Aead.tagSize, reduceCtorEq,
        iff_false]
      omega

theorem length_of_receives (h : c.Receives stream frames c' rest) :
    stream.length = framesSize (frames.map Framed.message) + rest.length := by
  induction h with
  | nil => simp [framesSize]
  | @cons c stream f frames c' rest hframe _ ih =>
      have hsize : f.bytes.length = frameSize f.message := (decryptFrame_of_received hframe).1
      rw [List.length_append, hsize, ih]
      simp only [framesSize, List.map_cons, List.sum_cons]
      omega

end Channel

/-! ## What a reader decodes -/

namespace FrameReader

open Channel

/-- What `decode` can do: receive some frames and then stop, or fail. -/
inductive Decodes (places : ℕ) (c : Channel) (input : Bytes) : Decoded → Prop
  | stopped {frames c' rest log} :
      c.Receives input frames c' rest → frames.length ≤ places →
      frames.length = places ∨ (c'.decryptFrame rest).result = .ok none →
      Decodes places c input ⟨frames.map Framed.message, rest, c', log, none⟩
  | failed {frames c' rest log e} :
      c.Receives input frames c' rest → frames.length ≤ places →
      e ≠ .readerFull → (c'.decryptFrame rest).result = .error e →
      Decodes places c input ⟨frames.map Framed.message, rest, c', log, some e⟩

theorem decodes_decode (places : ℕ) (c : Channel) (input : Bytes) :
    Decodes places c input (decode places c input) := by
  induction places generalizing c input with
  | zero => exact @Decodes.stopped _ _ _ [] _ _ _ .nil (le_refl _) (.inl rfl)
  | succ places ih =>
      rcases decryptFrame_cases c input with ⟨e, hne, h⟩ | h | ⟨message, hlong, h⟩
      · simp only [decode, h]
        exact @Decodes.failed _ _ _ [] _ _ _ _ .nil (Nat.zero_le _) hne (by rw [h])
      · simp only [decode, h]
        exact @Decodes.stopped _ _ _ [] _ _ _ .nil (Nat.zero_le _) (.inr (by rw [h]))
      · obtain ⟨bytes, rest, rfl, hbytes⟩ :
            ∃ bytes rest, input = bytes ++ rest ∧ bytes.length = frameSize message :=
          ⟨_, _, (List.take_append_drop _ _).symm, List.length_take_of_le hlong⟩
        have hfirst : ∀ {frames c' rest'}, c.commit.Receives rest frames c' rest' →
            c.Receives (bytes ++ rest) (⟨bytes, message⟩ :: frames) c' rest' := fun hmore =>
          @Receives.cons c rest ⟨bytes, message⟩ _ _ _ (by rw [h, hbytes]) (by rw [h]; exact hmore)
        -- this frame takes one place, and the rest is decoded into the others
        simp only [decode, h, ← hbytes, List.drop_left]
        have hrest := ih c.commit rest
        generalize decode places c.commit rest = later at hrest ⊢
        cases hrest with
        | stopped hmore hle hstop =>
            exact .stopped (hfirst hmore) (Nat.succ_le_succ hle) (hstop.imp_left (congrArg (· + 1)))
        | failed hmore hle hne hfail =>
            exact .failed (hfirst hmore) (Nat.succ_le_succ hle) hne hfail

/-- What `ingest` can do: refuse the bytes, decode what they complete, or fail
and keep them all, those decoded in this call with them. -/
inductive Ingested (r : FrameReader) (c : Channel) (bytes : Bytes) :
    Outcome (FrameReader × Channel) Bool → Prop
  | refused :
      readyMax ≤ r.ready.length →
      Ingested r c bytes ⟨.error .readerFull, (r, c), []⟩
  | decoded {frames c' rest log} :
      c.Receives (r.buffer ++ bytes) frames c' rest →
      frames.length ≤ readyMax - r.ready.length →
      frames.length = readyMax - r.ready.length ∨ (c'.decryptFrame rest).result = .ok none →
      Ingested r c bytes ⟨.ok (!(r.ready ++ frames.map Framed.message).isEmpty),
        (⟨rest, r.ready ++ frames.map Framed.message⟩, c'), log⟩
  | failed {frames c' rest log e} :
      c.Receives (r.buffer ++ bytes) frames c' rest →
      frames.length ≤ readyMax - r.ready.length →
      e ≠ .readerFull → (c'.decryptFrame rest).result = .error e →
      Ingested r c bytes ⟨.error e,
        (⟨r.buffer ++ bytes, r.ready ++ frames.map Framed.message⟩, c'), log⟩

theorem ingested_ingest (r : FrameReader) (c : Channel) (bytes : Bytes) :
    Ingested r c bytes (r.ingest c bytes) := by
  unfold ingest
  split
  · rename_i hfull
    exact .refused (by simpa [isPaused] using hfull.1)
  · have hdecode := decodes_decode (readyMax - r.ready.length) c (r.buffer ++ bytes)
    dsimp only
    generalize decode (readyMax - r.ready.length) c (r.buffer ++ bytes) = d at hdecode ⊢
    cases hdecode with
    | stopped hreceives hle hstop => exact .decoded hreceives hle hstop
    | failed hreceives hle hne hfail => exact .failed hreceives hle hne hfail

end FrameReader

end Bolt8
