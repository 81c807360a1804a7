import Bolt8.Proofs.Run
import Bolt8.Proofs.Transport.Stream

/-!
# A reader in use

A reading is a reader, the channel that receives for it alone, and a record of
the bytes that went in and the messages that came out. Whatever the pieces, it
receives what `Receives` says of the joined pieces, up to the first `ingest`
that fails with frames decoded in the same call: that one keeps their bytes,
and from then on they are buffered although their messages have been received.
-/

namespace Bolt8

inductive ReaderCall
  | ingest (bytes : Bytes)
  | next
  | encrypt (message : Bytes)

structure Reading where
  reader : FrameReader
  channel : Channel
  /-- The pieces taken in, joined. -/
  taken : Bytes
  /-- The messages handed out. -/
  given : List Bytes

namespace Reading

open Channel FrameReader

def start (c : Channel) : Reading := ⟨.empty, c, [], []⟩

def ingest (s : Reading) (bytes : Bytes) : Outcome (FrameReader × Channel) Bool :=
  s.reader.ingest s.channel bytes

def call (s : Reading) : ReaderCall → Reading
  | .ingest bytes =>
    let out := s.ingest bytes
    let taken := match out.result with
      | .error .readerFull => s.taken
      | _ => s.taken ++ bytes
    { s with reader := out.state.1, channel := out.state.2, taken }
  | .next =>
    match s.reader.next? with
    | none => s
    | some (message, reader) => { s with reader, given := s.given ++ [message] }
  | .encrypt message => { s with channel := (s.channel.encrypt message).state }

/-- The reading after a sequence of calls. -/
def run (s : Reading) (calls : List ReaderCall) : Reading := calls.foldl call s

theorem taken_of_ne {e : Error} (h : e ≠ .readerFull) (before bytes : Bytes) :
    (match (Except.error e : Except Error Bool) with
      | .error .readerFull => before
      | _ => before ++ bytes) = before ++ bytes := by
  split
  · rename_i heq
    exact absurd (Except.error.inj heq) h
  · rfl

/-! ## What has been received -/

def received (s : Reading) : List Bytes := s.given ++ s.reader.ready

theorem call_next (s : Reading) :
    (s.call .next).received = s.received ∧ (s.call .next).reader.buffer = s.reader.buffer ∧
      (s.call .next).channel = s.channel ∧ (s.call .next).taken = s.taken := by
  unfold received call next?
  cases hready : s.reader.ready <;> simp [hready]

theorem sameReceiving_encrypt (c : Channel) (message : Bytes) :
    (c.encrypt message).state.SameReceiving c := by
  unfold encrypt
  split <;> exact ⟨rfl, rfl⟩

/-- The buffer is what follows, in all that was taken in, the frames received
one by one from `c`, and the channel stands behind them. -/
def Aligned (c : Channel) (s : Reading) : Prop :=
  ∃ frames c', c.Receives s.taken frames c' s.reader.buffer ∧
    s.received = frames.map Framed.message ∧ s.channel.SameReceiving c'

/-- If the call is an `ingest` that fails, it has received nothing. -/
def FailsFirst (s : Reading) : ReaderCall → Prop
  | .ingest bytes => ∀ e, (s.ingest bytes).result = .error e →
      (s.ingest bytes).state.1.ready = s.reader.ready
  | .next | .encrypt _ => True

theorem aligned_call {c : Channel} {s : Reading} (hs : s.Aligned c) {d : ReaderCall}
    (hd : s.FailsFirst d) : (s.call d).Aligned c := by
  obtain ⟨frames, c', hreceives, hmessages, hsame⟩ := hs
  cases d with
  | ingest bytes =>
      have hlater := receives_append hreceives bytes
      have hout := ingested_ingest s.reader s.channel bytes
      simp only [FailsFirst, call, ingest] at hd ⊢
      generalize s.reader.ingest s.channel bytes = out at hout hd ⊢
      cases hout with
      | refused =>
          exact ⟨frames, c', hreceives, hmessages, hsame⟩
      | @decoded more _ _ _ hmore _ _ =>
          obtain ⟨c'', hmore, hsame⟩ := receives_congr hmore hsame
          refine ⟨frames ++ more, c'', receives_trans hlater hmore, ?_, hsame⟩
          rw [List.map_append, ← hmessages, received, received, List.append_assoc]
      | @failed more _ _ _ e hmore _ hne _ =>
          -- without frames decoded in this call, all that the failure keeps is still to come
          obtain rfl : more = [] := by simpa using hd e rfl
          obtain ⟨rfl, -⟩ := eq_of_receives_nil hmore
          refine ⟨frames, c', ?_, by simpa [received] using hmessages, hsame⟩
          rwa [taken_of_ne hne]
  | next =>
      obtain ⟨hreceived, hbuffer, hchannel, htaken⟩ := call_next s
      exact ⟨frames, c', by rwa [htaken, hbuffer], by rw [hreceived, hmessages], by rwa [hchannel]⟩
  | encrypt message =>
      obtain ⟨hreceiving, hpending⟩ := sameReceiving_encrypt s.channel message
      exact ⟨frames, c', hreceives, hmessages, hreceiving.trans hsame.1, hpending.trans hsame.2⟩

theorem aligned_run {c : Channel} {calls : List ReaderCall}
    (h : Always call FailsFirst (start c) calls) : ((start c).run calls).Aligned c :=
  invariant_run (fun _ _ hs hd => aligned_call hs hd) ⟨[], c, .nil, rfl, rfl, rfl⟩ h

/-! ## Readings in which nothing fails -/

/-- If the call is an `ingest` that fails, it is one that a paused reader refused. -/
def Unfailed (s : Reading) : ReaderCall → Prop
  | .ingest bytes => ∀ e, (s.ingest bytes).result = .error e → e = .readerFull
  | .next | .encrypt _ => True

theorem unfailed_of_ok {s : Reading} {bytes : Bytes} {waiting : Bool}
    (h : (s.ingest bytes).result = .ok waiting) : s.Unfailed (.ingest bytes) := by
  intro e herror
  rw [h] at herror
  exact nomatch herror

theorem failsFirst_of_unfailed {s : Reading} {d : ReaderCall} (h : s.Unfailed d) :
    s.FailsFirst d := by
  cases d with
  | ingest bytes =>
      have hout := ingested_ingest s.reader s.channel bytes
      simp only [Unfailed, FailsFirst, ingest] at h ⊢
      generalize s.reader.ingest s.channel bytes = out at hout h ⊢
      intro e heq
      cases hout with
      | refused => rfl
      | decoded => exact nomatch heq
      | failed _ _ hne _ => exact absurd (h _ rfl) hne
  | next | encrypt => trivial

/-- If the call is an `ingest` that succeeds, it has decoded all it could, and
says whether a message waits. -/
def Settles (s : Reading) : ReaderCall → Prop
  | .ingest bytes => ∀ waiting, (s.ingest bytes).result = .ok waiting →
      ((s.ingest bytes).state.1.ready.length = readyMax ∨
        ((s.ingest bytes).state.2.decryptFrame (s.ingest bytes).state.1.buffer).result = .ok none) ∧
      (waiting = true ↔ (s.ingest bytes).state.1.ready ≠ [])
  | .next | .encrypt _ => True

theorem settles {s : Reading} (hs : s.reader.ready.length ≤ readyMax) (d : ReaderCall) :
    s.Settles d := by
  cases d with
  | ingest bytes =>
      have hout := ingested_ingest s.reader s.channel bytes
      simp only [Settles, ingest]
      generalize s.reader.ingest s.channel bytes = out at hout ⊢
      intro waiting heq
      cases hout with
      | refused => exact nomatch heq
      | decoded _ _ hstop =>
          obtain rfl := Except.ok.inj heq
          refine ⟨hstop.imp_left fun hlength => ?_, by simp⟩
          rw [List.length_append, List.length_map, hlength]
          omega
      | failed => exact nomatch heq
  | next | encrypt => trivial

theorem ready_le_call {s : Reading} (hs : s.reader.ready.length ≤ readyMax) (d : ReaderCall) :
    (s.call d).reader.ready.length ≤ readyMax := by
  cases d with
  | ingest bytes =>
      have hout := ingested_ingest s.reader s.channel bytes
      simp only [call, ingest]
      generalize s.reader.ingest s.channel bytes = out at hout ⊢
      cases hout with
      | refused => exact hs
      | decoded _ hle _ | failed _ hle _ _ =>
          rw [List.length_append, List.length_map]
          omega
  | next =>
      unfold call next?
      cases hready : s.reader.ready with
      | nil => exact hs
      | cons message ready =>
          rw [hready, List.length_cons] at hs
          exact Nat.le_of_succ_le hs
  | encrypt => exact hs

theorem run_refines (c : Channel) (calls : List ReaderCall)
    (h : Always call Unfailed (start c) calls) :
    let s := (start c).run calls
    (∃ frames c', c.Receives s.taken frames c' s.reader.buffer ∧
      s.taken = (frames.map Framed.bytes).flatten ++ s.reader.buffer ∧
      s.given ++ s.reader.ready = frames.map Framed.message ∧
      s.channel.receiving = c'.receiving ∧ s.channel.pending = c'.pending) ∧
    Always call Settles (start c) calls := by
  intro s
  have hfirst : Always call FailsFirst (start c) calls := fun pre d post heq =>
    failsFirst_of_unfailed (h pre d post heq)
  obtain ⟨frames, c', hreceives, hmessages, hreceiving, hpending⟩ := aligned_run hfirst
  refine ⟨⟨frames, c', hreceives, receives_flatten hreceives, hmessages, hreceiving, hpending⟩, ?_⟩
  have hbound : (start c).reader.ready.length ≤ readyMax := Nat.zero_le _
  exact always_of_invariant (fun _ d hs _ => ready_le_call hs d) (fun _ d hs _ => settles hs d)
    hbound h

theorem run_refines_in_two_pieces :
    let key : RotatingKey := .start ⟨List.replicate 32 1, rfl⟩ ⟨List.replicate 32 7, rfl⟩
    let c : Channel := .ofKeys ⟨List.replicate 32 2, rfl⟩ key.key key.chainingKey
    let frame := key.frame [104, 105]
    let calls := [.ingest (frame.take 20), .encrypt [], .ingest (frame.drop 20), .next]
    Always call Unfailed (start c) calls ∧
      ∃ frames c', c.Receives frame frames c' [] ∧ [[104, 105]] = frames.map Framed.message := by
  intro key c frame calls
  have hfirst : ((start c).ingest (frame.take 20)).result = .ok false := by decide +kernel
  have hsecond : (((start c).run [.ingest (frame.take 20), .encrypt []]).ingest
      (frame.drop 20)).result = .ok true := by decide +kernel
  have h : Always call Unfailed (start c) calls := by
    rw [always_cons, always_cons, always_cons, always_cons]
    exact ⟨unfailed_of_ok hfirst, trivial, unfailed_of_ok hsecond, trivial, always_nil⟩
  have htaken : ((start c).run calls).taken = frame := by decide +kernel
  have hreader : ((start c).run calls).reader = .empty := by decide +kernel
  have hgiven : ((start c).run calls).given = [[104, 105]] := by decide +kernel
  obtain ⟨frames, c', hreceives, -, hmessages, -⟩ := (run_refines c calls h).1
  rw [htaken, hreader] at hreceives
  rw [hgiven, hreader] at hmessages
  exact ⟨h, frames, c', hreceives, hmessages⟩

/-! ## Bytes that are both received and buffered -/

/-- How many of the buffered bytes belong to messages that have been received. -/
def surplus (s : Reading) : ℤ :=
  framesSize s.received + s.reader.pendingBytes - s.taken.length

theorem surplus_of_aligned {c : Channel} {s : Reading} (h : s.Aligned c) : s.surplus = 0 := by
  obtain ⟨frames, c', hreceives, hmessages, -⟩ := h
  have hlength := length_of_receives hreceives
  rw [surplus, hmessages, hlength, pendingBytes]
  omega

/-- Messages received in an `ingest` that fails are what is added to the surplus. -/
theorem surplus_call (s : Reading) (d : ReaderCall) :
    ∃ again, (s.call d).surplus = s.surplus + framesSize again ∧ (s.FailsFirst d ↔ again = []) := by
  cases d with
  | ingest bytes =>
      have hout := ingested_ingest s.reader s.channel bytes
      simp only [FailsFirst, call, ingest]
      generalize s.reader.ingest s.channel bytes = out at hout ⊢
      cases hout with
      | refused =>
          exact ⟨[], by simp [surplus, received, framesSize_nil], by simp⟩
      | decoded hmore _ _ =>
          -- old buffer and new piece are the new frames and the new buffer
          have hlength := length_of_receives hmore
          rw [List.length_append] at hlength
          refine ⟨[], ?_, by simp⟩
          simp only [surplus, received, pendingBytes, framesSize_append, List.length_append,
            framesSize_nil]
          omega
      | @failed more _ _ _ e hmore _ hne _ =>
          -- old buffer and new piece are the new buffer, with the new frames still in it
          refine ⟨more.map Framed.message, ?_, by simp⟩
          rw [taken_of_ne hne]
          simp only [surplus, received, pendingBytes, framesSize_append, List.length_append]
          omega
  | next =>
      obtain ⟨hreceived, hbuffer, -, htaken⟩ := call_next s
      exact ⟨[], by simp [surplus, pendingBytes, hreceived, hbuffer, htaken, framesSize_nil],
        by simp [FailsFirst]⟩
  | encrypt message =>
      exact ⟨[], by simp [surplus, received, call, framesSize_nil], by simp [FailsFirst]⟩

theorem surplus_run (c : Channel) (calls : List ReaderCall) :
    0 ≤ ((start c).run calls).surplus ∧
      (((start c).run calls).surplus = 0 ↔ Always call FailsFirst (start c) calls) := by
  induction calls using List.reverseRecOn with
  | nil =>
      have hstart : ((start c).run []).surplus = 0 := rfl
      exact ⟨Int.le_of_eq hstart.symm, fun _ => always_nil, fun _ => hstart⟩
  | append_singleton calls d ih =>
      obtain ⟨again, hsurplus, hd⟩ := surplus_call ((start c).run calls) d
      obtain ⟨hnonneg, hzero⟩ := ih
      have hrun : (start c).run (calls ++ [d]) = ((start c).run calls).call d := by
        rw [run, List.foldl_append]
        rfl
      rw [hrun, hsurplus, always_snoc, ← run, ← hzero, hd, ← framesSize_eq_zero]
      omega

/-- What was taken in is at most what was received and what is buffered. It is
exactly that, and the buffer starts where the channel stands, as long as each
failure is at the first frame of its call. -/
theorem aligned_iff (c : Channel) (calls : List ReaderCall) :
    let s := (start c).run calls
    (s.Aligned c ↔ Always call FailsFirst (start c) calls) ∧
      s.taken.length ≤ framesSize s.received + s.reader.pendingBytes ∧
      (s.taken.length = framesSize s.received + s.reader.pendingBytes ↔
        Always call FailsFirst (start c) calls) := by
  intro s
  obtain ⟨hnonneg, hzero⟩ : 0 ≤ s.surplus ∧
      (s.surplus = 0 ↔ Always call FailsFirst (start c) calls) := surplus_run c calls
  refine ⟨⟨fun h => hzero.1 (surplus_of_aligned h), aligned_run⟩, ?_, ?_⟩
  · unfold surplus at hnonneg
    omega
  · rw [← hzero]
    unfold surplus
    omega

theorem not_aligned_of_second_frame_failed :
    let key : RotatingKey := .start ⟨List.replicate 32 1, rfl⟩ ⟨List.replicate 32 7, rfl⟩
    let c : Channel := .ofKeys ⟨List.replicate 32 2, rfl⟩ key.key key.chainingKey
    let bytes := key.frame "hello".toUTF8.data.toList ++
      (key.advance.advance.frame "world".toUTF8.data.toList).modify 0 (· ^^^ 1)
    ¬ ((start c).run [.ingest bytes]).Aligned c := by
  intro key c bytes h
  have hsurplus : ((start c).run [.ingest bytes]).surplus = 39 := by decide +kernel
  rw [surplus_of_aligned h] at hsurplus
  exact absurd hsurplus (by decide)

end Reading

end Bolt8
