import Bolt8.Proofs.Transport.Intruder
import Bolt8.Proofs.Transport.Pause

/-!
# A stream that is lost

After a frame that is not authentic a reader receives nothing more, although
nothing in it says that it has failed. If the frame was the first of its call,
it is still at the front of the buffer. Otherwise the frames decoded before it
are, and the counter has moved past them: their lengths would have to open a
second time, at another place. Either way the next attempt fails as well, and
finds a place in the queue (`lost_for_good`).
-/

namespace Bolt8

open Channel FrameReader

/-! ## The place after some frames -/

namespace Channel

variable {c c' : Channel} {stream rest : Bytes} {frames : List Framed}

theorem decryptFrame_of_receives {f : Framed} (h : c.Receives stream (f :: frames) c' rest) :
    (c.decryptFrame stream).result = .ok (some ⟨f.message, f.bytes.length⟩) := by
  generalize hmore : f :: frames = more at h
  cases h with
  | nil => cases hmore
  | cons hframe =>
      obtain ⟨rfl, -⟩ := List.cons.inj hmore
      exact hframe

/-- Each frame takes two counter values of the thousand. -/
theorem counter_of_receives (hc : c.receiving.AtFrame) (h : c.Receives stream frames c' rest) :
    c'.receiving.counter.toNat = (c.receiving.counter.toNat + 2 * frames.length) % 1000 := by
  induction h with
  | nil => exact (Nat.mod_eq_of_lt hc.2).symm
  | @cons c _ _ _ _ _ hframe _ ih =>
      have hcommit : c.commit.receiving = c.receiving.advance.advance := rfl
      rw [(decryptFrame_of_received hframe).2, hcommit] at ih
      rw [ih (RotatingKey.atFrame_advance_advance hc),
        RotatingKey.toNat_counter_advance_advance hc, List.length_cons]
      omega

/-! ## Attempts that fail -/

variable {input : Bytes}

theorem announces_of_decryptFrame {received : Received}
    (h : (c.decryptFrame input).result = .ok (some received)) :
    c.pending = none ∧ 18 ≤ input.length ∧ ∃ length, c.Announces input length := by
  have hattempt := attempt_decryptFrame c input
  generalize c.decryptFrame input = out at hattempt h
  cases hattempt with
  | busy | short | forgedLength | incomplete | forgedBody => cases h
  | whole hpending hannounces hlong =>
      rw [size_eq] at hlong
      exact ⟨hpending, by omega, _, hannounces⟩

theorem pending_of_notAuthentic (h : (c.decryptFrame input).result = .error .notAuthentic) :
    c.pending = none := by
  have hattempt := attempt_decryptFrame c input
  generalize c.decryptFrame input = out at hattempt h
  cases hattempt with
  | busy | short | incomplete | whole => cases h
  | forgedLength hpending | forgedBody hpending => exact hpending

theorem decryptFrame_of_forgedLength (hpending : c.pending = none)
    (hlong : 18 ≤ input.length) (hforged : ∀ length, ¬ c.Announces input length) :
    (c.decryptFrame input).result = .error .notAuthentic := by
  have hattempt := attempt_decryptFrame c input
  generalize c.decryptFrame input = out at hattempt
  cases hattempt with
  | busy hbusy => exact absurd hpending hbusy
  | short => omega
  | forgedLength | forgedBody => rfl
  | incomplete _ hannounces | whole _ hannounces => exact absurd hannounces (hforged _)

end Channel

/-! ## The texts that open -/

namespace Usage

theorem opened_call (u : Usage) (d : Channel.Call) :
    (u.call d).opened = u.opened ++ u.channel.openedBy d := rfl

theorem opened_prefix (u : Usage) (calls : List Channel.Call) :
    u.opened <+: (u.run calls).opened := by
  induction calls using List.reverseRecOn with
  | nil => exact List.prefix_rfl
  | append_singleton calls d ih =>
      rw [run_snoc, opened_call]
      exact ih.trans (List.prefix_append _ _)

end Usage

namespace FrameReader

variable {r : FrameReader} {c : Channel} {bytes : Bytes}

/-- A reader with a place in its queue decodes. -/
theorem not_full_of_room (hroom : r.ready.length < readyMax) :
    ¬(r.isPaused = true ∧ bufferMax < r.buffer.length + bytes.length) := by
  rw [isPaused_iff]
  omega

/-- The front of all the bytes is the first thing that it tries. -/
theorem exists_ingestCalls (hroom : r.ready.length < readyMax) :
    ∃ later, r.ingestCalls c bytes = .decryptFrame (r.buffer ++ bytes) :: later := by
  obtain ⟨places, hplaces⟩ := Nat.exists_eq_succ_of_ne_zero (Nat.sub_ne_zero_of_lt hroom)
  rw [ingestCalls, if_neg (not_full_of_room hroom), hplaces, asks]
  exact ⟨_, rfl⟩

/-- A sealed length that is found at the front opens where the channel stands. -/
theorem header_mem_opened {length : UInt16} (hroom : r.ready.length < readyMax)
    (hpending : c.pending = none) (h : c.Announces (r.buffer ++ bytes) length) :
    ⟨c.receiving.epoch, c.receiving.counter, (r.buffer ++ bytes).take 18⟩ ∈
      ((Usage.start c).run (r.ingestCalls c bytes)).opened := by
  obtain ⟨later, hcalls⟩ :
      ∃ later, r.ingestCalls c bytes = .decryptFrame (r.buffer ++ bytes) :: later :=
    exists_ingestCalls hroom
  obtain ⟨sealed, hfirst, hannounced⟩ := h
  obtain ⟨plain, hopen, -⟩ := Option.map_eq_some_iff.1 hannounced
  have htried : (0, sealed.val) ∈ c.triedBy (.decryptFrame (r.buffer ++ bytes)) := by
    simp only [triedBy, hpending, Option.isSome_none, Bool.false_eq_true, if_false, hfirst,
      List.mem_cons, true_or]
  have hopened := mem_openedBy htried hopen
  rw [UInt64.add_zero, FixedBytes.val_of_firstOf? hfirst] at hopened
  rw [hcalls, Usage.run, List.foldl_cons]
  apply (Usage.opened_prefix _ later).subset
  rw [Usage.opened_call]
  exact List.mem_append_right _ hopened

theorem ingest_of_error {e : Error} (hroom : r.ready.length < readyMax)
    (h : (c.decryptFrame (r.buffer ++ bytes)).result = .error e) :
    r.ingest c bytes = ⟨.error e, (⟨r.buffer ++ bytes, r.ready⟩, c), []⟩ := by
  obtain ⟨places, hplaces⟩ := Nat.exists_eq_succ_of_ne_zero (Nat.sub_ne_zero_of_lt hroom)
  rw [ingest, if_neg (not_full_of_room hroom), hplaces]
  simp only [decode, decryptFrame_of_error h, List.append_nil]

end FrameReader

namespace Reading

/-- The texts that a call opens, with the places at which they open. -/
def openedBy (s : Reading) : ReaderCall → List Segment
  | .ingest bytes => ((Usage.start s.channel).run (s.reader.ingestCalls s.channel bytes)).opened
  | .next | .encrypt _ => []

/-- The texts that a sequence of calls opens. -/
def opened (s : Reading) : List ReaderCall → List Segment
  | [] => []
  | d :: calls => s.openedBy d ++ (s.call d).opened calls

/-- No text opens at two places. -/
def OpensOnce (s : Reading) (calls : List ReaderCall) : Prop :=
  ∀ z ∈ s.opened calls, ∀ z' ∈ s.opened calls, z.bytes = z'.bytes → z = z'

instance (s : Reading) (calls : List ReaderCall) : Decidable (s.OpensOnce calls) :=
  inferInstanceAs (Decidable (∀ z ∈ s.opened calls, ∀ z' ∈ s.opened calls,
    z.bytes = z'.bytes → z = z'))

theorem always_openedBy (s : Reading) (calls : List ReaderCall) :
    Always call (fun t d => t.openedBy d ⊆ s.opened calls) s calls := by
  induction calls generalizing s with
  | nil => exact always_nil
  | cons d calls ih =>
      rw [always_cons]
      refine ⟨List.subset_append_left _ _, ?_⟩
      intro pre d' post heq
      exact List.Subset.trans (ih (s.call d) pre d' post heq) (List.subset_append_right _ _)

theorem reachable_call {s : Reading} (hs : s.channel.Reachable) (d : ReaderCall) :
    (s.call d).channel.Reachable := by
  cases d with
  | ingest bytes => exact reachable_ingest hs s.reader bytes
  | next =>
      rw [(call_next s).2.2.1]
      exact hs
  | encrypt message => exact hs.after (.encrypt message)

theorem reachable_run {c : Channel} (hc : c.Reachable) (calls : List ReaderCall) :
    ((start c).run calls).channel.Reachable := by
  induction calls using List.reverseRecOn with
  | nil => exact hc
  | append_singleton calls d ih =>
      rw [run, List.foldl_append]
      exact reachable_call ih d

/-! ## Nothing more to receive -/

/-- The next attempt to receive will be made, and will fail: what is buffered
begins with a frame that does, or with a text that has opened elsewhere. -/
structure Lost (log : List Segment) (s : Reading) : Prop where
  idle : s.channel.pending = none
  room : s.reader.ready.length < readyMax
  front : (s.channel.decryptFrame s.reader.buffer).result = .error .notAuthentic ∨
    18 ≤ s.reader.buffer.length ∧
      ∃ z ∈ log, z.bytes = s.reader.buffer.take 18 ∧ z.counter ≠ s.channel.receiving.counter

/-- If the call is an `ingest`, it fails with what it finds at the front. -/
def Refuses (s : Reading) : ReaderCall → Prop
  | .ingest bytes => (s.ingest bytes).result = .error .notAuthentic
  | .next | .encrypt _ => True

/-- From the one to the other nothing is received, and what is handed out was waiting. -/
def Drains (s t : Reading) : Prop :=
  t.channel.receiving = s.channel.receiving ∧
    ∃ out, t.given = s.given ++ out ∧ out ++ t.reader.ready = s.reader.ready

theorem drains_refl (s : Reading) : s.Drains s :=
  ⟨rfl, [], (List.append_nil _).symm, rfl⟩

theorem drains_trans {s t u : Reading} (h : s.Drains t) (hmore : t.Drains u) : s.Drains u := by
  obtain ⟨hreceiving, out, hgiven, hready⟩ := h
  obtain ⟨hreceiving', more, hgiven', hready'⟩ := hmore
  refine ⟨hreceiving'.trans hreceiving, out ++ more, ?_, ?_⟩
  · rw [hgiven', hgiven, List.append_assoc]
  · rw [List.append_assoc, hready', hready]

variable {s : Reading} {log : List Segment} {bytes : Bytes}

theorem drained_next (s : Reading) :
    ∃ out, (s.call .next).given = s.given ++ out ∧
      out ++ (s.call .next).reader.ready = s.reader.ready := by
  unfold call next?
  cases hready : s.reader.ready with
  | nil => exact ⟨[], (List.append_nil _).symm, hready⟩
  | cons message ready => exact ⟨[message], rfl, rfl⟩

theorem lost_of_failed (hs : s.channel.Reachable) (hlog : s.openedBy (.ingest bytes) ⊆ log)
    (h : (s.ingest bytes).result = .error .notAuthentic) : Lost log (s.call (.ingest bytes)) := by
  have hroom := ready_lt_of_failed (by decide) h
  have hkey := (atFrame_of_reachable hs).2
  have hout := ingested_ingest s.reader s.channel bytes
  simp only [ingest, call] at h ⊢
  generalize s.reader.ingest s.channel bytes = out at hout h hroom ⊢
  cases hout with
  | refused | decoded => cases h
  | @failed frames c' rest _ e hreceives hle _ hfail =>
      obtain rfl := Except.error.inj h
      refine ⟨pending_of_notAuthentic hfail, hroom, ?_⟩
      cases frames with
      | nil =>
          obtain ⟨rfl, rfl⟩ := eq_of_receives_nil hreceives
          exact .inl hfail
      | cons f frames =>
          obtain ⟨hpending, hlong, length, hannounces⟩ :=
            announces_of_decryptFrame (decryptFrame_of_receives hreceives)
          have hplace : s.reader.ready.length < readyMax := by
            rw [List.length_cons] at hle
            omega
          refine .inr ⟨hlong, _, hlog (header_mem_opened hplace hpending hannounces), rfl, ?_⟩
          -- at most eight frames were decoded, too few for the counter to come round
          intro heq
          have hcounter : s.channel.receiving.counter.toNat = _ :=
            (congrArg UInt64.toNat heq).trans (counter_of_receives hkey hreceives)
          rw [List.length_cons] at hcounter hle
          rw [readyMax] at hle
          have := hkey.2
          omega

theorem decryptFrame_of_lost (hs : Lost log s)
    (hsingle : ∀ z ∈ log, ∀ z' ∈ log, z.bytes = z'.bytes → z = z')
    (hlog : s.openedBy (.ingest bytes) ⊆ log) :
    (s.channel.decryptFrame (s.reader.buffer ++ bytes)).result = .error .notAuthentic := by
  rcases hs.front with hfail | ⟨hlong, z, hz, hbytes, hne⟩
  · rw [decryptFrame_append (by rw [hfail]; nofun), hfail]
  · apply decryptFrame_of_forgedLength hs.idle
    · rw [List.length_append]
      omega
    · intro length hannounces
      -- the sealed length of a frame that has been received would open again
      have hagain := hlog (header_mem_opened hs.room hs.idle hannounces)
      rw [List.take_append_of_le_length hlong] at hagain
      exact hne (congrArg Segment.counter (hsingle z hz _ hagain hbytes))

theorem lost_call (hs : Lost log s)
    (hsingle : ∀ z ∈ log, ∀ z' ∈ log, z.bytes = z'.bytes → z = z') {d : ReaderCall}
    (hlog : s.openedBy d ⊆ log) : s.Refuses d ∧ Lost log (s.call d) ∧ s.Drains (s.call d) := by
  cases d with
  | ingest bytes =>
      have hfail := decryptFrame_of_lost hs hsingle hlog
      have hout := ingest_of_error hs.room hfail
      simp only [Refuses, call, ingest, hout]
      exact ⟨trivial, ⟨hs.idle, hs.room, .inl hfail⟩, rfl, [], (List.append_nil _).symm, rfl⟩
  | next =>
      obtain ⟨-, hbuffer, hchannel, -⟩ := call_next s
      have hready := ready_call_next s
      refine ⟨trivial, ⟨?_, ?_, ?_⟩, ?_⟩
      · rw [hchannel]
        exact hs.idle
      · rw [hready, List.length_tail]
        exact (Nat.sub_le _ _).trans_lt hs.room
      · rw [hchannel, hbuffer]
        exact hs.front
      · rw [Drains, hchannel]
        exact ⟨rfl, drained_next s⟩
  | encrypt message =>
      obtain ⟨hreceiving, hpending⟩ := sameReceiving_encrypt s.channel message
      have hattempt := decryptFrame_congr ⟨hreceiving, hpending⟩ s.reader.buffer
      refine ⟨trivial, ⟨hpending.trans hs.idle, hs.room, ?_⟩, hreceiving, [], ?_, rfl⟩
      · rcases hs.front with hfail | ⟨hlong, z, hz, hbytes, hne⟩
        · exact .inl (hattempt.1.trans hfail)
        · refine .inr ⟨hlong, z, hz, hbytes, ?_⟩
          rw [call, hreceiving]
          exact hne
      · exact (List.append_nil _).symm

theorem lost_run (hs : Lost log s)
    (hsingle : ∀ z ∈ log, ∀ z' ∈ log, z.bytes = z'.bytes → z = z') {calls : List ReaderCall}
    (hlog : Always call (fun t d => t.openedBy d ⊆ log) s calls) :
    Always call Refuses s calls ∧ s.Drains (s.run calls) := by
  have hstep : ∀ t d, Lost log t ∧ s.Drains t → t.openedBy d ⊆ log →
      Lost log (t.call d) ∧ s.Drains (t.call d) := by
    rintro t d ⟨ht, hdrains⟩ hopened
    obtain ⟨-, hlost, hmore⟩ := lost_call ht hsingle hopened
    exact ⟨hlost, drains_trans hdrains hmore⟩
  have hrefuses : ∀ t d, Lost log t ∧ s.Drains t → t.openedBy d ⊆ log → t.Refuses d := by
    rintro t d ⟨ht, -⟩ hopened
    exact (lost_call ht hsingle hopened).1
  have hstart : Lost log s ∧ s.Drains s := ⟨hs, drains_refl s⟩
  exact ⟨always_of_invariant hstep hrefuses hstart hlog, (invariant_run hstep hstart hlog).2⟩

/-- After an `ingest` that fails with what is not authentic, every other does so
too, whatever the bytes. The receiving key stands still, and all that is still
handed out is what was waiting. It is assumed that no text opens at two places. -/
theorem lost_for_good {c : Channel} (hc : c.Reachable) {before later : List ReaderCall}
    {bytes : Bytes} (honce : (start c).OpensOnce (before ++ .ingest bytes :: later))
    (hfail : (((start c).run before).ingest bytes).result = .error .notAuthentic) :
    let s := (start c).run (before ++ [.ingest bytes])
    Always call Refuses s later ∧ ∀ front, front <+: later → s.Drains (s.run front) := by
  intro s
  have hs : s = ((start c).run before).call (.ingest bytes) := by
    simp only [s, run, List.foldl_append, List.foldl_cons, List.foldl_nil]
  have hopened := always_openedBy (start c) (before ++ .ingest bytes :: later)
  rw [always_append, always_cons] at hopened
  obtain ⟨-, hingest, hlater⟩ := hopened
  have hlost := lost_of_failed (reachable_run hc before) hingest hfail
  change Always call _ (((start c).run before).call (.ingest bytes)) later at hlater
  rw [← hs] at hlost hlater
  refine ⟨(lost_run hlost honce hlater).1, ?_⟩
  rintro front ⟨rest, rfl⟩
  exact (lost_run hlost honce (always_append.1 hlater).1).2

theorem lost_for_good_of_second_frame_failed :
    let key : RotatingKey := .start ⟨List.replicate 32 1, rfl⟩ ⟨List.replicate 32 7, rfl⟩
    let c : Channel := .ofKeys ⟨List.replicate 32 2, rfl⟩ key.key key.chainingKey
    let bytes := key.frame [104, 105] ++
      (key.advance.advance.frame []).modify 0 (· ^^^ 1)
    let later := [.next, .ingest [0]]
    (start c).OpensOnce ([] ++ .ingest bytes :: later) ∧
      ((start c).ingest bytes).result = .error .notAuthentic ∧
      Always call Refuses ((start c).run [.ingest bytes]) later := by
  intro key c bytes later
  have hc : c.Reachable := .ofKeys _ _ _
  have hboth : (start c).OpensOnce ([] ++ .ingest bytes :: later) ∧
      ((start c).ingest bytes).result = .error .notAuthentic := by decide +kernel
  obtain ⟨honce, hfail⟩ := hboth
  clear_value c
  exact ⟨honce, hfail, (lost_for_good hc honce hfail).1⟩

end Reading

end Bolt8
