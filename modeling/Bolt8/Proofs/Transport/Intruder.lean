import Bolt8.Proofs.Run
import Bolt8.Proofs.Transport.Accept
import Bolt8.Proofs.Transport.Schedule
import Bolt8.Transport.FrameReader
import Mathlib.Data.List.Infix

/-!
# An intruder on the wire

A sender, and a receiver that is given whatever an intruder likes. As long as
every text that the receiver opens is one that the sender sealed before, at the
same epoch and counter value, the receiver has no choice: the text in which a
message comes has been sealed at one place only, so the messages received are
the first ones sent, in order (`received_in_order`).
-/

namespace Bolt8

open Channel RotatingKey

/-! ## What a reader asks its channel for -/

namespace FrameReader

/-- The calls that `decode` makes. -/
def asks : (places : ℕ) → Channel → Bytes → List Channel.Call
  | 0, _, _ => []
  | places + 1, c, input =>
    .decryptFrame input ::
      match (c.decryptFrame input).result with
      | .ok (some frame) => asks places (c.decryptFrame input).state (input.drop frame.size)
      | .ok none | .error _ => []

/-- The calls that `ingest` makes. -/
def ingestCalls (r : FrameReader) (c : Channel) (bytes : Bytes) : List Channel.Call :=
  if r.isPaused ∧ bufferMax < r.buffer.length + bytes.length then []
  else asks (readyMax - r.ready.length) c (r.buffer ++ bytes)

theorem run_asks (places : ℕ) (u : Usage) (input : Bytes) :
    let used := u.run (asks places u.channel input)
    used.channel = (decode places u.channel input).channel ∧
      used.accepted = u.accepted ++ (decode places u.channel input).messages := by
  induction places generalizing u input with
  | zero => exact ⟨rfl, (List.append_nil _).symm⟩
  | succ places ih =>
      have hchannel : (u.call (.decryptFrame input)).channel =
          (u.channel.decryptFrame input).state := rfl
      have haccepted : (u.call (.decryptFrame input)).accepted =
          u.accepted ++ u.channel.acceptedBy (.decryptFrame input) := rfl
      simp only [asks, decode, Usage.run, List.foldl_cons]
      cases hresult : (u.channel.decryptFrame input).result with
      | error e =>
          simp only [acceptedBy, hresult] at haccepted
          exact ⟨hchannel, haccepted⟩
      | ok received =>
          cases received with
          | none =>
              simp only [acceptedBy, hresult] at haccepted
              exact ⟨hchannel, haccepted⟩
          | some frame =>
              simp only [acceptedBy, hresult] at haccepted
              have hrest := ih (u.call (.decryptFrame input)) (input.drop frame.size)
              rw [hchannel, haccepted, List.append_assoc] at hrest
              exact hrest

theorem run_ingestCalls (r : FrameReader) (u : Usage) (bytes : Bytes) :
    let used := u.run (r.ingestCalls u.channel bytes)
    let out := (r.ingest u.channel bytes).state
    used.channel = out.2 ∧
      ∃ more, used.accepted = u.accepted ++ more ∧ out.1.ready = r.ready ++ more := by
  unfold ingestCalls ingest
  by_cases hfull : r.isPaused ∧ bufferMax < r.buffer.length + bytes.length
  · rw [if_pos hfull, if_pos hfull]
    exact ⟨rfl, [], (List.append_nil _).symm, (List.append_nil _).symm⟩
  · rw [if_neg hfull, if_neg hfull]
    obtain ⟨hchannel, haccepted⟩ :=
      run_asks (readyMax - r.ready.length) u (r.buffer ++ bytes)
    dsimp only
    cases (decode (readyMax - r.ready.length) u.channel (r.buffer ++ bytes)).stopped with
    | none => exact ⟨hchannel, _, haccepted, rfl⟩
    | some e => exact ⟨hchannel, _, haccepted, rfl⟩

theorem reachable_ingest {c : Channel} (hc : c.Reachable) (r : FrameReader) (bytes : Bytes) :
    (r.ingest c bytes).state.2.Reachable := by
  have hrun : ∀ calls, ((Usage.start c).run calls).channel.Reachable := by
    intro calls
    induction calls using List.reverseRecOn with
    | nil => exact hc
    | append_singleton calls d ih =>
        rw [Usage.run_snoc]
        exact ih.after d
  have hchannel : _ = (r.ingest c bytes).state.2 := (run_ingestCalls r (Usage.start c) bytes).1
  rw [← hchannel]
  exact hrun _

end FrameReader

/-! ## Sender, receiver and intruder -/

/-- What one end has sent and another has received. The receiver is also read
by a reader, which has handed out the messages `given`. -/
structure Tapped where
  sender : Usage
  receiver : Usage
  reader : FrameReader
  given : List Bytes

namespace Tapped

/-- A call on the sender, a call on the receiver, or one on the reader. The
arguments are the intruder's choice. -/
inductive Move
  | send (d : Channel.Call)
  | receive (d : Channel.Call)
  | ingest (bytes : Bytes)
  | next

def start (t r : Channel) : Tapped := ⟨.start t, .start r, .empty, []⟩

def after (s : Tapped) : Move → Tapped
  | .send d => { s with sender := s.sender.call d }
  | .receive d => { s with receiver := s.receiver.call d }
  | .ingest bytes =>
    { s with
      receiver := s.receiver.run (s.reader.ingestCalls s.receiver.channel bytes)
      reader := (s.reader.ingest s.receiver.channel bytes).state.1 }
  | .next =>
    match s.reader.next? with
    | none => s
    | some (message, reader) => { s with reader, given := s.given ++ [message] }

def run (s : Tapped) (moves : List Move) : Tapped := moves.foldl after s

/-- All that the receiver has opened, this move included, has been sealed by the
sender before, at the same epoch and counter value. -/
def Genuine (s : Tapped) (m : Move) : Prop :=
  ∀ z ∈ (s.after m).receiver.opened, z ∈ s.sender.sealed

instance (s : Tapped) (m : Move) : Decidable (s.Genuine m) :=
  inferInstanceAs (Decidable (∀ z ∈ (s.after m).receiver.opened, z ∈ s.sender.sealed))

/-- Not a call by which the receiver receives other than through the reader. -/
def ByReader : Move → Prop
  | .receive (.encrypt _) | .send _ | .ingest _ | .next => True
  | .receive _ => False

end Tapped

/-! ## One place for each text -/

section

variable {key : Aead.Key} {chainingKey : Digest}

/-- As long as the epochs do not run out, what is sealed where the body of
message `n` is due is the body of message `n`. -/
theorem eq_of_mem_segments {i n : ℕ} {message bytes : Bytes}
    (hi : i / 500 < UInt64.size) (hn : n / 500 < UInt64.size)
    (h : ⟨(scheduled key chainingKey n).epoch, (scheduled key chainingKey n).counter + 1, bytes⟩ ∈
      (scheduled key chainingKey i).segments message) :
    i = n ∧ bytes = (scheduled key chainingKey n).advance.encrypt message := by
  have hepoch : ∀ {n}, n / 500 < UInt64.size →
      (scheduled key chainingKey n).epoch.toNat = n / 500 := toNat_epoch_scheduled
  have hcounter : ∀ n, (scheduled key chainingKey n).counter.toNat = 2 * (n % 500) :=
    toNat_counter_scheduled
  have hbody : ∀ n, ((scheduled key chainingKey n).counter + 1).toNat = 2 * (n % 500) + 1 := by
    intro n
    rw [UInt64.toNat_add, hcounter]
    have := Nat.mod_lt n (show 0 < 500 by decide)
    simp
    omega
  rw [segments, List.mem_cons, List.mem_singleton] at h
  rcases h with h | h
  · -- the counter of a length is even, that of a body is odd
    obtain ⟨-, heq, -⟩ := Segment.mk.inj h
    have heven := congrArg UInt64.toNat heq
    rw [hbody, hcounter] at heven
    omega
  · rw [advance_eq (atFrame_scheduled i)] at h
    obtain ⟨hepochs, hcounters, hbytes⟩ := Segment.mk.inj h
    have hquotient := congrArg UInt64.toNat hepochs
    have hremainder := congrArg UInt64.toNat hcounters
    rw [hepoch hn, hepoch hi] at hquotient
    rw [hbody, hbody] at hremainder
    obtain rfl : i = n := by omega
    exact ⟨rfl, by rw [hbytes, advance_eq (atFrame_scheduled i)]⟩

/-! ## Messages in order -/

/-- The keys of both ends are on one schedule, all that is sealed are the texts
of messages sent, and the messages received are the first of these. -/
structure InOrder (key : Aead.Key) (chainingKey : Digest) (sender receiver : Usage) : Prop where
  sending : sender.channel.sending = scheduled key chainingKey sender.sent.length
  receiving : receiver.channel.receiving = scheduled key chainingKey receiver.accepted.length
  sealed : ∀ z ∈ sender.sealed, ∃ i message, sender.sent[i]? = some message ∧
    z ∈ (scheduled key chainingKey i).segments message
  delivered : receiver.accepted <+: sender.sent

namespace InOrder

variable {sender receiver : Usage}

theorem start {t r : Channel} (ht : t.sending = .start key chainingKey)
    (hr : r.receiving = .start key chainingKey) :
    InOrder key chainingKey (.start t) (.start r) where
  sending := ht.trans scheduled_zero.symm
  receiving := hr.trans scheduled_zero.symm
  sealed := nofun
  delivered := List.prefix_rfl

theorem send (h : InOrder key chainingKey sender receiver) (d : Channel.Call) :
    InOrder key chainingKey (sender.call d) receiver := by
  have hsending := Usage.sending_call h.sending d
  have hdoes := does_use sender.channel d
  unfold Usage.call at hsending ⊢
  generalize sender.channel.use d = out at hdoes hsending ⊢
  refine ⟨hsending, h.receiving, ?_, h.delivered.trans (List.prefix_append _ _)⟩
  have hearlier : ∀ z ∈ sender.sealed, ∃ i message, (sender.sent ++ out.sent)[i]? = some message ∧
      z ∈ (scheduled key chainingKey i).segments message := by
    intro z hz
    obtain ⟨i, message, hsent, hmem⟩ := h.sealed z hz
    obtain ⟨hi, -⟩ := List.getElem?_eq_some_iff.1 hsent
    exact ⟨i, message, by rw [List.getElem?_append_left hi, hsent], hmem⟩
  intro z hz
  rcases List.mem_append.1 hz with hz | hz
  · exact hearlier z hz
  · cases hdoes with
    | @send message _ =>
        refine ⟨sender.sent.length, message, List.getElem?_concat_length, ?_⟩
        rw [← h.sending]
        exact hz
    | receive | neither =>
        exact nomatch hz

theorem receive (h : InOrder key chainingKey sender receiver)
    (hepochs : sender.sent.length / 500 < UInt64.size) {d : Channel.Call}
    (hgenuine : ∀ z ∈ (receiver.call d).opened, z ∈ sender.sealed) :
    InOrder key chainingKey sender (receiver.call d) := by
  have hreceiving := Usage.receiving_call h.receiving d
  have hdoes := does_use receiver.channel d
  unfold Usage.call at hreceiving hgenuine ⊢
  generalize receiver.channel.use d = out at hdoes hreceiving hgenuine ⊢
  refine ⟨h.sending, hreceiving, h.sealed, ?_⟩
  cases hdoes with
  | send | neither =>
      simp only [List.append_nil]
      exact h.delivered
  | @receive _ bytes message opened hopened hopen =>
      have hsealed := hgenuine _ (List.mem_append_right _ hopened)
      obtain ⟨i, message', hsent, hmem⟩ := h.sealed _ hsealed
      obtain ⟨hi, hget⟩ := List.getElem?_eq_some_iff.1 hsent
      have hle := h.delivered.length_le
      rw [h.receiving] at hmem hopen
      obtain ⟨rfl, rfl⟩ := eq_of_mem_segments (by omega) (by omega) hmem
      -- the text is the body of the message that is due, so it opens to that message
      rw [decryptAt_encrypt_advance (atFrame_scheduled _)] at hopen
      obtain rfl := Option.some.inj hopen
      rw [← hget]
      exact List.concat_get_prefix h.delivered hi

theorem receive_all (h : InOrder key chainingKey sender receiver)
    (hepochs : sender.sent.length / 500 < UInt64.size) {calls : List Channel.Call}
    (hgenuine : ∀ z ∈ (receiver.run calls).opened, z ∈ sender.sealed) :
    InOrder key chainingKey sender (receiver.run calls) := by
  induction calls using List.reverseRecOn with
  | nil =>
      exact h
  | append_singleton calls d ih =>
      rw [Usage.run_snoc] at hgenuine ⊢
      exact (ih fun z hz => hgenuine z (List.mem_append_left _ hz)).receive hepochs hgenuine

end InOrder

end

namespace Tapped

variable {key : Aead.Key} {chainingKey : Digest} {s : Tapped} {m : Move}

theorem run_snoc (s : Tapped) (moves : List Move) (m : Move) :
    s.run (moves ++ [m]) = (s.run moves).after m := by
  rw [run, List.foldl_append]
  rfl

theorem after_next (s : Tapped) :
    (s.after .next).sender = s.sender ∧ (s.after .next).receiver = s.receiver ∧
      (s.after .next).given ++ (s.after .next).reader.ready = s.given ++ s.reader.ready := by
  unfold after FrameReader.next?
  cases hready : s.reader.ready <;> simp [hready]

theorem sent_le_after (s : Tapped) (m : Move) :
    s.sender.sent.length ≤ (s.after m).sender.sent.length := by
  cases m with
  | send d => exact (List.prefix_append s.sender.sent _).length_le
  | receive | ingest => exact Nat.le_refl _
  | next => rw [(after_next s).1]

theorem inOrder_after (h : InOrder key chainingKey s.sender s.receiver)
    (hepochs : s.sender.sent.length / 500 < UInt64.size) (hm : s.Genuine m) :
    InOrder key chainingKey (s.after m).sender (s.after m).receiver := by
  cases m with
  | send d =>
      exact h.send d
  | receive d =>
      exact h.receive hepochs hm
  | ingest bytes =>
      exact h.receive_all hepochs hm
  | next =>
      obtain ⟨hsender, hreceiver, -⟩ := after_next s
      rw [hsender, hreceiver]
      exact h

theorem inOrder_run {t r : Channel} (ht : t.sending = .start key chainingKey)
    (hr : r.receiving = .start key chainingKey) {moves : List Move}
    (hepochs : ((start t r).run moves).sender.sent.length / 500 < UInt64.size)
    (hgenuine : Always after Genuine (start t r) moves) :
    InOrder key chainingKey ((start t r).run moves).sender ((start t r).run moves).receiver := by
  induction moves using List.reverseRecOn with
  | nil =>
      exact .start ht hr
  | append_singleton moves m ih =>
      rw [run_snoc] at hepochs ⊢
      obtain ⟨hmoves, hm⟩ := always_snoc.1 hgenuine
      have hle := sent_le_after ((start t r).run moves) m
      have hearlier : ((start t r).run moves).sender.sent.length / 500 < UInt64.size := by omega
      exact inOrder_after (ih hearlier hmoves) hearlier hm

/-- What the reader has handed out and what waits in it is all that was received. -/
theorem read_run (t r : Channel) {moves : List Move} (hreader : ∀ m ∈ moves, ByReader m) :
    let s := (start t r).run moves
    s.given ++ s.reader.ready = s.receiver.accepted := by
  induction moves using List.reverseRecOn with
  | nil =>
      rfl
  | append_singleton moves m ih =>
      have hearlier := ih fun m hm => hreader m (List.mem_append_left _ hm)
      have hm := hreader m (List.mem_append_right _ (List.mem_singleton_self m))
      rw [run_snoc]
      generalize (start t r).run moves = s at hearlier ⊢
      dsimp only at hearlier ⊢
      cases m with
      | send d =>
          exact hearlier
      | receive d =>
          cases d with
          | encrypt message => exact hearlier.trans (List.append_nil _).symm
          | decryptLength | decryptMessage | decryptFrame => exact hm.elim
      | ingest bytes =>
          obtain ⟨-, more, haccepted, hready⟩ :=
            FrameReader.run_ingestCalls s.reader s.receiver bytes
          simp only [after]
          rw [haccepted, hready, ← List.append_assoc, hearlier]
      | next =>
          obtain ⟨-, hreceiver, hgiven⟩ := after_next s
          rw [hgiven, hreceiver, hearlier]

/-- Whatever the intruder does short of a forgery, and as long as the epochs, 64
bits wide, do not come round again, the messages received are the first ones sent,
in order. So are those that a reader hands out, errors or not. -/
theorem received_in_order {t r : Channel} (ht : t.sending = .start key chainingKey)
    (hr : r.receiving = .start key chainingKey) {moves : List Move}
    (hepochs : ((start t r).run moves).sender.sent.length / 500 < UInt64.size)
    (hgenuine : Always after Genuine (start t r) moves) :
    let s := (start t r).run moves
    s.receiver.accepted <+: s.sender.sent ∧
      ((∀ m ∈ moves, ByReader m) → s.given <+: s.sender.sent) := by
  intro s
  have hdelivered : s.receiver.accepted <+: s.sender.sent :=
    (inOrder_run ht hr hepochs hgenuine).delivered
  refine ⟨hdelivered, fun hreader => ?_⟩
  have hread : s.given ++ s.reader.ready = s.receiver.accepted := read_run t r hreader
  exact (List.prefix_append s.given s.reader.ready).trans (hread ▸ hdelivered)

theorem received_in_order_despite_replay :
    let key : Aead.Key := ⟨List.replicate 32 1, rfl⟩
    let chainingKey : Digest := ⟨List.replicate 32 7, rfl⟩
    let t : Channel := .ofKeys key ⟨List.replicate 32 2, rfl⟩ chainingKey
    let r : Channel := .ofKeys ⟨List.replicate 32 2, rfl⟩ key chainingKey
    let frame := t.sending.frame [104, 105]
    let moves : List Move :=
      [.send (.encrypt [104, 105]), .send (.encrypt []), .ingest frame, .ingest frame, .next]
    let s := (start t r).run moves
    s.sender.sent.length / 500 < UInt64.size ∧ Always after Genuine (start t r) moves ∧
      s.given = [[104, 105]] ∧ [[104, 105]] <+: s.sender.sent := by
  intro key chainingKey t r frame moves s
  have ht : t.sending = .start key chainingKey := rfl
  have hr : r.receiving = .start key chainingKey := rfl
  have hepochs : s.sender.sent.length / 500 < UInt64.size := by decide +kernel
  have hgenuine : Always after Genuine (start t r) moves := by
    simp only [moves, always_cons]
    refine ⟨nofun, nofun, ?_, ?_, ?_, always_nil⟩ <;> decide +kernel
  have hgiven : s.given = [[104, 105]] := by decide +kernel
  have hreader : ∀ m ∈ moves, ByReader m := by simp [moves, ByReader]
  -- from here on the channels need not be computed any more
  clear_value t r
  have hprefix : s.given <+: s.sender.sent := (received_in_order ht hr hepochs hgenuine).2 hreader
  rw [← hgiven]
  exact ⟨hepochs, hgenuine, rfl, hprefix⟩

end Tapped

end Bolt8
