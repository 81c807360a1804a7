import Bolt8.Proofs.Run
import Bolt8.Proofs.Transport.Parts

/-!
# Attempts that come to nothing

A call that sends nothing and receives no message changes no more than the
length that is pending. After any number of them, on any bytes, the length asked
for last is pending, and for the rest the channel is what it was: the next
frame is received as if it were the first attempt (`undisturbed`).
-/

namespace Bolt8

namespace Channel

/-- What is asked for is a length. -/
def Call.AsksLength : Call → Prop
  | .decryptLength _ => True
  | .encrypt _ | .decryptMessage _ | .decryptFrame _ => False

/-- A call that is refused, finds no whole frame, or only receives a length. -/
def Fruitless (c : Channel) : Call → Prop
  | .encrypt message => ∃ e, (c.encrypt message).result = .error e
  | .decryptLength _ => True
  | .decryptMessage sealed => ∃ e, (c.decryptMessage sealed).result = .error e
  | .decryptFrame input =>
    (c.decryptFrame input).result = .ok none ∨ ∃ e, (c.decryptFrame input).result = .error e

/-- The channel after a sequence of calls. -/
def run (c : Channel) (calls : List Call) : Channel := calls.foldl after c

variable {c : Channel} {d : Call} {calls : List Call}

/-! ## One call -/

theorem after_of_fruitless (h : c.Fruitless d) (hd : ¬ d.AsksLength) : c.after d = c := by
  cases d with
  | encrypt message =>
      obtain ⟨e, herror⟩ := h
      by_cases hlarge : maxMessageSize < message.length
      · rw [after, encrypt, if_pos hlarge]
      · rw [encrypt_eq c (Nat.le_of_not_lt hlarge)] at herror
        cases herror
  | decryptLength sealed => exact absurd trivial hd
  | decryptMessage sealed =>
      obtain ⟨e, herror⟩ := h
      have hattempt := attempt_decryptMessage c sealed
      rw [after]
      generalize c.decryptMessage sealed = out at hattempt herror ⊢
      cases hattempt with
      | early | misfit | forged => rfl
      | received => cases herror
  | decryptFrame input =>
      rw [Fruitless] at h
      have hattempt := attempt_decryptFrame c input
      rw [after]
      generalize c.decryptFrame input = out at hattempt h ⊢
      cases hattempt with
      | busy | short | forgedLength | incomplete | forgedBody => rfl
      | whole =>
          rcases h with hnone | ⟨e, herror⟩
          · cases hnone
          · cases herror

theorem after_decryptLength (c : Channel) (sealed : FixedBytes 18) :
    c.after (.decryptLength sealed) =
      { c with pending := (c.decryptLength sealed).result.toOption } := by
  rw [after]
  cases h : c.announced sealed with
  | none => rw [decryptLength_of_forged h]; rfl
  | some length => rw [decryptLength_of_announced h]; rfl

/-! ## Any number of calls -/

theorem run_cons (c : Channel) (d : Call) (calls : List Call) :
    c.run (d :: calls) = (c.after d).run calls := rfl

theorem run_append (c : Channel) (calls later : List Call) :
    c.run (calls ++ later) = (c.run calls).run later :=
  List.foldl_append

theorem exists_pending_of_fruitless (h : c.Fruitless d) :
    ∃ pending, c.after d = { c with pending } := by
  cases d with
  | decryptLength sealed => exact ⟨_, after_decryptLength c sealed⟩
  | encrypt | decryptMessage | decryptFrame => exact ⟨c.pending, after_of_fruitless h id⟩

theorem run_of_fruitless (h : Always after Fruitless c calls) :
    ∃ pending, c.run calls = { c with pending } := by
  induction calls generalizing c with
  | nil => exact ⟨c.pending, rfl⟩
  | cons d calls ih =>
      obtain ⟨hd, hcalls⟩ := always_cons.1 h
      obtain ⟨pending, hafter⟩ := exists_pending_of_fruitless hd
      obtain ⟨pending', hrun⟩ := ih hcalls
      exact ⟨pending', by rw [run_cons, hrun, hafter]⟩

theorem run_of_no_length (h : Always after Fruitless c calls)
    (hcalls : ∀ d ∈ calls, ¬ d.AsksLength) : c.run calls = c := by
  induction calls generalizing c with
  | nil => rfl
  | cons d calls ih =>
      obtain ⟨hd, hrest⟩ := always_cons.1 h
      have hafter := after_of_fruitless hd (hcalls d List.mem_cons_self)
      rw [hafter] at hrest
      rw [run_cons, hafter]
      exact ih hrest fun d hd => hcalls d (List.mem_cons_of_mem _ hd)

/-- The length asked for last is the one that is pending. -/
theorem pending_run_of_last {pre post : List Call} {sealed : FixedBytes 18}
    (h : Always after Fruitless c (pre ++ .decryptLength sealed :: post))
    (hpost : ∀ d ∈ post, ¬ d.AsksLength) :
    (c.run (pre ++ .decryptLength sealed :: post)).pending =
      ((c.run pre).decryptLength sealed).result.toOption := by
  obtain ⟨-, hrest⟩ := always_cons.1 (always_append.1 h).2
  have hrun : ((c.run pre).after (.decryptLength sealed)).run post =
      (c.run pre).after (.decryptLength sealed) := run_of_no_length hrest hpost
  rw [run_append, run_cons, hrun, after_decryptLength]

/-! ## The errors of a call out of step -/

theorem decryptMessage_eq_outOfTurn_iff {sealed : Bytes} :
    (c.decryptMessage sealed).result = .error .outOfTurn ↔ c.pending = none := by
  have hattempt := attempt_decryptMessage c sealed
  generalize c.decryptMessage sealed = out at hattempt
  cases hattempt with
  | early hpending => exact iff_of_true rfl hpending
  | misfit hpending | forged hpending | received hpending =>
      rw [hpending]
      exact iff_of_false nofun nofun

theorem decryptMessage_eq_bodySize_iff {sealed : Bytes} {expected actual : ℕ} :
    (c.decryptMessage sealed).result = .error (.bodySize expected actual) ↔
      ∃ length, c.pending = some length ∧ expected = length.toNat + 16 ∧
        actual = sealed.length ∧ actual ≠ expected := by
  have hattempt := attempt_decryptMessage c sealed
  generalize c.decryptMessage sealed = out at hattempt
  cases hattempt with
  | early hpending =>
      rw [hpending]
      refine iff_of_false nofun ?_
      rintro ⟨_, hsome, -⟩
      cases hsome
  | @misfit length hpending hsize =>
      constructor
      · intro h
        obtain ⟨rfl, rfl⟩ := Error.bodySize.inj (Except.error.inj h)
        exact ⟨length, hpending, rfl, rfl, hsize⟩
      · rintro ⟨length', hpending', rfl, rfl, -⟩
        obtain rfl := Option.some.inj (hpending.symm.trans hpending')
        rfl
  | forged hpending hsize | received hpending hsize =>
      refine iff_of_false nofun ?_
      rintro ⟨length', hpending', rfl, rfl, hne⟩
      obtain rfl := Option.some.inj (hpending.symm.trans hpending')
      exact hne hsize

theorem decryptFrame_eq_outOfTurn_iff {input : Bytes} :
    (c.decryptFrame input).result = .error .outOfTurn ↔ c.pending ≠ none := by
  have hattempt := attempt_decryptFrame c input
  generalize c.decryptFrame input = out at hattempt
  cases hattempt with
  | busy hpending => exact iff_of_true rfl hpending
  | short hpending | forgedLength hpending | incomplete hpending | forgedBody hpending
  | whole hpending => exact iff_of_false nofun fun hne => hne hpending

/-! ## The next frame -/

/-- The frame of a message is received by whichever calls are in turn: at once while
no length is pending, in two parts at any time, and its message alone when it is its
length that is pending. All of these leave the channel `next`. -/
structure Takes (c next : Channel) (message frame : Bytes) : Prop where
  at_once : c.pending = none → c.decryptFrame frame =
    ⟨.ok (some ⟨message, frame.length⟩), next, next.receiving.rotation .receiving⟩
  in_parts : ∃ header length, FixedBytes.firstOf? 18 frame = some header ∧
    (c.decryptLength header).result = .ok length ∧ length.toNat = message.length ∧
    (c.decryptLength header).state.decryptMessage (frame.drop 18) =
      ⟨.ok message, next, next.receiving.rotation .receiving⟩
  message_alone : ∀ length, c.pending = some length → length.toNat = message.length →
    c.decryptMessage (frame.drop 18) = ⟨.ok message, next, next.receiving.rotation .receiving⟩

theorem takes_frame (hkey : c.receiving.AtFrame) (m : Message) :
    c.Takes c.commit m.val (c.receiving.frame m.val) where
  at_once hpending := by
    have hframe := decryptFrame_frame hpending hkey m.property []
    rwa [List.append_nil, ← length_frame c.receiving m.val] at hframe
  in_parts := by
    obtain ⟨header, length, hfirst, hlength, hout⟩ := exists_decryptLength_frame c m
    refine ⟨header, length, hfirst, by rw [hout], hlength, ?_⟩
    rw [hout]
    exact decryptMessage_frame rfl hlength hkey
  message_alone length hpending hlength := decryptMessage_frame hpending hlength hkey

/-- The length pending, and nothing else, may be another one after any calls that
neither send nor receive: it is the one asked for last. So what can be asked next
goes by that length alone, and the next frame of a sender at the same place is
received as it would have been before. -/
theorem undisturbed (hc : c.Reachable) (h : Always after Fruitless c calls) :
    let later := c.run calls
    (later.sending = c.sending ∧ later.receiving = c.receiving ∧
      later.handshakeHash = c.handshakeHash) ∧
    (∀ pre sealed post, calls = pre ++ .decryptLength sealed :: post →
      (∀ d ∈ post, ¬ d.AsksLength) →
      later.pending = ((c.run pre).decryptLength sealed).result.toOption) ∧
    ((∀ d ∈ calls, ¬ d.AsksLength) → later.pending = c.pending) ∧
    (∀ sealed, later.decryptLength sealed = c.decryptLength sealed) ∧
    (∀ sealed, (later.decryptMessage sealed).result = .error .outOfTurn ↔
      later.pending = none) ∧
    (∀ sealed expected actual,
      (later.decryptMessage sealed).result = .error (.bodySize expected actual) ↔
        ∃ length, later.pending = some length ∧ expected = length.toNat + 16 ∧
          actual = sealed.length ∧ actual ≠ expected) ∧
    (∀ input, (later.decryptFrame input).result = .error .outOfTurn ↔ later.pending ≠ none) ∧
    (∀ message, (later.encrypt message).result = (c.encrypt message).result) ∧
    ∀ sender : Channel, sender.Reachable → sender.sending.key = c.receiving.key →
      sender.sending.counter = c.receiving.counter →
      ∀ message frame, (sender.encrypt message).result = .ok frame →
        later.Takes c.commit message frame := by
  intro later
  obtain ⟨pending, hlater⟩ : ∃ pending, later = { c with pending } := run_of_fruitless h
  refine ⟨by rw [hlater]; exact ⟨rfl, rfl, rfl⟩, ?_, ?_, ?_,
    fun _ => decryptMessage_eq_outOfTurn_iff, fun _ _ _ => decryptMessage_eq_bodySize_iff,
    fun _ => decryptFrame_eq_outOfTurn_iff, ?_, ?_⟩
  · rintro pre sealed post rfl hpost
    exact pending_run_of_last h hpost
  · intro hcalls
    exact congrArg Channel.pending (run_of_no_length h hcalls)
  · intro sealed
    rw [hlater, decryptLength_with_pending]
  · intro message
    rw [hlater, encrypt, encrypt]
    split <;> rfl
  · intro sender hsender hkey hcounter message frame hsent
    obtain ⟨hfits, rfl⟩ := encrypt_eq_ok_iff.1 hsent
    have hatFrame := (atFrame_of_reachable hc).2
    rw [RotatingKey.frame_congr (atFrame_of_reachable hsender).1 hatFrame hkey hcounter, hlater]
    exact takes_frame (c := { c with pending }) hatFrame ⟨message, hfits⟩

theorem undisturbed_between_two_parts :
    let first : Aead.Key := ⟨List.replicate 32 1, rfl⟩
    let second : Aead.Key := ⟨List.replicate 32 2, rfl⟩
    let chainingKey : Digest := ⟨List.replicate 32 7, rfl⟩
    let sender : Channel := .ofKeys first second chainingKey
    let c : Channel := .ofKeys second first chainingKey
    let frame := sender.sending.frame [104, 105]
    ∃ header, FixedBytes.firstOf? 18 frame = some header ∧
      let calls := [.decryptFrame [], .decryptLength header, .decryptMessage [0],
        .decryptFrame frame]
      c.Reachable ∧ Always after Fruitless c calls ∧
      ((c.run calls).decryptMessage (frame.drop 18)).result = .ok [104, 105] := by
  intro first second chainingKey sender c frame
  have hsender : sender.Reachable := .ofKeys first second chainingKey
  have hc : c.Reachable := .ofKeys second first chainingKey
  have hpending : c.pending = none := rfl
  have hfits : ([104, 105] : Bytes).length ≤ maxMessageSize := by decide
  have hkey : sender.sending.key = c.receiving.key := rfl
  have hcounter : sender.sending.counter = c.receiving.counter := rfl
  have hsent : (sender.encrypt [104, 105]).result = .ok frame :=
    encrypt_eq_ok_iff.2 ⟨hfits, rfl⟩
  have hframe : frame = c.receiving.frame [104, 105] := rfl
  -- all that is needed of the two channels and the frame is said
  clear_value sender c frame
  subst hframe
  obtain ⟨header, length, hfirst, hlength, hout⟩ :=
    exists_decryptLength_frame c ⟨[104, 105], hfits⟩
  have hwait : c.after (.decryptLength header) = { c with pending := some length } :=
    congrArg Outcome.state hout
  have hshort : c.Fruitless (.decryptFrame []) :=
    .inl ((decryptFrame_eq_none_iff hpending).2 (.inl (by decide)))
  have hstay : c.after (.decryptFrame []) = c := after_of_fruitless hshort id
  have hmisfit : Fruitless { c with pending := some length } (.decryptMessage [0]) := by
    have hsize : Misfit { c with pending := some length } [0] := by
      intro length' _ heq
      rw [List.length_singleton, Aead.tagSize] at heq
      omega
    obtain ⟨e, hmessage⟩ := decryptMessage_misfit hsize
    exact ⟨e, congrArg Outcome.result hmessage⟩
  have hcalls : Always after Fruitless c [.decryptFrame [], .decryptLength header,
      .decryptMessage [0], .decryptFrame (c.receiving.frame [104, 105])] := by
    rw [always_cons, hstay, always_cons, hwait, always_cons, after_of_fruitless hmisfit id,
      always_cons]
    exact ⟨hshort, trivial, hmisfit, .inr ⟨.outOfTurn, rfl⟩, always_nil⟩
  refine ⟨header, hfirst, hc, hcalls, ?_⟩
  obtain ⟨-, hlast, -, -, -, -, -, -, hnext⟩ := undisturbed hc hcalls
  have hlate := hlast [.decryptFrame []] header _ rfl (by simp [Call.AsksLength])
  have hrun : c.run [.decryptFrame []] = c := hstay
  rw [hrun, hout] at hlate
  have htakes := hnext sender hsender hkey hcounter _ _ hsent
  exact congrArg Outcome.result (htakes.message_alone length hlate hlength)

end Channel

end Bolt8
