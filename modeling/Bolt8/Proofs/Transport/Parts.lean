import Bolt8.Proofs.Transport.Line
import Bolt8.Proofs.Transport.Schedule

/-!
# A frame at once, and in two parts

Whether a frame is received at once or its length first and its message after,
the same is decided of its bytes. Where both come to an end the channels are
equal; between the two parts, and when the second fails, only the length is
remembered besides (`at_once_iff_in_parts`).
-/

namespace Bolt8

theorem FixedBytes.firstOf?_eq {n : ℕ} {bs : Bytes} (h : n ≤ bs.length) :
    firstOf? n bs = some ⟨bs.take n, List.length_take_of_le h⟩ :=
  dif_pos _

namespace Channel

variable {c : Channel} {input : Bytes} {header : FixedBytes 18} {length : UInt16} {e : Error}

theorem length_body (hlong : sealedLengthSize + length.toNat + Aead.tagSize ≤ input.length) :
    (body input length).length = length.toNat + Aead.tagSize := by
  rw [body, List.length_drop, List.length_take_of_le hlong]
  omega

/-- A length that is pending is of no account when a length is received. -/
theorem decryptLength_with_pending (c : Channel) (pending : Option UInt16)
    (header : FixedBytes 18) :
    ({ c with pending } : Channel).decryptLength header = c.decryptLength header :=
  rfl

/-! ## Both ways -/

/-- What comes of the length in front of an input, and of the input at once. Where a
whole frame is there it is its message, with the length pending, that decides. -/
inductive BothWays (c : Channel) (input : Bytes) :
    Outcome Channel UInt16 → Outcome Channel (Option Received) → Prop
  | forged :
      BothWays c input ⟨.error .notAuthentic, c, []⟩ ⟨.error .notAuthentic, c, []⟩
  | incomplete {length : UInt16} :
      input.length < length.toNat + 34 →
      BothWays c input ⟨.ok length, { c with pending := some length }, []⟩ ⟨.ok none, c, []⟩
  | refused {length : UInt16} {e : Error} :
      length.toNat + 34 ≤ input.length →
      ({ c with pending := some length } : Channel).decryptMessage
        ((input.take (length.toNat + 34)).drop 18) =
          ⟨.error e, { c with pending := some length }, []⟩ →
      BothWays c input ⟨.ok length, { c with pending := some length }, []⟩ ⟨.error e, c, []⟩
  | received {length : UInt16} {message : Bytes} :
      length.toNat + 34 ≤ input.length →
      ({ c with pending := some length } : Channel).decryptMessage
        ((input.take (length.toNat + 34)).drop 18) =
          ⟨.ok message, c.commit, c.commit.receiving.rotation .receiving⟩ →
      BothWays c input ⟨.ok length, { c with pending := some length }, []⟩
        ⟨.ok (some ⟨message, length.toNat + 34⟩), c.commit,
          c.commit.receiving.rotation .receiving⟩

theorem body_eq (input : Bytes) (length : UInt16) :
    body input length = (input.take (length.toNat + 34)).drop 18 := by
  rw [body, size_eq]
  rfl

theorem bothWays (hpending : c.pending = none)
    (hfirst : FixedBytes.firstOf? 18 input = some header) :
    BothWays c input (c.decryptLength header) (c.decryptFrame input) := by
  have hforgotten : ({ c with pending := none } : Channel) = c := by rw [← hpending]
  have hattempt := attempt_decryptFrame c input
  generalize c.decryptFrame input = out at hattempt ⊢
  have hannounced : ∀ {length}, c.Announces input length → c.announced header = some length := by
    rintro length ⟨header', hfirst', hannounced⟩
    obtain rfl := Option.some.inj (hfirst.symm.trans hfirst')
    exact hannounced
  cases hattempt with
  | busy hbusy =>
      exact absurd hpending hbusy
  | short _ hshort =>
      rw [FixedBytes.firstOf?_eq_none_iff.2 hshort] at hfirst
      cases hfirst
  | forgedLength _ _ hforged =>
      have hnone : c.announced header = none := by
        refine Option.eq_none_iff_forall_ne_some.2 fun length hsome => ?_
        exact hforged length ⟨header, hfirst, hsome⟩
      rw [decryptLength_of_forged hnone, hforgotten]
      exact .forged
  | incomplete _ hannounces hlt =>
      rw [decryptLength_of_announced (hannounced hannounces)]
      exact .incomplete (by rwa [size_eq] at hlt)
  | forgedBody _ hannounces hle hforged =>
      rw [decryptLength_of_announced (hannounced hannounces)]
      refine .refused (by rwa [size_eq] at hle) ?_
      rw [← body_eq]
      exact decryptMessage_of_forged rfl (length_body hle) hforged
  | whole _ hannounces hle hopen =>
      rw [decryptLength_of_announced (hannounced hannounces), size_eq]
      refine .received (by rwa [size_eq] at hle) ?_
      rw [← body_eq]
      exact decryptMessage_of_opens rfl (length_body hle) hopen

/-- What a channel `waiting` for the message of a length can still do, against the
same channel `c` before that length: another length is received as if there were
none yet, no frame is received at once, and any message of this length is received
as its frame would have been. -/
structure Resumes (c waiting : Channel) (length : UInt16) : Prop where
  length_again : ∀ header, waiting.decryptLength header = c.decryptLength header
  no_frame : ∀ input, waiting.decryptFrame input = ⟨.error .outOfTurn, waiting, []⟩
  message_still : ∀ message : Bytes, message.length = length.toNat →
    let whole := c.decryptFrame (c.receiving.frame message)
    whole.result = .ok (some ⟨message, message.length + 34⟩) ∧
      waiting.decryptMessage ((c.receiving.frame message).drop 18) =
        ⟨.ok message, whole.state, whole.log⟩

theorem resumes (hc : c.Reachable) (hpending : c.pending = none) (length : UInt16) :
    c.Resumes { c with pending := some length } length where
  length_again := decryptLength_with_pending c _
  no_frame := fun _ => rfl
  message_still := by
    intro message hsize
    have hkey := (atFrame_of_reachable hc).2
    have hfits : message.length ≤ maxMessageSize := by
      have := length.toNat_lt
      rw [maxMessageSize]
      omega
    have hframe := decryptFrame_frame hpending hkey hfits []
    rw [List.append_nil, frameSize_eq] at hframe
    rw [hframe]
    have hsame : ({ c with pending := some length } : Channel).commit = c.commit := rfl
    have hmessage := decryptMessage_frame (c := { c with pending := some length })
      (m := ⟨message, hfits⟩) rfl hsize.symm hkey
    rw [hsame] at hmessage
    refine ⟨rfl, ?_⟩
    dsimp only
    exact hmessage

namespace BothWays

variable {first : Outcome Channel UInt16} {whole : Outcome Channel (Option Received)}

theorem of_error (h : BothWays c input first whole) (hfirst : first.result = .error e) :
    whole.result = .error e ∧ first.state = c ∧ whole.state = c := by
  cases h with
  | forged => exact ⟨congrArg Except.error (Except.error.inj hfirst), rfl, rfl⟩
  | incomplete | refused | received => cases hfirst

/-- Without a message, only a forged length is an error. -/
theorem error_iff (h : BothWays c input first whole) (hshort : input.length < 34) :
    first.result = .error e ↔ whole.result = .error e := by
  cases h with
  | forged => simp only [Except.error.injEq]
  | incomplete => exact iff_of_false nofun nofun
  | refused hle | received hle => omega

theorem incomplete_iff (h : BothWays c input first whole) :
    whole.result = .ok none ↔
      ∃ length, first.result = .ok length ∧ input.length < length.toNat + 34 := by
  cases h with
  | forged =>
      refine iff_of_false nofun ?_
      rintro ⟨_, hfirst, -⟩
      cases hfirst
  | incomplete hlt => exact iff_of_true rfl ⟨_, rfl, hlt⟩
  | refused hle | received hle =>
      refine iff_of_false nofun ?_
      rintro ⟨_, hfirst, hlt⟩
      obtain rfl := Except.ok.inj hfirst
      omega

theorem parts (h : BothWays c input first whole) (hc : c.Reachable) (hpending : c.pending = none)
    (hfirst : first.result = .ok length) (hle : length.toNat + 34 ≤ input.length) :
    let second := first.state.decryptMessage ((input.take (length.toNat + 34)).drop 18)
    (∀ message, second.result = .ok message ↔
      whole.result = .ok (some ⟨message, length.toNat + 34⟩)) ∧
    (∀ message, second.result = .ok message →
      second.state = whole.state ∧ second.log = whole.log) ∧
    (∀ e, second.result = .error e ↔ whole.result = .error e) ∧
    ∀ e, second.result = .error e → whole.state = c ∧
      second.state = { c with pending := some length } ∧ c.Resumes second.state length := by
  cases h with
  | forged => cases hfirst
  | incomplete hlt =>
      obtain rfl := Except.ok.inj hfirst
      omega
  | refused _ hsecond =>
      obtain rfl := Except.ok.inj hfirst
      rw [hsecond]
      refine ⟨fun _ => iff_of_false nofun nofun, nofun, fun e' => ?_, fun _ _ => ?_⟩
      · simp only [Except.error.injEq]
      · exact ⟨rfl, rfl, resumes hc hpending _⟩
  | received _ hsecond =>
      obtain rfl := Except.ok.inj hfirst
      rw [hsecond]
      refine ⟨fun message' => ?_, fun _ _ => ⟨rfl, rfl⟩, fun _ => iff_of_false nofun nofun, nofun⟩
      simp only [Except.ok.injEq, Option.some.injEq, Received.mk.injEq, and_true]

end BothWays

/-- Received at once or in two parts, an input is refused for the same reason and at
the same place, waited for while it is not yet whole, or gives the same message and
leaves the same channel. -/
theorem at_once_iff_in_parts (hc : c.Reachable) (hpending : c.pending = none)
    (hlong : 18 ≤ input.length) :
    let first := c.decryptLength ⟨input.take 18, List.length_take_of_le hlong⟩
    let whole := c.decryptFrame input
    (∀ e, first.result = .error e ↔ (c.decryptFrame (input.take 18)).result = .error e) ∧
    (∀ e, first.result = .error e →
      whole.result = .error e ∧ first.state = c ∧ whole.state = c) ∧
    (whole.result = .ok none ↔
      ∃ length, first.result = .ok length ∧ input.length < length.toNat + 34) ∧
    ∀ length, first.result = .ok length → length.toNat + 34 ≤ input.length →
      let second := first.state.decryptMessage ((input.take (length.toNat + 34)).drop 18)
      (∀ message, second.result = .ok message ↔
        whole.result = .ok (some ⟨message, length.toNat + 34⟩)) ∧
      (∀ message, second.result = .ok message →
        second.state = whole.state ∧ second.log = whole.log) ∧
      (∀ e, second.result = .error e ↔ whole.result = .error e) ∧
      ∀ e, second.result = .error e → whole.state = c ∧
        second.state = { c with pending := some length } ∧ c.Resumes second.state length := by
  have hfront : FixedBytes.firstOf? 18 (input.take 18) =
      some ⟨input.take 18, List.length_take_of_le hlong⟩ := by
    rw [← FixedBytes.firstOf?_eq hlong, ← FixedBytes.firstOf?_append
      (Nat.le_of_eq (List.length_take_of_le hlong).symm) (input.drop 18), List.take_append_drop]
  refine ⟨fun e => ?_, ?_⟩
  · exact (bothWays hpending hfront).error_iff (by rw [List.length_take_of_le hlong]; decide)
  · have hboth := bothWays hpending (FixedBytes.firstOf?_eq hlong)
    exact ⟨fun e => hboth.of_error, hboth.incomplete_iff, fun length => hboth.parts hc hpending⟩

/-- There is always a frame that can be received next, such as that of the empty message. -/
theorem reachable_commit (hc : c.Reachable) (hpending : c.pending = none) :
    c.commit.Reachable := by
  have hfits : ([] : Bytes).length ≤ maxMessageSize := Nat.zero_le _
  have hframe := decryptFrame_frame hpending (atFrame_of_reachable hc).2 hfits []
  have hafter : c.after (.decryptFrame (c.receiving.frame [] ++ [])) = c.commit :=
    congrArg Outcome.state hframe
  rw [← hafter]
  exact hc.after _

theorem reachable_scheduled (sendingKey receivingKey : Aead.Key) (chainingKey : Digest) (n : ℕ) :
    Reachable
      ⟨.start sendingKey chainingKey, .scheduled receivingKey chainingKey n, none, none⟩ := by
  induction n with
  | zero => exact .ofKeys sendingKey receivingKey chainingKey
  | succ n ih =>
      rw [← RotatingKey.advance_advance_scheduled]
      exact reachable_commit ih rfl

theorem in_parts_at_rotation :
    let first : Aead.Key := ⟨List.replicate 32 1, rfl⟩
    let second : Aead.Key := ⟨List.replicate 32 2, rfl⟩
    let chainingKey : Digest := ⟨List.replicate 32 7, rfl⟩
    let c : Channel := ⟨.start first chainingKey, .scheduled second chainingKey 499, none, none⟩
    let frame := c.receiving.frame [104, 105]
    c.Reachable ∧ c.pending = none ∧ 18 ≤ frame.length ∧ ∃ sealed length,
      (c.decryptLength sealed).result = .ok length ∧
      let out := (c.decryptLength sealed).state.decryptMessage ((frame.take 36).drop 18)
      out.result = .ok [104, 105] ∧ out.state = (c.decryptFrame frame).state ∧
        out.log = [.rotated .receiving 1] := by
  intro first second chainingKey c frame
  have hc : c.Reachable := reachable_scheduled first second chainingKey 499
  have hkey : c.receiving.AtFrame := RotatingKey.atFrame_scheduled 499
  have hnext : c.commit.receiving = .scheduled second chainingKey 500 :=
    RotatingKey.advance_advance_scheduled 499
  have hlog : c.commit.receiving.rotation .receiving = [.rotated .receiving 1] := by
    rw [hnext]
    exact if_pos rfl
  have hpending : c.pending = none := rfl
  have hfits : ([104, 105] : Bytes).length ≤ maxMessageSize := by decide
  have hsize : frame.length = 36 := length_frame c.receiving [104, 105]
  -- from here on any channel will do at which the key is about to rotate
  clear_value c
  have hlong : 18 ≤ frame.length := by omega
  have hwhole := decryptFrame_frame hpending hkey hfits []
  rw [List.append_nil] at hwhole
  obtain ⟨sealed, length, hfirst, hlength, hannounced⟩ :=
    exists_decryptLength_frame c ⟨[104, 105], hfits⟩
  obtain rfl := Option.some.inj ((FixedBytes.firstOf?_eq hlong).symm.trans hfirst)
  obtain ⟨-, -, -, hparts⟩ := at_once_iff_in_parts hc hpending hlong
  have hbytes : length.toNat + 34 = 36 := by rw [hlength]; rfl
  obtain ⟨hreceived, hsame, -⟩ := hparts length (by rw [hannounced]) (by omega)
  rw [hbytes] at hreceived hsame
  have hmessage := (hreceived [104, 105]).2 (congrArg Outcome.result hwhole)
  obtain ⟨hstate, hlogs⟩ := hsame _ hmessage
  refine ⟨hc, hpending, hlong, _, length, by rw [hannounced], hmessage, hstate, ?_⟩
  rw [hlogs, hwhole]
  dsimp only
  exact hlog

end Channel

end Bolt8
