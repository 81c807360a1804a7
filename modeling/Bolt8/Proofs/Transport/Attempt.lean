import Bolt8.Proofs.Transport.Frame

/-!
# How far an attempt to receive gets

An input can be too short for a sealed length, its sealed length or its sealed
message can be forged, it can end before its frame does, or it can be whole.
Of a frame in two parts, either part can be forged, and the message can come too
early or be of another size than its length says.
-/

namespace Bolt8

namespace Channel

/-! ## A whole frame -/

/-- The input begins with a sealed length, which announces this one. -/
def Announces (c : Channel) (input : Bytes) (length : UInt16) : Prop :=
  ∃ sealed, FixedBytes.firstOf? 18 input = some sealed ∧ c.announced sealed = some length

/-- The sealed message behind the sealed length. -/
def body (input : Bytes) (length : UInt16) : Bytes :=
  (input.take (sealedLengthSize + length.toNat + Aead.tagSize)).drop sealedLengthSize

inductive Attempt (c : Channel) (input : Bytes) : Outcome Channel (Option Received) → Prop
  | busy :
      c.pending ≠ none → Attempt c input ⟨.error .outOfTurn, c, []⟩
  | short :
      c.pending = none → input.length < 18 → Attempt c input ⟨.ok none, c, []⟩
  | forgedLength :
      c.pending = none → 18 ≤ input.length → (∀ length, ¬ c.Announces input length) →
      Attempt c input ⟨.error .notAuthentic, c, []⟩
  | incomplete {length : UInt16} :
      c.pending = none → c.Announces input length →
      input.length < sealedLengthSize + length.toNat + Aead.tagSize →
      Attempt c input ⟨.ok none, c, []⟩
  | forgedBody {length : UInt16} :
      c.pending = none → c.Announces input length →
      sealedLengthSize + length.toNat + Aead.tagSize ≤ input.length →
      c.receiving.decryptAt 1 (body input length) = none →
      Attempt c input ⟨.error .notAuthentic, c, []⟩
  | whole {length : UInt16} {message : Bytes} :
      c.pending = none → c.Announces input length →
      sealedLengthSize + length.toNat + Aead.tagSize ≤ input.length →
      c.receiving.decryptAt 1 (body input length) = some message →
      Attempt c input ⟨.ok (some ⟨message, sealedLengthSize + length.toNat + Aead.tagSize⟩),
        c.commit, c.commit.receiving.rotation .receiving⟩

theorem attempt_decryptFrame (c : Channel) (input : Bytes) :
    Attempt c input (c.decryptFrame input) := by
  unfold decryptFrame
  split
  · rename_i hpending
    exact .busy (Option.isSome_iff_ne_none.1 hpending)
  rename_i hpending
  have hpending : c.pending = none := by simpa using hpending
  split
  · rename_i hshort
    exact .short hpending (FixedBytes.firstOf?_eq_none_iff.1 hshort)
  rename_i sealed hfirst
  have hlong : 18 ≤ input.length := by
    refine Nat.le_of_not_lt fun hlt => ?_
    rw [FixedBytes.firstOf?_eq_none_iff.2 hlt] at hfirst
    exact nomatch hfirst
  split
  · rename_i hforged
    refine .forgedLength hpending hlong ?_
    rintro length ⟨sealed', hfirst', hannounced⟩
    obtain rfl := Option.some.inj (hfirst.symm.trans hfirst')
    exact nomatch hforged.symm.trans hannounced
  rename_i length hannounced
  have hlength : c.Announces input length := ⟨sealed, hfirst, hannounced⟩
  dsimp only
  split
  · rename_i hlt
    exact .incomplete hpending hlength hlt
  rename_i hle
  split
  · rename_i hforged
    exact .forgedBody hpending hlength (Nat.le_of_not_lt hle) hforged
  · rename_i message hopen
    exact .whole hpending hlength (Nat.le_of_not_lt hle) hopen

/-! ## A frame in two parts -/

variable {c : Channel} {header : FixedBytes 18} {length : UInt16} {sealed message : Bytes}

theorem decryptLength_of_announced (h : c.announced header = some length) :
    c.decryptLength header = ⟨.ok length, { c with pending := some length }, []⟩ := by
  rw [decryptLength, h]

theorem decryptLength_of_forged (h : c.announced header = none) :
    c.decryptLength header = ⟨.error .notAuthentic, { c with pending := none }, []⟩ := by
  rw [decryptLength, h]

theorem decryptMessage_of_opens (hpending : c.pending = some length)
    (hsize : sealed.length = length.toNat + Aead.tagSize)
    (hopen : c.receiving.decryptAt 1 sealed = some message) :
    c.decryptMessage sealed =
      ⟨.ok message, c.commit, c.commit.receiving.rotation .receiving⟩ := by
  rw [decryptMessage, hpending]
  simp only [hsize, ne_eq, not_true_eq_false, if_false, hopen]

theorem decryptMessage_of_forged (hpending : c.pending = some length)
    (hsize : sealed.length = length.toNat + Aead.tagSize)
    (hforged : c.receiving.decryptAt 1 sealed = none) :
    c.decryptMessage sealed = ⟨.error .notAuthentic, c, []⟩ := by
  rw [decryptMessage, hpending]
  simp only [hsize, ne_eq, not_true_eq_false, if_false, hforged]

/-- How far an attempt to receive a message gets. -/
inductive MessageAttempt (c : Channel) (sealed : Bytes) : Outcome Channel Bytes → Prop
  | early :
      c.pending = none → MessageAttempt c sealed ⟨.error .outOfTurn, c, []⟩
  | misfit {length : UInt16} :
      c.pending = some length → sealed.length ≠ length.toNat + Aead.tagSize →
      MessageAttempt c sealed
        ⟨.error (.bodySize (length.toNat + Aead.tagSize) sealed.length), c, []⟩
  | forged {length : UInt16} :
      c.pending = some length → sealed.length = length.toNat + Aead.tagSize →
      c.receiving.decryptAt 1 sealed = none →
      MessageAttempt c sealed ⟨.error .notAuthentic, c, []⟩
  | received {length : UInt16} {message : Bytes} :
      c.pending = some length → sealed.length = length.toNat + Aead.tagSize →
      c.receiving.decryptAt 1 sealed = some message →
      MessageAttempt c sealed ⟨.ok message, c.commit, c.commit.receiving.rotation .receiving⟩

theorem attempt_decryptMessage (c : Channel) (sealed : Bytes) :
    MessageAttempt c sealed (c.decryptMessage sealed) := by
  unfold decryptMessage
  split
  · rename_i hpending
    exact .early hpending
  rename_i length hpending
  dsimp only
  split
  · rename_i hsize
    exact .misfit hpending hsize
  rename_i hsize
  have hsize : sealed.length = length.toNat + Aead.tagSize := not_not.1 hsize
  split
  · rename_i hforged
    exact .forged hpending hsize hforged
  · rename_i message hopen
    exact .received hpending hsize hopen

end Channel

end Bolt8
