import Bolt8.Proofs.Aead
import Bolt8.Transport.Channel

/-!
# One frame

What `decryptFrame` can do with any input, that bytes behind a complete frame
do not matter to it, and that the frame `encrypt` makes is received whole.
The last needs a key that stands between two frames: in the middle of a frame
a key rotates for the sender before it does for the receiver.
-/

namespace Bolt8

theorem FixedBytes.firstOf?_append {n : ℕ} {p : Bytes} (h : n ≤ p.length) (q : Bytes) :
    firstOf? n (p ++ q) = firstOf? n p := by
  simp [firstOf?, List.take_append_of_le_length h]

theorem FixedBytes.firstOf?_eq_none_iff {n : ℕ} {p : Bytes} :
    firstOf? n p = none ↔ p.length < n := by
  simp only [firstOf?, List.length_take, dite_eq_right_iff, reduceCtorEq, imp_false]
  omega

/-! ## Keys between two frames -/

namespace RotatingKey

def AtFrame (k : RotatingKey) : Prop := k.counter.toNat % 2 = 0 ∧ k.counter.toNat < 1000

theorem atFrame_start (key : Aead.Key) (chainingKey : Digest) :
    (start key chainingKey).AtFrame := by
  simp [start, AtFrame]

/-- No key rotates in the middle of a frame. -/
theorem advance_eq {k : RotatingKey} (h : k.AtFrame) :
    k.advance = { k with counter := k.counter + 1 } := by
  have hcounter : (k.counter + 1).toNat = k.counter.toNat + 1 := by
    rw [UInt64.toNat_add]
    exact Nat.mod_eq_of_lt (by have := h.2; simp; omega)
  have hne : k.counter + 1 ≠ rotationInterval := by
    intro heq
    rw [heq] at hcounter
    have hodd : 1000 = k.counter.toNat + 1 := hcounter
    have := h.1
    omega
  exact if_neg hne

theorem toNat_counter_advance {k : RotatingKey} (h : k.AtFrame) :
    k.advance.counter.toNat = k.counter.toNat + 1 := by
  have hlt := h.2
  rw [advance_eq h]
  exact toNat_add_one (by rw [UInt64.size]; omega)

theorem toNat_counter_advance_advance {k : RotatingKey} (h : k.AtFrame) :
    k.advance.advance.counter.toNat = (k.counter.toNat + 2) % 1000 := by
  have hcounter : (k.counter + 1 + 1).toNat = k.counter.toNat + 2 := by
    rw [UInt64.toNat_add, UInt64.toNat_add]
    have := h.2
    simp
    omega
  rw [advance_eq h, advance]
  dsimp only
  -- only the second text of a frame can be the last of its key
  split
  · rename_i hlast
    have hlast : (k.counter + 1 + 1).toNat = 1000 := congrArg UInt64.toNat hlast
    rw [← hcounter, hlast]
    rfl
  · rename_i hne
    have hlast : (k.counter + 1 + 1).toNat ≠ 1000 := fun heq => hne (UInt64.toNat_inj.1 heq)
    rw [hcounter] at hlast ⊢
    have := h.2
    have := h.1
    omega

theorem atFrame_advance_advance {k : RotatingKey} (h : k.AtFrame) :
    k.advance.advance.AtFrame := by
  rw [AtFrame, toNat_counter_advance_advance h]
  have := h.1
  omega

/-- The frame of a message. -/
def frame (k : RotatingKey) (message : Bytes) : Bytes :=
  k.encrypt (Bytes.ofNatBE 2 message.length) ++ k.advance.encrypt message

theorem decryptAt_encrypt (k : RotatingKey) (plain : Bytes) :
    k.decryptAt 0 (k.encrypt plain) = some plain := by
  rw [decryptAt, encrypt, UInt64.add_zero, Aead.decrypt_encrypt]

theorem decryptAt_encrypt_advance {k : RotatingKey} (h : k.AtFrame) (plain : Bytes) :
    k.decryptAt 1 (k.advance.encrypt plain) = some plain := by
  rw [advance_eq h, decryptAt, encrypt, Aead.decrypt_encrypt]

theorem length_encrypt (k : RotatingKey) (plain : Bytes) :
    (k.encrypt plain).length = plain.length + Aead.tagSize :=
  Aead.length_encrypt ..

end RotatingKey

namespace Channel

/-! ## Two ends of one channel -/

/-- Fresh ends: each sends with the key the other receives with, all four
chaining keys are one, the counters are 0 and no length is pending. -/
def Mirrored (a b : Channel) : Prop :=
  ∃ (first second : Aead.Key) (chainingKey : Digest),
    a.sending = .start first chainingKey ∧ b.receiving = .start first chainingKey ∧
    b.sending = .start second chainingKey ∧ a.receiving = .start second chainingKey ∧
    a.pending = none ∧ b.pending = none

theorem mirrored_ofSplit (keys : TransportKeys) :
    Mirrored (ofSplit keys .initiator) (ofSplit keys .responder) :=
  ⟨keys.first, keys.second, keys.chainingKey, rfl, rfl, rfl, rfl, rfl, rfl⟩

/-! ## What `decryptFrame` can do -/

/-- The size of the frame that a message comes in. -/
def frameSize (message : Bytes) : ℕ := sealedLengthSize + message.length + Aead.tagSize

theorem decryptFrame_cases (c : Channel) (input : Bytes) :
    (∃ e, e ≠ .readerFull ∧ c.decryptFrame input = ⟨.error e, c, []⟩) ∨
    c.decryptFrame input = ⟨.ok none, c, []⟩ ∨
    (∃ message, frameSize message ≤ input.length ∧
      c.decryptFrame input = ⟨.ok (some ⟨message, frameSize message⟩), c.commit,
        c.commit.receiving.rotation .receiving⟩) := by
  unfold decryptFrame
  split
  · exact .inl ⟨_, by decide, rfl⟩
  split
  · exact .inr (.inl rfl)
  split
  · exact .inl ⟨_, by decide, rfl⟩
  rename_i length _
  dsimp only
  split
  · exact .inr (.inl rfl)
  rename_i hlong
  split
  · exact .inl ⟨_, by decide, rfl⟩
  rename_i message hopen
  have hlen := Aead.length_of_decrypt hopen
  rw [List.length_drop, List.length_take, Nat.min_eq_left (by omega)] at hlen
  have hsize : frameSize message = sealedLengthSize + length.toNat + Aead.tagSize := by
    unfold frameSize
    omega
  exact .inr (.inr ⟨message, by omega, by rw [hsize]⟩)

theorem decryptFrame_of_error {c : Channel} {input : Bytes} {e : Error}
    (h : (c.decryptFrame input).result = .error e) : c.decryptFrame input = ⟨.error e, c, []⟩ := by
  rcases decryptFrame_cases c input with ⟨e', -, hout⟩ | hout | ⟨message, -, hout⟩
  · rw [hout] at h ⊢
    rw [Except.error.inj h]
  · rw [hout] at h
    cases h
  · rw [hout] at h
    cases h

theorem decryptFrame_of_received {c : Channel} {input : Bytes} {received : Received}
    (h : (c.decryptFrame input).result = .ok (some received)) :
    received.size = frameSize received.message ∧
      c.decryptFrame input =
        ⟨.ok (some received), c.commit, c.commit.receiving.rotation .receiving⟩ := by
  rcases decryptFrame_cases c input with ⟨e, -, hout⟩ | hout | ⟨message, -, hout⟩
  · rw [hout] at h
    cases h
  · rw [hout] at h
    cases h
  · rw [hout] at h ⊢
    obtain rfl := Option.some.inj (Except.ok.inj h)
    exact ⟨rfl, rfl⟩

theorem decryptFrame_append {c : Channel} {p : Bytes} (h : (c.decryptFrame p).result ≠ .ok none)
    (q : Bytes) : c.decryptFrame (p ++ q) = c.decryptFrame p := by
  unfold decryptFrame at h ⊢
  by_cases hpending : c.pending.isSome
  · simp only [hpending, if_true]
  simp only [hpending] at h ⊢
  cases hfirst : FixedBytes.firstOf? 18 p with
  | none =>
      simp [hfirst] at h
  | some sealed =>
      have h18 : ¬ p.length < 18 := fun hlt => by
        simp [FixedBytes.firstOf?_eq_none_iff.2 hlt] at hfirst
      -- from here on each test looks only at bytes that `p` has
      rw [FixedBytes.firstOf?_append (by omega), hfirst]
      simp only [hfirst] at h
      cases hlength : c.announced sealed with
      | none =>
          simp only [hlength]
      | some length =>
          simp only [hlength] at h ⊢
          by_cases hlt : p.length < sealedLengthSize + length.toNat + Aead.tagSize
          · simp [hlt] at h
          · have happend : ¬ (p ++ q).length < sealedLengthSize + length.toNat + Aead.tagSize := by
              rw [List.length_append]
              omega
            rw [if_neg hlt, if_neg happend, List.take_append_of_le_length (by omega)]

/-! ## Channels that receive alike -/

def SameReceiving (c d : Channel) : Prop := c.receiving = d.receiving ∧ c.pending = d.pending

theorem sameReceiving_commit {c d : Channel} (h : c.SameReceiving d) :
    c.commit.SameReceiving d.commit :=
  ⟨by rw [commit, commit, h.1], rfl⟩

theorem decryptFrame_congr {c d : Channel} (h : c.SameReceiving d) (input : Bytes) :
    (c.decryptFrame input).result = (d.decryptFrame input).result ∧
      (c.decryptFrame input).state.SameReceiving (d.decryptFrame input).state := by
  have hcommit := sameReceiving_commit h
  unfold decryptFrame announced
  rw [h.1, h.2]
  split
  · exact ⟨rfl, h⟩
  split
  · exact ⟨rfl, h⟩
  split
  · exact ⟨rfl, h⟩
  dsimp only
  split
  · exact ⟨rfl, h⟩
  split
  · exact ⟨rfl, h⟩
  · exact ⟨rfl, hcommit⟩

/-! ## The frame that was sent -/

theorem encrypt_eq (c : Channel) {message : Bytes} (h : message.length ≤ maxMessageSize) :
    c.encrypt message = ⟨.ok (c.sending.frame message),
      { c with sending := c.sending.advance.advance },
      c.sending.advance.advance.rotation .sending⟩ := by
  rw [encrypt, if_neg (by omega)]
  rfl

/-- The case in which a frame is received, over variables: the terms of
`decryptFrame_frame` are too large to be reduced in place. -/
theorem decryptFrame_eq {c : Channel} {input : Bytes} {sealed : FixedBytes 18} {length : UInt16}
    {message : Bytes} (hpending : c.pending = none)
    (hfirst : FixedBytes.firstOf? 18 input = some sealed)
    (hannounced : c.announced sealed = some length) (hlength : length.toNat = message.length)
    (hlong : frameSize message ≤ input.length)
    (hopen : c.receiving.decryptAt 1
      ((input.take (frameSize message)).drop sealedLengthSize) = some message) :
    c.decryptFrame input = ⟨.ok (some ⟨message, frameSize message⟩), c.commit,
      c.commit.receiving.rotation .receiving⟩ := by
  unfold decryptFrame
  rw [hpending, hfirst]
  simp only [hannounced, hlength, Option.isSome_none, Bool.false_eq_true, if_false]
  rw [← frameSize, if_neg (by omega), hopen]

theorem exists_announced (c : Channel) {message : Bytes} (h : message.length ≤ maxMessageSize)
    (hheader : (c.receiving.encrypt (Bytes.ofNatBE 2 message.length)).length = 18) :
    ∃ length : UInt16, length.toNat = message.length ∧
      c.announced ⟨_, hheader⟩ = some length := by
  have hfits : message.length < 65536 := by
    unfold maxMessageSize at h
    omega
  refine ⟨UInt16.ofNat message.length, UInt16.toNat_ofNat_of_lt' hfits, ?_⟩
  rw [announced, RotatingKey.decryptAt_encrypt, Option.map_some,
    Bytes.toNatBE_ofNatBE (by omega)]

theorem length_frame (k : RotatingKey) (message : Bytes) :
    (k.frame message).length = frameSize message := by
  rw [RotatingKey.frame, List.length_append, RotatingKey.length_encrypt,
    RotatingKey.length_encrypt, Bytes.length_ofNatBE, frameSize, sealedLengthSize]
  omega

/-- What one end makes of a message, the other takes for that message. -/
theorem decryptFrame_frame {c : Channel} (hpending : c.pending = none)
    (hkey : c.receiving.AtFrame) {message : Bytes} (h : message.length ≤ maxMessageSize)
    (more : Bytes) :
    c.decryptFrame (c.receiving.frame message ++ more) =
      ⟨.ok (some ⟨message, frameSize message⟩), c.commit,
        c.commit.receiving.rotation .receiving⟩ := by
  have hheader : (c.receiving.encrypt (Bytes.ofNatBE 2 message.length)).length = 18 := by
    rw [RotatingKey.length_encrypt, Bytes.length_ofNatBE, Aead.tagSize]
  have hsize := length_frame c.receiving message
  have hfirst : FixedBytes.firstOf? 18 (c.receiving.frame message ++ more) =
      some ⟨_, hheader⟩ := by
    simp [FixedBytes.firstOf?, RotatingKey.frame, hheader]
  have hbody : ((c.receiving.frame message ++ more).take (frameSize message)).drop
      sealedLengthSize = c.receiving.advance.encrypt message := by
    rw [← hsize, List.take_left, RotatingKey.frame]
    exact List.drop_left' hheader
  have hlong : frameSize message ≤ (c.receiving.frame message ++ more).length := by
    rw [List.length_append]
    omega
  obtain ⟨length, hlength, hannounced⟩ := exists_announced c h hheader
  exact decryptFrame_eq hpending hfirst hannounced hlength hlong
    (by rw [hbody, RotatingKey.decryptAt_encrypt_advance hkey])

end Channel

end Bolt8
