import Bolt8.Proofs.Checked.Transcript
import Bolt8.Proofs.Transport.Calls

/-!
# The channel in bounds

The counter of a key stays below 1000, so only the number of its epoch can ever
come to an end. As long as that lasts, each call on a channel gives what it
gives without the limits.
-/

namespace Bolt8

/-- So many more frames come before the number of the epoch ends. -/
def RotatingKey.Lasts (k : RotatingKey) (frames : ℕ) : Prop :=
  500 * k.epoch.toNat + k.counter.toNat / 2 + frames < 500 * UInt64.size

theorem RotatingKey.lasts_start (key : Aead.Key) (chainingKey : Digest) {frames : ℕ}
    (h : frames < 500 * UInt64.size) : (RotatingKey.start key chainingKey).Lasts frames := by
  show 500 * (0 : UInt64).toNat + (0 : UInt64).toNat / 2 + frames < _
  rwa [UInt64.toNat_zero, Nat.mul_zero, Nat.zero_div, Nat.zero_add]

namespace Checked

/-! ## Keys -/

def rotate (k : RotatingKey) : Checked RotatingKey := do
  let d ← derive k.chainingKey k.key.val
  let chainingKey ← copy k.chainingKey.val 0 digestSize d.first.val
  let key ← copy k.key.val 0 digestSize d.second.val
  let epoch ← addWord k.epoch 1
  return ⟨← fixed 32 key, ← fixed 32 chainingKey, 0, epoch⟩

def advance (k : RotatingKey) : Checked RotatingKey := do
  let counter ← addWord k.counter 1
  let used := { k with counter }
  if used.counter = rotationInterval then rotate used else return used

/-- Seals a text, and moves on. -/
def encryptNext (k : RotatingKey) (plain : Bytes) : Checked (Bytes × RotatingKey) := do
  let sealed ← encrypt k.key k.counter [] plain
  let k ← advance k
  return (sealed, k)

def decryptAt (k : RotatingKey) (offset : UInt64) (sealed : Bytes) : Checked (Option Bytes) := do
  let counter ← addWord k.counter offset
  decrypt k.key counter [] sealed

theorem rotate_eq {k : RotatingKey} (h : k.epoch.toNat + 1 < UInt64.size) :
    rotate k = .ok k.rotate := by
  have hchaining := copy_digest k.chainingKey.property (hkdf k.chainingKey k.key.val).first
  have hkey := copy_digest k.key.property (hkdf k.chainingKey k.key.val).second
  simp only [rotate, derive_eq, ok_bind, hchaining, hkey, addWord_one h, fixed_eq]
  rfl

/-- Only the last counter of an epoch leads into the next. -/
theorem advance_eq {k : RotatingKey} (hcounter : k.counter.toNat < 1000)
    (hepoch : k.counter.toNat = 999 → k.epoch.toNat + 1 < UInt64.size) :
    advance k = .ok k.advance := by
  have hroom : k.counter.toNat + 1 < UInt64.size := by
    rw [UInt64.size]
    omega
  rw [advance, addWord_one hroom, ok_bind, RotatingKey.advance]
  dsimp only
  by_cases hlast : k.counter + 1 = rotationInterval
  · have hcounter : k.counter.toNat + 1 = 1000 := by
      rw [← toNat_add_one hroom, hlast]
      rfl
    have hnext : (RotatingKey.mk k.key k.chainingKey (k.counter + 1) k.epoch).epoch.toNat + 1 <
        UInt64.size := hepoch (Nat.succ.inj hcounter)
    rw [if_pos hlast, if_pos hlast, rotate_eq hnext]
  · rw [if_neg hlast, if_neg hlast]
    rfl

/-- Through a frame. -/
theorem advance_twice {k : RotatingKey} (hk : k.AtFrame) (hlasts : k.Lasts 1) :
    advance k = .ok k.advance ∧ advance k.advance = .ok k.advance.advance := by
  have hnext := RotatingKey.toNat_counter_advance hk
  obtain ⟨heven, hlt⟩ := hk
  unfold RotatingKey.Lasts at hlasts
  constructor
  · refine advance_eq hlt fun hlast => ?_
    rw [hlast] at heven
    cases heven
  · refine advance_eq ?_ fun hlast => ?_
    · omega
    · have hepoch : k.advance.epoch = k.epoch := by rw [RotatingKey.advance_eq ⟨heven, hlt⟩]
      rw [hepoch]
      omega

/-- A frame takes one of those that are left. -/
theorem lasts_advance_advance {k : RotatingKey} {frames : ℕ} (hk : k.AtFrame)
    (hlasts : k.Lasts (frames + 1)) : k.advance.advance.Lasts frames := by
  obtain ⟨heven, hlt⟩ := hk
  have hnext := RotatingKey.toNat_counter_advance ⟨heven, hlt⟩
  have hepoch : k.advance.epoch = k.epoch := by rw [RotatingKey.advance_eq ⟨heven, hlt⟩]
  have hcounter : (k.advance.counter + 1).toNat = k.counter.toNat + 2 := by
    rw [toNat_add_one (by rw [hnext, UInt64.size]; omega), hnext]
  unfold RotatingKey.Lasts at hlasts ⊢
  rw [RotatingKey.advance]
  dsimp only
  by_cases hlast : k.advance.counter + 1 = rotationInterval
  · have h1000 : k.counter.toNat + 2 = 1000 := by
      rw [← hcounter, hlast]
      rfl
    have hturned : (k.advance.epoch + 1).toNat = k.epoch.toNat + 1 := by
      rw [hepoch]
      exact toNat_add_one (by omega)
    rw [if_pos hlast]
    show 500 * (k.advance.epoch + 1).toNat + (0 : UInt64).toNat / 2 + frames < _
    rw [hturned, UInt64.toNat_zero]
    omega
  · rw [if_neg hlast]
    show 500 * k.advance.epoch.toNat + (k.advance.counter + 1).toNat / 2 + frames < _
    rw [hepoch, hcounter]
    omega

theorem encryptNext_eq {k : RotatingKey} {plain : Bytes} (hplain : plain.length < 2 ^ 63)
    (hadvance : advance k = .ok k.advance) :
    encryptNext k plain = .ok (k.encrypt plain, k.advance) := by
  rw [encryptNext, encrypt_eq _ _ _ hplain, ok_bind, hadvance]
  rfl

theorem decryptAt_eq {k : RotatingKey} (hk : k.AtFrame) {offset : UInt64}
    (hoffset : offset.toNat ≤ 1) (sealed : Bytes) :
    decryptAt k offset sealed = .ok (k.decryptAt offset sealed) := by
  have hroom : k.counter.toNat + offset.toNat < UInt64.size := by
    have hlt := hk.2
    rw [UInt64.size]
    omega
  rw [decryptAt, addWord_eq hroom, ok_bind, decrypt_eq]
  rfl

/-! ## Calls -/

def encryptFrame (c : Channel) (message : Bytes) : Checked (Outcome Channel Bytes) := do
  if maxMessageSize < message.length then
    return ⟨.error (.messageTooLarge message.length), c, []⟩
  else
    let (header, sending) ← encryptNext c.sending (Bytes.ofNatBE 2 message.length)
    let (body, sending) ← encryptNext sending message
    let _ ← add header.length body.length
    return ⟨.ok (header ++ body), { c with sending }, sending.rotation .sending⟩

/-- A length has two bytes, or the machine stops. -/
def announced (c : Channel) (sealed : FixedBytes 18) : Checked (Option UInt16) := do
  match ← decryptAt c.receiving 0 sealed.val with
  | none => return none
  | some plain =>
    let length ← fixed 2 plain
    return some (.ofNat (Bytes.toNatBE length.val))

def commit (c : Channel) : Checked Channel := do
  let receiving ← advance c.receiving
  let receiving ← advance receiving
  return { c with receiving, pending := none }

def decryptLength (c : Channel) (sealed : FixedBytes 18) : Checked (Outcome Channel UInt16) := do
  match ← announced c sealed with
  | none => return ⟨.error .notAuthentic, { c with pending := none }, []⟩
  | some length => return ⟨.ok length, { c with pending := some length }, []⟩

def decryptMessage (c : Channel) (sealed : Bytes) : Checked (Outcome Channel Bytes) := do
  match c.pending with
  | none => return ⟨.error .outOfTurn, c, []⟩
  | some length =>
    let expected ← add length.toNat Aead.tagSize
    if sealed.length ≠ expected then
      return ⟨.error (.bodySize expected sealed.length), c, []⟩
    else
      match ← decryptAt c.receiving 1 sealed with
      | none => return ⟨.error .notAuthentic, c, []⟩
      | some message =>
        let c ← commit c
        return ⟨.ok message, c, c.receiving.rotation .receiving⟩

def decryptFrame (c : Channel) (input : Bytes) : Checked (Outcome Channel (Option Received)) := do
  if c.pending.isSome then return ⟨.error .outOfTurn, c, []⟩
  else
    match FixedBytes.firstOf? 18 input with
    | none => return ⟨.ok none, c, []⟩
    | some sealed =>
      match ← announced c sealed with
      | none => return ⟨.error .notAuthentic, c, []⟩
      | some length =>
        let size ← add sealedLengthSize length.toNat
        let size ← add size Aead.tagSize
        if input.length < size then return ⟨.ok none, c, []⟩
        else
          let body ← slice input sealedLengthSize size
          match ← decryptAt c.receiving 1 body with
          | none => return ⟨.error .notAuthentic, c, []⟩
          | some message =>
            let c ← commit c
            return ⟨.ok (some ⟨message, size⟩), c, c.receiving.rotation .receiving⟩

section

variable {c : Channel}

theorem encryptFrame_eq (hsending : c.sending.AtFrame) {message : Bytes}
    (hlasts : c.sending.Lasts (c.sentBy (.encrypt message)).length) :
    encryptFrame c message = .ok (c.encrypt message) := by
  unfold encryptFrame Channel.encrypt
  by_cases hlarge : maxMessageSize < message.length
  · rw [if_pos hlarge, if_pos hlarge]
    rfl
  · have hfits := Nat.le_of_not_lt hlarge
    have hsent : (c.sentBy (.encrypt message)).length = 1 := by
      rw [Channel.sentBy, Channel.encrypt_eq c hfits]
      rfl
    rw [hsent] at hlasts
    obtain ⟨hfirst, hsecond⟩ := advance_twice hsending hlasts
    have hheader : (Bytes.ofNatBE 2 message.length).length < 2 ^ 63 := by
      rw [Bytes.length_ofNatBE]
      decide
    have hmessage : message.length < 2 ^ 63 := Nat.lt_of_le_of_lt hfits (by decide)
    have hroom : (c.sending.encrypt (Bytes.ofNatBE 2 message.length)).length +
        (c.sending.advance.encrypt message).length < UInt64.size := by
      rw [RotatingKey.length_encrypt, RotatingKey.length_encrypt, Bytes.length_ofNatBE]
      unfold maxMessageSize at hfits
      rw [Aead.tagSize, UInt64.size]
      omega
    rw [if_neg hlarge, if_neg hlarge]
    simp only [encryptNext_eq hheader hfirst, encryptNext_eq hmessage hsecond, ok_bind,
      add_eq hroom]
    rfl

/-- A sealed length opens to two bytes. -/
theorem length_of_decryptAt {k : RotatingKey} {sealed : FixedBytes 18} {plain : Bytes}
    (h : k.decryptAt 0 sealed.val = some plain) : plain.length = 2 := by
  have hsize := (Aead.length_of_decrypt h).symm.trans sealed.property
  exact Nat.add_right_cancel hsize

theorem announced_eq (hreceiving : c.receiving.AtFrame) (sealed : FixedBytes 18) :
    announced c sealed = .ok (c.announced sealed) := by
  rw [announced, decryptAt_eq hreceiving (by decide), Channel.announced]
  cases hplain : c.receiving.decryptAt 0 sealed.val with
  | none => rfl
  | some plain =>
      have hlength := length_of_decryptAt hplain
      have hfixed : fixed 2 plain = .ok ⟨plain, hlength⟩ := dif_pos hlength
      simp only [ok_bind, hfixed]
      rfl

theorem commit_eq (hreceiving : c.receiving.AtFrame) (hlasts : c.receiving.Lasts 1) :
    commit c = .ok c.commit := by
  obtain ⟨hfirst, hsecond⟩ := advance_twice hreceiving hlasts
  rw [commit, hfirst, ok_bind, hsecond]
  rfl

theorem decryptLength_eq (hreceiving : c.receiving.AtFrame) (sealed : FixedBytes 18) :
    decryptLength c sealed = .ok (c.decryptLength sealed) := by
  rw [decryptLength, announced_eq hreceiving, Channel.decryptLength]
  cases c.announced sealed <;> rfl

theorem decryptMessage_eq (hreceiving : c.receiving.AtFrame) {sealed : Bytes}
    (hlasts : c.receiving.Lasts (c.acceptedBy (.decryptMessage sealed)).length) :
    decryptMessage c sealed = .ok (c.decryptMessage sealed) := by
  simp only [Channel.acceptedBy, Channel.decryptMessage] at hlasts
  unfold decryptMessage Channel.decryptMessage
  cases hpending : c.pending with
  | none => rfl
  | some length =>
      have hroom : length.toNat + Aead.tagSize < UInt64.size := by
        have hlt := length.toNat_lt
        rw [Aead.tagSize, UInt64.size]
        omega
      simp only [hpending, add_eq hroom, ok_bind] at hlasts ⊢
      by_cases hsize : sealed.length = length.toNat + Aead.tagSize
      · simp only [hsize, ne_eq, not_true_eq_false, if_false, decryptAt_eq hreceiving
          (show (1 : UInt64).toNat ≤ 1 from Nat.le_refl 1), ok_bind] at hlasts ⊢
        cases hopen : c.receiving.decryptAt 1 sealed with
        | none => rfl
        | some message =>
            simp only [hopen] at hlasts
            simp only [commit_eq hreceiving hlasts, ok_bind]
            rfl
      · simp only [hsize, ne_eq, not_false_eq_true, if_true]
        rfl

theorem decryptFrame_eq (hreceiving : c.receiving.AtFrame) {input : Bytes}
    (hlasts : c.receiving.Lasts (c.acceptedBy (.decryptFrame input)).length) :
    decryptFrame c input = .ok (c.decryptFrame input) := by
  simp only [Channel.acceptedBy, Channel.decryptFrame] at hlasts
  unfold decryptFrame Channel.decryptFrame
  by_cases hpending : c.pending.isSome
  · rw [if_pos hpending, if_pos hpending]
    rfl
  · rw [if_neg hpending, if_neg hpending]
    cases hfirst : FixedBytes.firstOf? 18 input with
    | none => rfl
    | some sealed =>
        simp only [announced_eq hreceiving, ok_bind]
        cases hannounced : c.announced sealed with
        | none => rfl
        | some length =>
            obtain ⟨hlength, hsize⟩ : sealedLengthSize + length.toNat < UInt64.size ∧
                sealedLengthSize + length.toNat + Aead.tagSize < UInt64.size := by
              have hlt := length.toNat_lt
              rw [sealedLengthSize, Aead.tagSize, UInt64.size]
              omega
            simp only [add_eq hlength, add_eq hsize, ok_bind]
            by_cases hshort : input.length < sealedLengthSize + length.toNat + Aead.tagSize
            · rw [if_pos hshort, if_pos hshort]
              rfl
            · have hstart : sealedLengthSize ≤ sealedLengthSize + length.toNat + Aead.tagSize := by
                omega
              rw [if_neg hshort, if_neg hshort]
              simp only [slice_eq hstart (Nat.le_of_not_lt hshort), ok_bind,
                decryptAt_eq hreceiving (show (1 : UInt64).toNat ≤ 1 from Nat.le_refl 1)]
              cases hopen : c.receiving.decryptAt 1 ((input.take (sealedLengthSize + length.toNat +
                  Aead.tagSize)).drop sealedLengthSize) with
              | none => rfl
              | some message =>
                  simp only [if_neg hpending, hfirst, hannounced, if_neg hshort, hopen] at hlasts
                  simp only [commit_eq hreceiving hlasts, ok_bind]
                  rfl

end

end Checked

end Bolt8
