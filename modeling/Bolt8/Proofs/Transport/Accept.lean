import Bolt8.Proofs.Transport.Calls

/-!
# Which bytes are received

A text opens only if it is the one sealed from what it opens to. So how far an
attempt gets says what the input begins with: a whole frame, the front of a
frame, or neither (`decryptFrame_decides`).
-/

namespace Bolt8

theorem FixedBytes.val_of_firstOf? {n : ℕ} {bs : Bytes} {front : FixedBytes n}
    (h : firstOf? n bs = some front) : front.val = bs.take n := by
  unfold firstOf? at h
  split at h
  · obtain rfl := Option.some.inj h
    rfl
  · exact nomatch h

namespace Aead

theorem mask_inj {key : Key} {counter : UInt64} {plain plain' : Bytes}
    (h : mask key counter plain = mask key counter plain') : plain = plain' := by
  rw [← mask_mask key counter plain, h, mask_mask]

/-- A sealed text begins with the masked plain text. -/
theorem take_encrypt (key : Key) (counter : UInt64) (data plain : Bytes) :
    (encrypt key counter data plain).take plain.length = mask key counter plain := by
  rw [encrypt]
  exact List.take_left' (length_mask key counter plain)

end Aead

namespace RotatingKey

variable {k : RotatingKey} {sealed plain : Bytes}

theorem decryptAt_zero_eq_some_iff :
    k.decryptAt 0 sealed = some plain ↔ sealed = k.encrypt plain := by
  constructor
  · intro h
    rw [decryptAt, UInt64.add_zero] at h
    exact (Aead.encrypt_of_decrypt h).symm
  · rintro rfl
    exact decryptAt_encrypt k plain

theorem decryptAt_one_eq_some_iff (hk : k.AtFrame) :
    k.decryptAt 1 sealed = some plain ↔ sealed = k.advance.encrypt plain := by
  constructor
  · intro h
    rw [advance_eq hk]
    exact (Aead.encrypt_of_decrypt h).symm
  · rintro rfl
    exact decryptAt_encrypt_advance hk plain

/-- A frame is a matter of key and counter alone. -/
theorem frame_congr {k' : RotatingKey} (hk : k.AtFrame) (hk' : k'.AtFrame) (hkey : k.key = k'.key)
    (hcounter : k.counter = k'.counter) (message : Bytes) : k.frame message = k'.frame message := by
  rw [frame, frame, advance_eq hk, advance_eq hk', encrypt, encrypt, encrypt, encrypt]
  simp only [hkey, hcounter]

theorem length_header (k : RotatingKey) (n : ℕ) : (k.encrypt (Bytes.ofNatBE 2 n)).length = 18 := by
  rw [length_encrypt, Bytes.length_ofNatBE, Aead.tagSize]

theorem take_frame (k : RotatingKey) (message : Bytes) :
    (k.frame message).take 18 = k.encrypt (Bytes.ofNatBE 2 message.length) := by
  rw [frame, List.take_left' (length_header k _)]

/-- The two bytes before the tag tell a sealed length from any other. -/
theorem header_inj {n n' : ℕ} (hn : n < 65536) (hn' : n' < 65536)
    (h : (k.encrypt (Bytes.ofNatBE 2 n)).take 2 = (k.encrypt (Bytes.ofNatBE 2 n')).take 2) :
    n = n' := by
  have hmask := fun n => Aead.take_encrypt k.key k.counter [] (Bytes.ofNatBE 2 n)
  simp only [Bytes.length_ofNatBE] at hmask
  rw [encrypt, encrypt, hmask, hmask] at h
  rw [← Bytes.toNatBE_ofNatBE (k := 2) (n := n) (by omega), Aead.mask_inj h,
    Bytes.toNatBE_ofNatBE (by omega)]

end RotatingKey

namespace Channel

variable {c : Channel} {input : Bytes} {length : UInt16}

theorem announced_eq_some_iff {sealed : FixedBytes 18} :
    c.announced sealed = some length ↔
      sealed.val = c.receiving.encrypt (Bytes.ofNatBE 2 length.toNat) := by
  constructor
  · intro h
    obtain ⟨bs, hopen, rfl⟩ := Option.map_eq_some_iff.1 h
    have hsize : bs.length = 2 := by
      have hlength := Aead.length_of_decrypt hopen
      rw [sealed.property, Aead.tagSize] at hlength
      omega
    have hfits : Bytes.toNatBE bs < UInt16.size := by
      have hlt := Bytes.toNatBE_lt bs
      rw [hsize] at hlt
      exact hlt
    have hbytes := Bytes.ofNatBE_toNatBE bs
    rw [hsize] at hbytes
    rw [UInt16.toNat_ofNat_of_lt' hfits, hbytes]
    exact RotatingKey.decryptAt_zero_eq_some_iff.1 hopen
  · intro h
    have hfits := length.toNat_lt
    rw [announced, h, RotatingKey.decryptAt_encrypt, Option.map_some,
      Bytes.toNatBE_ofNatBE (by omega), UInt16.ofNat_toNat]

theorem announces_iff :
    c.Announces input length ↔
      input.take 18 = c.receiving.encrypt (Bytes.ofNatBE 2 length.toNat) := by
  constructor
  · rintro ⟨sealed, hfirst, hannounced⟩
    rw [← FixedBytes.val_of_firstOf? hfirst, announced_eq_some_iff.1 hannounced]
  · intro h
    have hsize : (input.take 18).length = 18 := by rw [h, RotatingKey.length_header]
    exact ⟨⟨_, hsize⟩, by rw [FixedBytes.firstOf?, dif_pos hsize], announced_eq_some_iff.2 h⟩

/-! ## What the input begins with -/

theorem frameSize_eq (message : Bytes) : frameSize message = message.length + 34 := by
  rw [frameSize, sealedLengthSize, Aead.tagSize]
  omega

theorem decryptFrame_eq_some_iff (hpending : c.pending = none) (hkey : c.receiving.AtFrame)
    {message : Bytes} {n : ℕ} :
    (c.decryptFrame input).result = .ok (some ⟨message, n⟩) ↔
      message.length ≤ maxMessageSize ∧ n = frameSize message ∧
        input.take n = c.receiving.frame message := by
  constructor
  · intro h
    have hattempt := attempt_decryptFrame c input
    generalize c.decryptFrame input = out at hattempt h
    cases hattempt with
    | busy | short | forgedLength | incomplete | forgedBody => exact nomatch h
    | @whole length message' _ hannounces hlong hopen =>
        obtain ⟨rfl, rfl⟩ := Received.mk.inj (Option.some.inj (Except.ok.inj h))
        have hbody := (RotatingKey.decryptAt_one_eq_some_iff hkey).1 hopen
        have hsize : length.toNat = message'.length := by
          have hlength := congrArg List.length hbody
          rw [body, List.length_drop, List.length_take_of_le hlong,
            RotatingKey.length_encrypt] at hlength
          omega
        have hfits := length.toNat_lt
        refine ⟨by rw [← hsize, maxMessageSize]; omega, by rw [frameSize, hsize], ?_⟩
        -- the sealed length is the first part of the frame, and the body the rest
        have hheader := announces_iff.1 hannounces
        rw [RotatingKey.frame, ← hbody, ← hsize, ← hheader, body]
        have htake : (input.take (sealedLengthSize + length.toNat + Aead.tagSize)).take
            sealedLengthSize = input.take 18 := by
          rw [List.take_take, Nat.min_eq_left (by omega), sealedLengthSize, Aead.tagSize]
        rw [← htake, List.take_append_drop]
  · rintro ⟨hfits, rfl, htake⟩
    rw [← List.take_append_drop (frameSize message) input, htake,
      decryptFrame_frame hpending hkey hfits]

/-- The input ends before the frame that it begins with. -/
def Unfinished (k : RotatingKey) (input : Bytes) : Prop :=
  input.length < 18 ∨ ∃ length : UInt16,
    input.take 18 = k.encrypt (Bytes.ofNatBE 2 length.toNat) ∧ input.length < length.toNat + 34

theorem eq_of_announces {length' : UInt16} (h : c.Announces input length)
    (h' : c.Announces input length') : length = length' := by
  obtain ⟨sealed, hfirst, hannounced⟩ := h
  obtain ⟨sealed', hfirst', hannounced'⟩ := h'
  obtain rfl := Option.some.inj (hfirst.symm.trans hfirst')
  exact Option.some.inj (hannounced.symm.trans hannounced')

theorem size_eq (length : UInt16) :
    sealedLengthSize + length.toNat + Aead.tagSize = length.toNat + 34 := by
  rw [sealedLengthSize, Aead.tagSize]
  omega

/-- An input that goes as far as its sealed length says is no front of a frame. -/
theorem not_unfinished (h : c.Announces input length)
    (hlong : sealedLengthSize + length.toNat + Aead.tagSize ≤ input.length) :
    ¬ Unfinished c.receiving input := by
  rw [size_eq] at hlong
  rintro (hshort | ⟨length', hheader, hlt⟩)
  · omega
  · rw [eq_of_announces h (announces_iff.2 hheader)] at hlong
    omega

theorem decryptFrame_eq_none_iff (hpending : c.pending = none) :
    (c.decryptFrame input).result = .ok none ↔ Unfinished c.receiving input := by
  have hattempt := attempt_decryptFrame c input
  generalize c.decryptFrame input = out at hattempt
  cases hattempt with
  | busy hbusy =>
      exact absurd hpending hbusy
  | short _ hshort =>
      exact iff_of_true rfl (.inl hshort)
  | forgedLength _ hlong hforged =>
      refine iff_of_false nofun ?_
      rintro (hshort | ⟨length, hheader, -⟩)
      · omega
      · exact hforged length (announces_iff.2 hheader)
  | incomplete _ hannounces hlt =>
      rw [size_eq] at hlt
      exact iff_of_true rfl (.inr ⟨_, announces_iff.1 hannounces, hlt⟩)
  | forgedBody _ hannounces hlong _ =>
      exact iff_of_false nofun (not_unfinished hannounces hlong)
  | whole _ hannounces hlong _ =>
      exact iff_of_false nofun (not_unfinished hannounces hlong)

theorem decryptFrame_eq_error_iff (hpending : c.pending = none) :
    (c.decryptFrame input).result = .error .notAuthentic ↔
      (∀ message n, (c.decryptFrame input).result ≠ .ok (some ⟨message, n⟩)) ∧
        (c.decryptFrame input).result ≠ .ok none := by
  have hattempt := attempt_decryptFrame c input
  generalize c.decryptFrame input = out at hattempt
  cases hattempt with
  | busy hbusy =>
      exact absurd hpending hbusy
  | short | incomplete =>
      exact iff_of_false nofun fun h => h.2 rfl
  | forgedLength | forgedBody =>
      exact iff_of_true rfl ⟨nofun, nofun⟩
  | whole =>
      exact iff_of_false nofun fun h => h.1 _ _ rfl

/-! ## Fronts of a frame, and frames with other tags -/

theorem decryptFrame_front_of_frame (hpending : c.pending = none) (hkey : c.receiving.AtFrame)
    {message front : Bytes} (hfits : message.length ≤ maxMessageSize)
    (hfront : front <+: c.receiving.frame message) (hne : front ≠ c.receiving.frame message) :
    (c.decryptFrame front).result = .ok none := by
  obtain ⟨later, hframe⟩ := hfront
  by_contra hsome
  -- what is not incomplete stays what it is when the rest of the frame comes in
  have hsame := decryptFrame_append hsome later
  have hwhole := decryptFrame_frame hpending hkey hfits []
  rw [List.append_nil, ← hframe] at hwhole
  have hresult : (c.decryptFrame front).result = .ok (some ⟨message, frameSize message⟩) := by
    rw [← hsame, hwhole]
  obtain ⟨-, -, htake⟩ := (decryptFrame_eq_some_iff hpending hkey).1 hresult
  apply hne
  rw [← htake, List.take_of_length_le]
  rw [← length_frame c.receiving message, ← hframe, List.length_append]
  omega

/-- Equal at least outside the two tags. -/
def SameButTags (forged frame : Bytes) : Prop :=
  forged.length = frame.length ∧ forged.take 2 = frame.take 2 ∧
    (forged.drop 18).take (frame.length - 34) = (frame.drop 18).take (frame.length - 34)

theorem take_drop_frame (k : RotatingKey) (message : Bytes) :
    ((k.frame message).drop 18).take ((k.frame message).length - 34) =
      Aead.mask k.advance.key k.advance.counter message := by
  have hsize : (k.frame message).length - 34 = message.length := by
    rw [length_frame, frameSize_eq]
    omega
  rw [hsize, RotatingKey.frame, List.drop_left' (k.length_header _)]
  exact Aead.take_encrypt ..

theorem eq_of_sameButTags {k : RotatingKey} {message message' : Bytes}
    (h : SameButTags (k.frame message') (k.frame message)) : message' = message := by
  have hmiddle := h.2.2
  rw [take_drop_frame, ← h.1, take_drop_frame] at hmiddle
  exact Aead.mask_inj hmiddle

/-- However its tags are changed, a frame begins with no other length. -/
theorem length_of_sameButTags {k : RotatingKey} {message forged later : Bytes} {n : ℕ}
    (hfits : message.length < 65536) (hn : n < 65536) (h : SameButTags forged (k.frame message))
    (hheader : (forged ++ later).take 18 = k.encrypt (Bytes.ofNatBE 2 n)) :
    n = message.length := by
  have hlong : 2 ≤ forged.length := by
    rw [h.1, length_frame, frameSize_eq]
    omega
  apply RotatingKey.header_inj hn hfits
  rw [← hheader, ← RotatingKey.take_frame, List.take_take, List.take_take,
    show min 2 18 = 2 by decide, List.take_append_of_le_length hlong]
  exact h.2.1

theorem decryptFrame_sameButTags (hpending : c.pending = none) (hkey : c.receiving.AtFrame)
    {message forged : Bytes} (hfits : message.length ≤ maxMessageSize)
    (hsame : SameButTags forged (c.receiving.frame message))
    (hne : forged ≠ c.receiving.frame message) (later : Bytes) :
    (c.decryptFrame (forged ++ later)).result = .error .notAuthentic := by
  have hsize : forged.length = message.length + 34 := by
    rw [hsame.1, length_frame, frameSize_eq]
  rw [maxMessageSize] at hfits
  rw [decryptFrame_eq_error_iff hpending]
  constructor
  · intro message' n hsome
    obtain ⟨hfits', rfl, htake⟩ := (decryptFrame_eq_some_iff hpending hkey).1 hsome
    rw [maxMessageSize] at hfits'
    rw [frameSize_eq] at htake
    have hheader : (forged ++ later).take 18 =
        c.receiving.encrypt (Bytes.ofNatBE 2 message'.length) := by
      rw [← RotatingKey.take_frame, ← htake, List.take_take, Nat.min_eq_left (by omega)]
    have hlength := length_of_sameButTags (by omega) (by omega) hsame hheader
    rw [hlength, ← hsize, List.take_left] at htake
    -- the forged frame would be the frame of its message, which is no other message
    rw [htake] at hsame
    rw [eq_of_sameButTags hsame] at htake
    exact hne htake
  · rw [Ne, decryptFrame_eq_none_iff hpending]
    rintro (hshort | ⟨length, hheader, hlt⟩)
    · rw [List.length_append] at hshort
      omega
    · have hlength := length_of_sameButTags (by omega) length.toNat_lt hsame hheader
      rw [List.length_append] at hlt
      omega

/-! ## A sender at the same place -/

theorem encrypt_eq_ok_iff {t : Channel} {message frame : Bytes} :
    (t.encrypt message).result = .ok frame ↔
      message.length ≤ maxMessageSize ∧ frame = t.sending.frame message := by
  by_cases hfits : message.length ≤ maxMessageSize
  · rw [encrypt_eq t hfits]
    constructor
    · intro h
      exact ⟨hfits, (Except.ok.inj h).symm⟩
    · rintro ⟨-, rfl⟩
      rfl
  · rw [encrypt, if_pos (Nat.lt_of_not_le hfits)]
    refine iff_of_false ?_ fun h => hfits h.1
    intro h
    cases h

/-- The input begins with the frame, of `n` bytes, that the sender makes of the message. -/
def Begins (sender : Channel) (input message : Bytes) (n : ℕ) : Prop :=
  message.length ≤ maxMessageSize ∧ n = message.length + 34 ∧
    (sender.encrypt message).result = .ok (input.take n)

/-- What is received is exactly what a sender at the same place would send. An
incomplete frame is waited for, and whatever cannot become a frame is refused. -/
theorem decryptFrame_decides {r t : Channel} (hr : r.Reachable) (ht : t.Reachable)
    (hpending : r.pending = none) (hkey : t.sending.key = r.receiving.key)
    (hcounter : t.sending.counter = r.receiving.counter) (input : Bytes) :
    let read := fun bytes => (r.decryptFrame bytes).result
    (∀ message n, read input = .ok (some ⟨message, n⟩) ↔ Begins t input message n) ∧
    (read input = .ok none ↔ Unfinished t.sending input) ∧
    (read input = .error .notAuthentic ↔
      (∀ message n, ¬ Begins t input message n) ∧ ¬ Unfinished t.sending input) ∧
    (∀ message frame, (t.encrypt message).result = .ok frame →
      (∀ front, front <+: frame → front ≠ frame → read front = .ok none) ∧
      ∀ forged later, SameButTags forged frame → forged ≠ frame →
        read (forged ++ later) = .error .notAuthentic) ∧
    (read input ≠ .ok none → ∀ later, read (input ++ later) = read input) ∧
    (∀ message n other n', read input = .ok (some ⟨message, n⟩) →
      read other = .ok (some ⟨message, n'⟩) → input.take n = other.take n') := by
  intro read
  have hrkey := (atFrame_of_reachable hr).2
  have hframe := RotatingKey.frame_congr (atFrame_of_reachable ht).1 hrkey hkey hcounter
  have hsome : ∀ message n,
      read input = .ok (some ⟨message, n⟩) ↔ Begins t input message n := by
    intro message n
    rw [decryptFrame_eq_some_iff hpending hrkey, Begins, encrypt_eq_ok_iff, hframe, frameSize_eq]
    tauto
  have hnone : read input = .ok none ↔ Unfinished t.sending input := by
    have hheader : ∀ plain, t.sending.encrypt plain = r.receiving.encrypt plain := by
      intro plain
      rw [RotatingKey.encrypt, RotatingKey.encrypt, hkey, hcounter]
    rw [decryptFrame_eq_none_iff hpending]
    simp only [Unfinished, hheader]
  refine ⟨hsome, hnone, ?_, ?_, ?_, ?_⟩
  · rw [decryptFrame_eq_error_iff hpending, ← hnone]
    simp only [← hsome]
    exact Iff.rfl
  · intro message frame hsent
    obtain ⟨hfits, rfl⟩ := encrypt_eq_ok_iff.1 hsent
    rw [hframe]
    exact ⟨fun front => decryptFrame_front_of_frame hpending hrkey hfits,
      fun forged later hsame hne => decryptFrame_sameButTags hpending hrkey hfits hsame hne later⟩
  · intro hdone later
    exact congrArg Outcome.result (decryptFrame_append hdone later)
  · intro message n other n' hinput hother
    obtain ⟨-, -, htake⟩ := (decryptFrame_eq_some_iff hpending hrkey).1 hinput
    obtain ⟨-, -, htake'⟩ := (decryptFrame_eq_some_iff hpending hrkey).1 hother
    exact htake.trans htake'.symm

theorem decryptFrame_decides_hi :
    let first : Aead.Key := ⟨List.replicate 32 1, rfl⟩
    let second : Aead.Key := ⟨List.replicate 32 2, rfl⟩
    let chainingKey : Digest := ⟨List.replicate 32 7, rfl⟩
    let t : Channel := .ofKeys first second chainingKey
    let r : Channel := .ofKeys second first chainingKey
    let frame := t.sending.frame [104, 105]
    (t.Reachable ∧ r.Reachable ∧ r.pending = none ∧ t.sending.key = r.receiving.key ∧
      t.sending.counter = r.receiving.counter) ∧
    (r.decryptFrame (frame ++ [0])).result = .ok (some ⟨[104, 105], 36⟩) ∧
    (r.decryptFrame (frame.take 35)).result = .ok none := by
  intro first second chainingKey t r frame
  have ht : t.Reachable := .ofKeys first second chainingKey
  have hr : r.Reachable := .ofKeys second first chainingKey
  have hlength : frame.length = 36 := length_frame t.sending [104, 105]
  have hsent : (t.encrypt [104, 105]).result = .ok frame :=
    encrypt_eq_ok_iff.2 ⟨by decide, rfl⟩
  obtain ⟨hsome, -, -, hfronts, -, -⟩ :=
    decryptFrame_decides hr ht rfl rfl rfl (frame ++ [0])
  refine ⟨⟨ht, hr, rfl, rfl, rfl⟩, (hsome _ _).2 ⟨by decide, rfl, ?_⟩, ?_⟩
  · rw [List.take_left' hlength, hsent]
  · refine (hfronts _ _ hsent).1 _ (List.take_prefix 35 frame) fun heq => ?_
    have := congrArg List.length heq
    rw [List.length_take, hlength] at this
    exact absurd this (by decide)

end Channel

end Bolt8
