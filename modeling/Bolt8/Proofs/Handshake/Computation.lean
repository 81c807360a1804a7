import Bolt8.Proofs.Handshake.Act
import Bolt8.Transport.Channel

/-!
# What the acts compute

The handshake written out from hash, key derivation and cipher alone. Every act
ends alike, with the tag of a `Closing`, and the next act takes over the hash
and the chaining key that this leaves behind. What a transcript writes is what
is computed here, and it reads exactly that.
-/

namespace Bolt8

/-! ## The computation -/

/-- The end of an act: a shared secret gives the key of a tag over nothing, with
the hash of all before it as associated data. -/
structure Closing where
  hash : Digest
  chainingKey : Digest
  secret : SharedSecret

namespace Closing

variable (c : Closing)

/-- The next chaining key, and the key of the tag. -/
def derived : Derived := hkdf c.chainingKey c.secret.digest.val

def tag : Bytes := Aead.encrypt c.derived.second 0 c.hash.val []

/-- The hash after the act. -/
def after : Digest := sha256 (c.hash.val ++ c.tag)

/-- The transcript after the act; the key of the tag has been used once. -/
def transcript : Transcript := ⟨⟨some c.derived.second, 1⟩, c.derived.first, c.after⟩

end Closing

/-- Act 1 or 2, from the hash and the chaining key before it. -/
structure EphemeralAct where
  hash : Digest
  chainingKey : Digest
  /-- The key that is sent, compressed. -/
  key : Bytes
  secret : SharedSecret

namespace EphemeralAct

variable (a : EphemeralAct)

def closing : Closing := ⟨sha256 (a.hash.val ++ a.key), a.chainingKey, a.secret⟩

def bytes : Bytes := 0 :: a.key ++ a.closing.tag

end EphemeralAct

/-- Act 3, from what act 2 leaves behind, its key included. -/
structure StaticAct where
  hash : Digest
  chainingKey : Digest
  sealing : Aead.Key
  /-- The key that is sent, compressed. -/
  identity : Bytes
  secret : SharedSecret

namespace StaticAct

variable (a : StaticAct)

def sealed : Bytes := Aead.encrypt a.sealing 1 a.hash.val a.identity

def closing : Closing := ⟨sha256 (a.hash.val ++ a.sealed), a.chainingKey, a.secret⟩

def bytes : Bytes := 0 :: a.sealed ++ a.closing.tag

/-- The transport keys: the initiator sends with the first. -/
def transport : Derived := hkdf a.closing.derived.first []

def channel : Role → Channel
  | .initiator =>
    ⟨.start a.transport.first a.closing.derived.first,
      .start a.transport.second a.closing.derived.first, none, some a.closing.after⟩
  | .responder =>
    ⟨.start a.transport.second a.closing.derived.first,
      .start a.transport.first a.closing.derived.first, none, some a.closing.after⟩

theorem ofSplit_transcript (role : Role) :
    Channel.ofSplit a.closing.transcript.split role = a.channel role := by
  cases role <;> rfl

end StaticAct

namespace EphemeralAct

/-- The digest of the protocol's name, with which hash and chaining key begin. -/
def origin : Digest := sha256 protocolName.toUTF8.data.toList

/-- The hash before act 1, to the holder of the key `responder`. -/
def opening (responder : PublicKey) : Digest :=
  sha256 ((sha256 (origin.val ++ prologue)).val ++ responder.compress.val)

def first (responder : PublicKey) (key : Bytes) (secret : SharedSecret) : EphemeralAct :=
  ⟨opening responder, origin, key, secret⟩

/-- Act 2, after act 1. -/
def next (a : EphemeralAct) (key : Bytes) (secret : SharedSecret) : EphemeralAct :=
  ⟨a.closing.after, a.closing.derived.first, key, secret⟩

/-- Act 3, after act 2. -/
def last (a : EphemeralAct) (identity : Bytes) (secret : SharedSecret) : StaticAct :=
  ⟨a.closing.after, a.closing.derived.first, a.closing.derived.second, identity, secret⟩

end EphemeralAct

/-! ## What an act of the right form is -/

theorem Act.content_eq_ok_iff {act : Act} {input content : Bytes} :
    act.content input = .ok content ↔
      input = handshakeVersion :: content ∧ content.length + 1 = act.size := by
  constructor
  · intro h
    unfold Act.content at h
    split at h
    · exact nomatch h
    · rename_i hsize
      rw [not_not] at hsize
      split at h
      · cases act <;> exact nomatch hsize
      · split at h
        · exact nomatch h
        · rename_i hversion
          rw [not_not] at hversion
          obtain rfl := Except.ok.inj h
          exact ⟨by rw [hversion], hsize⟩
  · rintro ⟨rfl, hsize⟩
    exact Act.content_cons hsize

theorem PublicKey.read_eq_ok_iff {bs : Bytes} {key : PublicKey} :
    PublicKey.read bs = .ok key ↔ Curve.Point.ofCompressed? bs = some key := by
  unfold PublicKey.read
  cases Curve.Point.ofCompressed? bs <;> simp

theorem Curve.Point.length_of_ofCompressed? {bs : Bytes} {P : Point}
    (h : ofCompressed? bs = some P) : bs.length = compressedSize := by
  unfold ofCompressed? at h
  split at h
  · split at h
    · rename_i hform
      rw [List.length_cons, hform.1]
      rfl
    · exact nomatch h
  · exact nomatch h

namespace Transcript

theorem opening_eq (responder : PublicKey) :
    opening responder =
      ⟨.empty, EphemeralAct.origin, EphemeralAct.opening responder⟩ := by
  have hname : nameDigest protocolName.toUTF8.data.toList = EphemeralAct.origin := by
    rw [nameDigest, dif_neg (by decide)]
    rfl
  simp only [opening, start, hname]
  rfl

/-- What closes an act from here on. -/
def closing (t : Transcript) (secret : SharedSecret) : Closing := ⟨t.hash, t.chainingKey, secret⟩

/-- Act 1 or 2 from here on. -/
def ephemeralAct (t : Transcript) (key : Bytes) (secret : SharedSecret) : EphemeralAct :=
  ⟨t.hash, t.chainingKey, key, secret⟩

/-- Act 3 from here on, under the key `sealing`. -/
def staticAct (t : Transcript) (sealing : Aead.Key) (identity : Bytes) (secret : SharedSecret) :
    StaticAct :=
  ⟨t.hash, t.chainingKey, sealing, identity, secret⟩

variable {t t' : Transcript} {own : SecretKey} {remote : PublicKey} {input : Bytes}

/-! ## Closing an act -/

theorem encryptAndHash_closing (t : Transcript) (own : SecretKey) (remote : PublicKey) :
    (t.mixShared own remote).encryptAndHash [] =
      .ok ((t.closing (own.agree remote)).tag, (t.closing (own.agree remote)).transcript) :=
  encryptAndHash_eq (key_mixKey _ _) []

theorem decryptAndHash_eq {key : Aead.Key} (h : t.temp.key = some key) (sealed : Bytes) :
    t.decryptAndHash sealed =
      match Aead.decrypt key t.temp.counter t.hash.val sealed with
      | none => .error .notAuthentic
      | some plain => .ok (plain, { t with temp := t.temp.advance }.mixHash sealed) := by
  simp only [decryptAndHash, TempKey.decrypt, h]
  cases Aead.decrypt key t.temp.counter t.hash.val sealed <;> rfl

theorem length_tag (c : Closing) : c.tag.length = Aead.tagSize :=
  Aead.length_encrypt ..

/-- Of all texts of its size only the tag itself is accepted. -/
theorem decryptAndHash_closing {c : Closing} (hc : t.closing (own.agree remote) = c)
    {sealed : Bytes} (hsize : sealed.length = Aead.tagSize) :
    (t.mixShared own remote).decryptAndHash sealed =
      if sealed = c.tag then .ok ([], c.transcript) else .error .notAuthentic := by
  subst hc
  rw [mixShared, decryptAndHash_eq (key_mixKey _ _)]
  split
  · rename_i hopen
    rw [if_neg]
    rintro rfl
    have hopens :=
      Aead.decrypt_encrypt (t.closing (own.agree remote)).derived.second 0 t.hash.val []
    cases hopen.symm.trans hopens
  · rename_i plain hopen
    obtain rfl : plain = [] := by
      have hlength := Aead.length_of_decrypt hopen
      rw [hsize] at hlength
      exact List.length_eq_zero_iff.1 (by omega)
    obtain rfl : (t.closing (own.agree remote)).tag = sealed := Aead.encrypt_of_decrypt hopen
    rw [if_pos rfl]
    rfl

/-! ## Acts 1 and 2 -/

theorem writeEphemeral_eq (t : Transcript) (ephemeral : KeyPair) (remote : PublicKey) :
    t.writeEphemeral ephemeral remote =
      let a := t.ephemeralAct ephemeral.pub.compress.val (ephemeral.secret.agree remote)
      .ok (a.bytes, a.closing.transcript) := by
  simp only [writeEphemeral, encryptAndHash_closing]
  rfl

theorem readEphemeral_eq (t : Transcript) {act : Act} (hsize : act.size = 50) (own : SecretKey)
    {content : Bytes} (hcontent : act.content input = .ok content) :
    t.readEphemeral act own input =
      match Curve.Point.ofCompressed? (content.take 33) with
      | none => .error .malformedKey
      | some remote =>
        let a := t.ephemeralAct (content.take 33) (own.agree remote)
        if content.drop 33 = a.closing.tag then .ok (remote, a.closing.transcript)
        else .error .notAuthentic := by
  obtain ⟨-, hlength⟩ := Act.content_eq_ok_iff.1 hcontent
  have htag : (content.drop 33).length = Aead.tagSize := by
    rw [List.length_drop, Aead.tagSize]
    omega
  simp only [readEphemeral, hcontent, bind, Except.bind, PublicKey.read, Curve.compressedSize]
  cases Curve.Point.ofCompressed? (content.take 33) with
  | none => rfl
  | some remote =>
      have hclosing : (t.mixHash (content.take 33)).closing (own.agree remote) =
          (t.ephemeralAct (content.take 33) (own.agree remote)).closing := rfl
      simp only [decryptAndHash_closing hclosing htag]
      by_cases hproof : content.drop 33 =
          (t.ephemeralAct (content.take 33) (own.agree remote)).closing.tag
      · rw [if_pos hproof, if_pos hproof]
        rfl
      · rw [if_neg hproof, if_neg hproof]

/-- Reading accepts the acts that are computed from the key in them. -/
theorem readEphemeral_eq_ok_iff {act : Act} (hsize : act.size = 50) :
    t.readEphemeral act own input = .ok (remote, t') ↔
      ∃ key, Curve.Point.ofCompressed? key = some remote ∧
        input = (t.ephemeralAct key (own.agree remote)).bytes ∧
        t' = (t.ephemeralAct key (own.agree remote)).closing.transcript := by
  constructor
  · intro h
    obtain ⟨content, hcontent, -⟩ := bind_eq_ok.1 h
    rw [readEphemeral_eq t hsize own hcontent] at h
    split at h
    · exact nomatch h
    · rename_i key hkey
      dsimp only at h
      split at h
      · rename_i htag
        obtain ⟨rfl, rfl⟩ := Prod.mk.inj (Except.ok.inj h)
        refine ⟨_, hkey, ?_, rfl⟩
        rw [(Act.content_eq_ok_iff.1 hcontent).1, EphemeralAct.bytes, ← htag]
        exact congrArg (0 :: ·) (List.take_append_drop 33 content).symm
      · exact nomatch h
  · rintro ⟨key, hkey, rfl, rfl⟩
    have hlength : key.length = 33 := Curve.Point.length_of_ofCompressed? hkey
    have hcontent : act.content (t.ephemeralAct key (own.agree remote)).bytes =
        .ok (key ++ (t.ephemeralAct key (own.agree remote)).closing.tag) := by
      refine Act.content_eq_ok_iff.2 ⟨rfl, ?_⟩
      rw [List.length_append, hlength, length_tag, hsize, Aead.tagSize]
    rw [readEphemeral_eq t hsize own hcontent, List.take_left' hlength, List.drop_left' hlength,
      hkey]
    exact if_pos rfl

/-! ## Act 3 -/

variable {sealing : Aead.Key}

theorem writeStatic_eq (h : t.temp = ⟨some sealing, 1⟩) (identity : KeyPair) (remote : PublicKey) :
    t.writeStatic identity remote =
      let a := t.staticAct sealing identity.pub.compress.val (identity.secret.agree remote)
      .ok (a.bytes, a.closing.transcript) := by
  have hkey : t.temp.key = some sealing := by rw [h]
  simp only [writeStatic, encryptAndHash_eq hkey, bind, Except.bind, encryptAndHash_closing, h]
  rfl

theorem readStatic_eq (h : t.temp = ⟨some sealing, 1⟩) (own : SecretKey) {content : Bytes}
    (hcontent : Act.three.content input = .ok content) :
    t.readStatic own input =
      match Aead.decrypt sealing 1 t.hash.val (content.take 49) with
      | none => .error .notAuthentic
      | some identity =>
        match Curve.Point.ofCompressed? identity with
        | none => .error .malformedKey
        | some remote =>
          let a := t.staticAct sealing identity (own.agree remote)
          if content.drop 49 = a.closing.tag then .ok (remote, a.closing.transcript)
          else .error .notAuthentic := by
  obtain ⟨-, hlength⟩ := Act.content_eq_ok_iff.1 hcontent
  have htag : (content.drop 49).length = Aead.tagSize := by
    rw [List.length_drop, Aead.tagSize]
    simp only [Act.size, Curve.compressedSize, Aead.tagSize] at hlength
    omega
  have hkey : t.temp.key = some sealing := by rw [h]
  simp only [readStatic, hcontent, bind, Except.bind, decryptAndHash_eq hkey, h,
    Curve.compressedSize, Aead.tagSize]
  cases hopen : Aead.decrypt sealing 1 t.hash.val (content.take 49) with
  | none => rfl
  | some identity =>
      have hsealed := Aead.encrypt_of_decrypt hopen
      simp only [PublicKey.read]
      cases Curve.Point.ofCompressed? identity with
      | none => rfl
      | some remote =>
          have hclosing : ({ t with temp := TempKey.advance ⟨some sealing, 1⟩ }.mixHash
              (content.take 49)).closing (own.agree remote) =
              (t.staticAct sealing identity (own.agree remote)).closing := by
            rw [← hsealed]
            rfl
          simp only [decryptAndHash_closing hclosing htag]
          by_cases hproof : content.drop 49 =
              (t.staticAct sealing identity (own.agree remote)).closing.tag
          · rw [if_pos hproof, if_pos hproof]
            rfl
          · rw [if_neg hproof, if_neg hproof]

theorem readStatic_eq_ok_iff (h : t.temp = ⟨some sealing, 1⟩) :
    t.readStatic own input = .ok (remote, t') ↔
      ∃ identity, Curve.Point.ofCompressed? identity = some remote ∧
        input = (t.staticAct sealing identity (own.agree remote)).bytes ∧
        t' = (t.staticAct sealing identity (own.agree remote)).closing.transcript := by
  constructor
  · intro hread
    obtain ⟨content, hcontent, -⟩ := bind_eq_ok.1 hread
    rw [readStatic_eq h own hcontent] at hread
    split at hread
    · exact nomatch hread
    · rename_i identity hopen
      split at hread
      · exact nomatch hread
      · rename_i key hkey
        dsimp only at hread
        split at hread
        · rename_i htag
          obtain ⟨rfl, rfl⟩ := Prod.mk.inj (Except.ok.inj hread)
          have hsealed : (t.staticAct sealing identity (own.agree key)).sealed = content.take 49 :=
            Aead.encrypt_of_decrypt hopen
          refine ⟨identity, hkey, ?_, rfl⟩
          rw [(Act.content_eq_ok_iff.1 hcontent).1, StaticAct.bytes, ← htag, hsealed]
          exact congrArg (0 :: ·) (List.take_append_drop 49 content).symm
        · exact nomatch hread
  · rintro ⟨identity, hkey, rfl, rfl⟩
    have hlength : (t.staticAct sealing identity (own.agree remote)).sealed.length = 49 := by
      rw [StaticAct.sealed, Aead.length_encrypt, Aead.tagSize]
      exact congrArg (· + 16) (Curve.Point.length_of_ofCompressed? hkey)
    have hcontent : Act.three.content (t.staticAct sealing identity (own.agree remote)).bytes =
        .ok ((t.staticAct sealing identity (own.agree remote)).sealed ++
          (t.staticAct sealing identity (own.agree remote)).closing.tag) := by
      refine Act.content_eq_ok_iff.2 ⟨rfl, ?_⟩
      rw [List.length_append, hlength, length_tag]
      rfl
    have hopen : Aead.decrypt sealing 1 t.hash.val
        (t.staticAct sealing identity (own.agree remote)).sealed = some identity :=
      Aead.decrypt_encrypt ..
    rw [readStatic_eq h own hcontent, List.take_left' hlength, List.drop_left' hlength, hopen]
    dsimp only
    rw [hkey]
    exact if_pos rfl

end Transcript

end Bolt8
