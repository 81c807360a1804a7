import Bolt8.Proofs.Key
import Bolt8.Proofs.Transcript

/-!
# Reading the act that was written

The writer of an act and its reader mix the same key, the same shared secret
and the same sealed texts into equal transcripts, although each computes the
secret from other keys. So the reader accepts the act, learns the writer's
key, and both transcripts are equal again.
-/

namespace Bolt8

theorem Act.content_cons {act : Act} {content : Bytes} (h : content.length + 1 = act.size) :
    act.content (handshakeVersion :: content) = .ok content := by
  simp [Act.content, h]

namespace Transcript

theorem mixShared_comm (t : Transcript) (p q : KeyPair) :
    t.mixShared p.secret q.pub = t.mixShared q.secret p.pub := by
  rw [mixShared, mixShared, KeyPair.agree_comm]

/-! ## Acts 1 and 2 -/

theorem exists_writeEphemeral (t : Transcript) (ephemeral : KeyPair) (remote : PublicKey) :
    ∃ act t', t.writeEphemeral ephemeral remote = .ok (act, t') ∧ t'.temp.key.isSome := by
  simp only [writeEphemeral, mixShared, encryptAndHash_eq (key_mixKey _ _)]
  exact ⟨_, _, rfl, rfl⟩

theorem readEphemeral_of_writeEphemeral {t t' : Transcript} {ephemeral own : KeyPair}
    {bytes : Bytes} (act : Act) (hsize : act.size = 50)
    (h : t.writeEphemeral ephemeral own.pub = .ok (bytes, t')) :
    t.readEphemeral act own.secret bytes = .ok (ephemeral.pub, t') := by
  have hkey : ephemeral.pub.compress.val.length = Curve.compressedSize :=
    ephemeral.pub.compress.property
  obtain ⟨⟨tag, t''⟩, hseal, heq⟩ := bind_eq_ok.1 h
  obtain ⟨rfl, rfl⟩ : handshakeVersion :: ephemeral.pub.compress.val ++ tag = bytes ∧
      t'' = t' := by simpa [pure, Except.pure] using heq
  have htag := length_of_encryptAndHash hseal
  have hcontent : act.content (handshakeVersion :: ephemeral.pub.compress.val ++ tag) =
      .ok (ephemeral.pub.compress.val ++ tag) :=
    Act.content_cons (by simp [hkey, htag, hsize, Curve.compressedSize, Aead.tagSize])
  have hopen := decryptAndHash_of_encryptAndHash hseal
  rw [mixShared_comm] at hopen
  simp only [readEphemeral, hcontent, bind, Except.bind, ← hkey, List.take_left,
    List.drop_left, KeyPair.read_compress, hopen]
  rfl

/-! ## Act 3 -/

theorem exists_writeStatic {t : Transcript} (hkey : t.temp.key.isSome) (identity : KeyPair)
    (remote : PublicKey) : ∃ act t', t.writeStatic identity remote = .ok (act, t') := by
  obtain ⟨key, hkey⟩ := Option.isSome_iff_exists.1 hkey
  simp only [writeStatic, encryptAndHash_eq hkey, bind, Except.bind, mixShared,
    encryptAndHash_eq (key_mixKey _ _)]
  exact ⟨_, _, rfl⟩

theorem readStatic_of_writeStatic {t t' : Transcript} {identity ephemeral : KeyPair}
    {bytes : Bytes} (h : t.writeStatic identity ephemeral.pub = .ok (bytes, t')) :
    t.readStatic ephemeral.secret bytes = .ok (identity.pub, t') := by
  have hkey : identity.pub.compress.val.length = Curve.compressedSize :=
    identity.pub.compress.property
  obtain ⟨⟨sealed, t₁⟩, hseal, h⟩ := bind_eq_ok.1 h
  obtain ⟨⟨tag, t₂⟩, hproof, heq⟩ := bind_eq_ok.1 h
  obtain ⟨rfl, rfl⟩ : handshakeVersion :: sealed ++ tag = bytes ∧ t₂ = t' := by
    simpa [pure, Except.pure] using heq
  have hsealed := length_of_encryptAndHash hseal
  have htag := length_of_encryptAndHash hproof
  rw [hkey] at hsealed
  have hcontent : Act.three.content (handshakeVersion :: sealed ++ tag) = .ok (sealed ++ tag) :=
    Act.content_cons (by
      simp [hsealed, htag, Act.size, Curve.compressedSize, Aead.tagSize])
  have hopen := decryptAndHash_of_encryptAndHash hproof
  rw [mixShared_comm] at hopen
  simp only [readStatic, hcontent, bind, Except.bind, ← hsealed, List.take_left,
    List.drop_left, decryptAndHash_of_encryptAndHash hseal, KeyPair.read_compress, hopen]
  rfl

end Transcript

end Bolt8
