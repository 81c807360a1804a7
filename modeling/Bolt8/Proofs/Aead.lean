import Bolt8.Aead
import Bolt8.Proofs.Bytes

/-!
# Opening what was sealed

The key stream is as long as the text, so the mask is its own inverse, and the
tag recomputed over the same body is the same. Hence `decrypt_encrypt`.
-/

namespace Bolt8

namespace ChaCha20

theorem length_block (m : Matrix) (counter : UInt32) : (block m counter).length = 64 := rfl

theorem length_keyStream (key : FixedBytes 32) (nonce : FixedBytes 12) (n : ℕ) :
    n ≤ (keyStream key nonce n).length := by
  simp only [keyStream, List.length_flatMap, length_block, List.map_const', List.length_range,
    List.sum_replicate_nat]
  omega

end ChaCha20

namespace Aead

theorem nonceBytes_injective : Function.Injective nonceBytes := by
  intro n m h
  have hbytes : Bytes.ofNatLE 8 n.toNat = Bytes.ofNatLE 8 m.toNat :=
    List.append_cancel_left (congrArg Subtype.val h)
  have hlt : ∀ k : UInt64, k.toNat < 256 ^ 8 := fun k => k.toNat_lt
  have hnumber := congrArg Bytes.toNatLE hbytes
  rw [Bytes.toNatLE_ofNatLE, Bytes.toNatLE_ofNatLE, Nat.mod_eq_of_lt (hlt n),
    Nat.mod_eq_of_lt (hlt m)] at hnumber
  exact UInt64.toNat_inj.1 hnumber

theorem length_mask (key : Key) (counter : UInt64) (text : Bytes) :
    (mask key counter text).length = text.length :=
  Bytes.length_xor (ChaCha20.length_keyStream _ _ _)

theorem mask_mask (key : Key) (counter : UInt64) (text : Bytes) :
    mask key counter (mask key counter text) = text := by
  have hlen := length_mask key counter text
  unfold mask maskAt at hlen ⊢
  rw [hlen]
  exact Bytes.xor_xor (ChaCha20.length_keyStream _ _ _)

theorem length_encrypt (key : Key) (counter : UInt64) (data plain : Bytes) :
    (encrypt key counter data plain).length = plain.length + tagSize := by
  simp only [encrypt, List.length_append, length_mask, tagSize]
  rw [(tag _ _ _ _).property]

/-- What was sealed opens, to the same text. -/
theorem decrypt_encrypt (key : Key) (counter : UInt64) (data plain : Bytes) :
    decrypt key counter data (encrypt key counter data plain) = some plain := by
  have hlen := length_encrypt key counter data plain
  have hsplit : (encrypt key counter data plain).length - tagSize =
      (mask key counter plain).length := by
    rw [hlen, length_mask]
    omega
  rw [decrypt, if_neg (by omega), hsplit]
  simp only [encrypt, List.take_left, List.drop_left, mask_mask, if_true]

/-- What opens was sealed from the text it opens to. -/
theorem encrypt_of_decrypt {key : Key} {counter : UInt64} {data plain sealed : Bytes}
    (h : decrypt key counter data sealed = some plain) :
    encrypt key counter data plain = sealed := by
  unfold decrypt at h
  split at h
  · exact nomatch h
  · dsimp only at h
    split at h
    · rename_i htag
      obtain rfl := Option.some.inj h
      simp only [encrypt, mask_mask]
      rw [← htag, List.take_append_drop]
    · exact nomatch h

theorem encrypt_inj {key : Key} {counter : UInt64} {data plain plain' : Bytes}
    (h : encrypt key counter data plain = encrypt key counter data plain') : plain = plain' := by
  have hopen := decrypt_encrypt key counter data plain
  rw [h, decrypt_encrypt] at hopen
  exact (Option.some.inj hopen).symm

theorem length_of_decrypt {key : Key} {counter : UInt64} {data plain sealed : Bytes}
    (h : decrypt key counter data sealed = some plain) :
    sealed.length = plain.length + tagSize := by
  rw [← encrypt_of_decrypt h, length_encrypt]

end Aead

end Bolt8
