import Bolt8.Proofs.Aead
import Bolt8.Transcript

/-!
# One transcript, two readers

Sealing and opening do the same to a transcript: whoever opens what was sealed
from an equal transcript gets the plain text and ends with an equal one.
-/

namespace Bolt8

theorem bind_eq_ok {α β : Type} {x : Except Error α} {f : α → Except Error β} {b : β} :
    x >>= f = .ok b ↔ ∃ a, x = .ok a ∧ f a = .ok b := by
  constructor
  · intro h
    cases x with
    | error e => exact nomatch h
    | ok a => exact ⟨a, rfl, h⟩
  · rintro ⟨a, rfl, h⟩
    exact h

namespace Transcript

@[simp] theorem key_mixKey (t : Transcript) (material : Bytes) :
    (t.mixKey material).temp.key = some (hkdf t.chainingKey material).second := rfl

@[simp] theorem temp_mixHash (t : Transcript) (data : Bytes) :
    (t.mixHash data).temp = t.temp := rfl

theorem exists_key_of_encryptAndHash {t : Transcript} {plain : Bytes} {r : Bytes × Transcript}
    (h : t.encryptAndHash plain = .ok r) : ∃ key, t.temp.key = some key := by
  cases hkey : t.temp.key with
  | none =>
      simp only [encryptAndHash, TempKey.encrypt, hkey] at h
      exact nomatch h
  | some key => exact ⟨key, rfl⟩

theorem encryptAndHash_eq {t : Transcript} {key : Aead.Key} (h : t.temp.key = some key)
    (plain : Bytes) :
    t.encryptAndHash plain =
      let sealed := Aead.encrypt key t.temp.counter t.hash.val plain
      .ok (sealed, { t with temp := t.temp.advance }.mixHash sealed) := by
  simp only [encryptAndHash, TempKey.encrypt, h]
  rfl

/-- What was sealed from a transcript opens from it, and both ends agree afterwards. -/
theorem decryptAndHash_of_encryptAndHash {t t' : Transcript} {plain sealed : Bytes}
    (h : t.encryptAndHash plain = .ok (sealed, t')) :
    t.decryptAndHash sealed = .ok (plain, t') := by
  obtain ⟨key, hkey⟩ := exists_key_of_encryptAndHash h
  rw [encryptAndHash_eq hkey] at h
  simp only [Except.ok.injEq, Prod.mk.injEq] at h
  obtain ⟨rfl, rfl⟩ := h
  simp only [decryptAndHash, TempKey.decrypt, hkey, Aead.decrypt_encrypt]
  rfl

theorem length_of_encryptAndHash {t t' : Transcript} {plain sealed : Bytes}
    (h : t.encryptAndHash plain = .ok (sealed, t')) :
    sealed.length = plain.length + Aead.tagSize := by
  obtain ⟨key, hkey⟩ := exists_key_of_encryptAndHash h
  rw [encryptAndHash_eq hkey] at h
  simp only [Except.ok.injEq, Prod.mk.injEq] at h
  rw [← h.1, Aead.length_encrypt]

end Transcript

end Bolt8
