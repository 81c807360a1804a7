import Bolt8.Proofs.Aead
import Mathlib.Logic.ExistsUnique

/-!
# What opens, and to what

A sealed text is told byte by byte: the byte of the key stream at a position
depends on key, counter and that position only, also in a last block that is
not whole. Opening undoes exactly this, so of the strings that begin with a
given body one opens (`opens_iff_sealed`).
-/

namespace Bolt8

namespace ChaCha20

/-- The byte of the key stream at this position; the block of number 1 comes first. -/
def keyByte (key : FixedBytes 32) (nonce : FixedBytes 12) (i : ℕ) : UInt8 :=
  (block (initial key nonce) (.ofNat (i / 64 + 1))).getD (i % 64) 0

/-- The first blocks of a key stream. -/
def firstBlocks (m : Matrix) (count : ℕ) : Bytes :=
  (List.range count).flatMap fun i => block m (.ofNat (i + 1))

theorem firstBlocks_succ (m : Matrix) (count : ℕ) :
    firstBlocks m (count + 1) = firstBlocks m count ++ block m (.ofNat (count + 1)) := by
  rw [firstBlocks, List.range_succ, List.flatMap_append, List.flatMap_singleton]
  rfl

theorem length_firstBlocks (m : Matrix) (count : ℕ) :
    (firstBlocks m count).length = 64 * count := by
  induction count with
  | zero => rfl
  | succ count ih => rw [firstBlocks_succ, List.length_append, ih, length_block, Nat.mul_succ]

theorem getElem?_firstBlocks (m : Matrix) {count i : ℕ} (h : i < 64 * count) :
    (firstBlocks m count)[i]? = (block m (.ofNat (i / 64 + 1)))[i % 64]? := by
  induction count with
  | zero => omega
  | succ count ih =>
      rw [firstBlocks_succ]
      by_cases hbefore : i < 64 * count
      · rw [List.getElem?_append_left (by rwa [length_firstBlocks]), ih hbefore]
      · have hblock : i / 64 = count := by omega
        have hplace : i - 64 * count = i % 64 := by omega
        rw [List.getElem?_append_right (by rw [length_firstBlocks]; omega), length_firstBlocks,
          hplace, hblock]

/-- However many bytes are asked for, each has its place. -/
theorem getElem?_keyStream (key : FixedBytes 32) (nonce : FixedBytes 12) {n i : ℕ} (h : i < n) :
    (keyStream key nonce n)[i]? = some (keyByte key nonce i) := by
  have hblocks : i < 64 * ((n + 63) / 64) := by omega
  have hplace : i % 64 < (block (initial key nonce) (.ofNat (i / 64 + 1))).length := by
    rw [length_block]
    exact Nat.mod_lt i (by decide)
  rw [keyByte, List.getD_eq_getElem?_getD, keyStream]
  exact (getElem?_firstBlocks _ hblocks).trans (by rw [List.getElem?_eq_getElem hplace]; rfl)

end ChaCha20

namespace Aead

variable (key : Key) (counter : UInt64) (data : Bytes)

/-- Each byte of a text under the byte of the key stream at its position. -/
theorem mask_eq_mapIdx (text : Bytes) :
    mask key counter text =
      text.mapIdx fun i b => b ^^^ ChaCha20.keyByte key (nonceBytes counter) i := by
  refine List.ext_getElem? fun i => ?_
  rw [mask, maskAt, Bytes.xor, List.getElem?_zipWith, List.getElem?_mapIdx]
  by_cases h : i < text.length
  · rw [ChaCha20.getElem?_keyStream _ _ h, List.getElem?_eq_getElem h]
    rfl
  · rw [List.getElem?_eq_none (Nat.le_of_not_lt h)]
    rfl

theorem decrypt_eq_some_iff {key : Key} {counter : UInt64} {data sealed plain : Bytes} :
    decrypt key counter data sealed = some plain ↔
      encrypt key counter data plain = sealed := by
  constructor
  · exact encrypt_of_decrypt
  · rintro rfl
    exact decrypt_encrypt key counter data plain

theorem decrypt_of_short {sealed : Bytes} (h : sealed.length < tagSize) :
    decrypt key counter data sealed = none :=
  if_pos h

/-- Behind a body, only the tag over it is accepted. -/
theorem decrypt_append (body : Bytes) (found : FixedBytes 16) :
    decrypt key counter data (body ++ found.val) =
      if found = tag key counter data body then some (mask key counter body) else none := by
  have hlength : (body ++ found.val).length = body.length + tagSize := by
    rw [List.length_append, found.property, tagSize]
  have hbody : (body ++ found.val).length - tagSize = body.length := by omega
  rw [decrypt, if_neg (by omega), hbody]
  simp only [List.take_left, List.drop_left, Subtype.ext_iff]

theorem decrypt_append_ne_none_iff {body : Bytes} {found : FixedBytes 16} :
    decrypt key counter data (body ++ found.val) ≠ none ↔ found = tag key counter data body := by
  rw [decrypt_append]
  split
  · exact iff_of_true nofun ‹_›
  · exact iff_of_false (fun h => h rfl) ‹_›

/-- What opens is what was sealed, from the very text that it opens to; and what
was sealed is that text under the key stream, then the tag over the result. -/
theorem opens_iff_sealed :
    (∀ sealed plain, decrypt key counter data sealed = some plain ↔
      encrypt key counter data plain = sealed) ∧
    (∀ plain : Bytes,
      let body := plain.mapIdx fun i b => b ^^^ ChaCha20.keyByte key (nonceBytes counter) i
      encrypt key counter data plain = body ++ (tag key counter data body).val) ∧
    (∀ sealed plain, decrypt key counter data sealed = some plain →
      sealed.length = plain.length + 16) ∧
    (∀ sealed, sealed.length < 16 → decrypt key counter data sealed = none) ∧
    (∀ plain plain', encrypt key counter data plain = encrypt key counter data plain' →
      plain = plain') ∧
    ∀ body, ∃! found : FixedBytes 16, decrypt key counter data (body ++ found.val) ≠ none := by
  refine ⟨fun sealed plain => decrypt_eq_some_iff, ?_, fun sealed plain => length_of_decrypt,
    fun sealed => decrypt_of_short key counter data, fun plain plain' => encrypt_inj, ?_⟩
  · intro plain body
    have hbody : mask key counter plain = body := mask_eq_mapIdx key counter plain
    rw [← hbody]
    rfl
  · intro body
    refine ⟨tag key counter data body, ?_, ?_⟩
    · exact (decrypt_append_ne_none_iff key counter data).2 rfl
    · intro found hopens
      exact (decrypt_append_ne_none_iff key counter data).1 hopens

end Aead

end Bolt8
