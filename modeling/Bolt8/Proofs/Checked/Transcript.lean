import Bolt8.Proofs.Aead
import Bolt8.Handshake.Act
import Bolt8.Proofs.Checked.Buffer
import Bolt8.Proofs.Transcript

/-!
# The transcript in bounds
-/

namespace Bolt8

namespace Checked

/-! ## The cipher -/

/-- Eight bytes of the counter behind four zero bytes. -/
def nonceBytes (counter : UInt64) : Checked (FixedBytes 12) := do
  let nonce ← copy (zeros Aead.nonceSize) 4 Aead.nonceSize (Bytes.ofNatLE 8 counter.toNat)
  fixed 12 nonce

/-- Seals in a buffer with room for the tag. -/
def encrypt (key : Aead.Key) (counter : UInt64) (data plain : Bytes) : Checked Bytes := do
  let _ ← add plain.length Aead.tagSize
  let nonce ← nonceBytes counter
  let body := Aead.maskAt key nonce plain
  return body ++ (Aead.tagAt key nonce data body).val

def decrypt (key : Aead.Key) (counter : UInt64) (data sealed : Bytes) : Checked (Option Bytes) := do
  if sealed.length < Aead.tagSize then return none
  let size ← sub sealed.length Aead.tagSize
  let (body, tail) ← splitAt sealed size
  let nonce ← nonceBytes counter
  let found ← fixed 16 tail
  return if found = Aead.tagAt key nonce data body then some (Aead.maskAt key nonce body) else none

theorem nonceBytes_eq (counter : UInt64) : nonceBytes counter = .ok (Aead.nonceBytes counter) := by
  rfl

theorem encrypt_eq (key : Aead.Key) (counter : UInt64) (data : Bytes) {plain : Bytes}
    (h : plain.length < 2 ^ 63) :
    encrypt key counter data plain = .ok (Aead.encrypt key counter data plain) := by
  have hroom : plain.length + Aead.tagSize < UInt64.size := by
    rw [Aead.tagSize, UInt64.size]
    omega
  rw [encrypt, add_eq hroom, nonceBytes_eq]
  rfl

theorem decrypt_eq (key : Aead.Key) (counter : UInt64) (data sealed : Bytes) :
    decrypt key counter data sealed = .ok (Aead.decrypt key counter data sealed) := by
  unfold decrypt Aead.decrypt
  by_cases hshort : sealed.length < Aead.tagSize
  · rw [if_pos hshort, if_pos hshort]
    rfl
  · have hsize := Nat.le_of_not_lt hshort
    have htail : (sealed.drop (sealed.length - Aead.tagSize)).length = 16 := by
      rw [List.length_drop]
      exact Nat.sub_sub_self hsize
    have hfixed : fixed 16 (sealed.drop (sealed.length - Aead.tagSize)) = .ok ⟨_, htail⟩ :=
      dif_pos htail
    rw [if_neg hshort, if_neg hshort, sub_eq hsize]
    simp only [ok_bind, splitAt_eq (Nat.sub_le _ _), nonceBytes_eq, hfixed, Subtype.ext_iff]
    rfl

/-! ## Key derivation -/

/-- The blocks of an expansion, each bound to the one before it. -/
def block (extracted : Digest) : ℕ → Bytes
  | 0 => []
  | n + 1 => (hmac extracted (block extracted n ++ [.ofNat (n + 1)])).val

/-- As many bytes as asked for, out of 255 blocks at most. -/
def expand (salt : Digest) (material : Bytes) (size : ℕ) : Option Bytes :=
  if 255 * digestSize < size then none
  else
    let blocks := (List.range ((size + digestSize - 1) / digestSize)).flatMap fun n =>
      block (hmac salt material) (n + 1)
    some (blocks.take size)

/-- Chaining key and key, from twice the size of a digest. -/
def derive (salt : Digest) (material : Bytes) : Checked Derived := do
  match expand salt material (2 * digestSize) with
  | none => throw .unreachable
  | some output =>
    let first ← copy (zeros digestSize) 0 digestSize (← slice output 0 digestSize)
    let second ← copy (zeros digestSize) 0 digestSize (← slice output digestSize output.length)
    return ⟨← fixed 32 first, ← fixed 32 second⟩

theorem expand_eq (salt : Digest) (material : Bytes) :
    expand salt material (2 * digestSize) =
      some ((hkdf salt material).first.val ++ (hkdf salt material).second.val) := by
  have hlength : ((hkdf salt material).first.val ++ (hkdf salt material).second.val).length =
      2 * digestSize := by
    rw [List.length_append, (hkdf salt material).first.property,
      (hkdf salt material).second.property]
    rfl
  have hblocks : (List.range 2).flatMap (fun n => block (hmac salt material) (n + 1)) =
      (hkdf salt material).first.val ++ (hkdf salt material).second.val := by
    simp only [List.range, List.range.loop, List.flatMap_cons, List.flatMap_nil, List.append_nil]
    rfl
  rw [expand, if_neg (by decide)]
  show some (((List.range 2).flatMap fun n => block (hmac salt material) (n + 1)).take _) = _
  rw [hblocks, List.take_of_length_le (Nat.le_of_eq hlength)]

theorem slice_halves (first second : Digest) :
    slice (first.val ++ second.val) 0 digestSize = .ok first.val ∧
      slice (first.val ++ second.val) digestSize (first.val ++ second.val).length =
        .ok second.val := by
  constructor
  · have hsize : 0 + first.val.length = digestSize := (Nat.zero_add _).trans first.property
    exact slice_append (p := []) rfl hsize second.val
  · have hsize : digestSize + second.val.length = (first.val ++ second.val).length := by
      rw [List.length_append, first.property]
      rfl
    have h := slice_append first.property hsize []
    rwa [List.append_nil] at h

theorem copy_digest {bs : Bytes} (hbs : bs.length = digestSize) (d : Digest) :
    copy bs 0 digestSize d.val = .ok d.val :=
  copy_all hbs d.property

theorem derive_eq (salt : Digest) (material : Bytes) :
    derive salt material = .ok (hkdf salt material) := by
  rw [derive, expand_eq]
  generalize hkdf salt material = d
  obtain ⟨first, second⟩ := d
  obtain ⟨hfirst, hsecond⟩ := slice_halves first second
  simp only [ok_bind, hfirst, hsecond, copy_digest (length_zeros _), fixed_eq]
  rfl

/-! ## The temporary key -/

def encryptTemp (k : TempKey) (data plain : Bytes) : Attempt (Bytes × TempKey) := do
  match k.key with
  | none => throw .outOfTurn
  | some key =>
    let sealed ← encrypt key k.counter data plain
    let counter ← addWord k.counter 1
    return (sealed, { k with counter })

def decryptTemp (k : TempKey) (data sealed : Bytes) : Attempt (Bytes × TempKey) := do
  match k.key with
  | none => throw .outOfTurn
  | some key =>
    match ← decrypt key k.counter data sealed with
    | none => throw .notAuthentic
    | some plain =>
      let counter ← addWord k.counter 1
      return (plain, { k with counter })

section

variable {k : TempKey} (hroom : k.counter.toNat + 1 < UInt64.size) (data : Bytes)

include hroom

theorem encryptTemp_eq {plain : Bytes} (h : plain.length < 2 ^ 63) :
    encryptTemp k data plain = .of (k.encrypt data plain) := by
  obtain ⟨key, counter⟩ := k
  cases key with
  | none => rfl
  | some key =>
      simp only [encryptTemp, encrypt_eq key counter data h, addWord_one hroom]
      rfl

theorem decryptTemp_eq (sealed : Bytes) :
    decryptTemp k data sealed = .of (k.decrypt data sealed) := by
  obtain ⟨key, counter⟩ := k
  cases key with
  | none => rfl
  | some key =>
      simp only [decryptTemp, TempKey.decrypt, decrypt_eq, addWord_one hroom]
      cases Aead.decrypt key counter data sealed <;> rfl

end

/-! ## The transcript -/

def nameDigest (name : Bytes) : Checked Digest := do
  if name.length ≤ 32 then
    let padded ← copy (zeros 32) 0 name.length name
    fixed 32 padded
  else return sha256 name

def start (name : String) (prologue : Bytes) : Checked Transcript := do
  let d ← nameDigest name.toUTF8.data.toList
  return Transcript.mixHash ⟨.empty, d, d⟩ prologue

def opening (responder : PublicKey) : Checked Transcript := do
  let t ← start protocolName prologue
  return t.mixHash responder.compress.val

def mixShared (t : Transcript) (own : SecretKey) (remote : PublicKey) : Checked Transcript := do
  let d ← derive t.chainingKey (own.agree remote).digest.val
  let key ← copy (zeros Aead.keySize) 0 Aead.keySize d.second.val
  return { t with chainingKey := d.first, temp := .install (← fixed 32 key) }

def encryptAndHash (t : Transcript) (plain : Bytes) : Attempt (Bytes × Transcript) := do
  let (sealed, temp) ← encryptTemp t.temp t.hash.val plain
  return (sealed, { t with temp }.mixHash sealed)

def decryptAndHash (t : Transcript) (sealed : Bytes) : Attempt (Bytes × Transcript) := do
  let (plain, temp) ← decryptTemp t.temp t.hash.val sealed
  return (plain, { t with temp }.mixHash sealed)

theorem nameDigest_eq (name : Bytes) : nameDigest name = .ok (Transcript.nameDigest name) := by
  unfold nameDigest Transcript.nameDigest
  by_cases hfits : name.length ≤ 32
  · have hcopy : copy (zeros 32) 0 name.length name =
        .ok (name ++ List.replicate (32 - name.length) 0) := by
      have hzeros : zeros 32 = [] ++ zeros name.length ++ zeros (32 - name.length) := by
        rw [List.nil_append, ← zeros_add, Nat.add_sub_cancel' hfits]
      rw [hzeros]
      exact copy_append (p := []) rfl (Nat.zero_add _) (length_zeros _) _
    rw [if_pos hfits, dif_pos hfits, hcopy]
    show fixed 32 _ = _
    exact fixed_eq ⟨_, _⟩
  · rw [if_neg hfits, dif_neg hfits]
    rfl

theorem opening_eq (responder : PublicKey) :
    opening responder = .ok (.opening responder) := by
  rw [opening, start, nameDigest_eq]
  rfl

theorem mixShared_eq (t : Transcript) (own : SecretKey) (remote : PublicKey) :
    mixShared t own remote = .ok (t.mixShared own remote) := by
  have hcopy : ∀ d : Digest, copy (zeros Aead.keySize) 0 Aead.keySize d.val = .ok d.val :=
    copy_digest (length_zeros _)
  simp only [mixShared, derive_eq, ok_bind, hcopy, fixed_eq]
  rfl

section

variable {t : Transcript} (hroom : t.temp.counter.toNat + 1 < UInt64.size)

include hroom

theorem encryptAndHash_eq {plain : Bytes} (h : plain.length < 2 ^ 63) :
    encryptAndHash t plain = .of (t.encryptAndHash plain) := by
  rw [encryptAndHash, encryptTemp_eq hroom _ h, Transcript.encryptAndHash]
  cases t.temp.encrypt t.hash.val plain <;> rfl

theorem decryptAndHash_eq (sealed : Bytes) :
    decryptAndHash t sealed = .of (t.decryptAndHash sealed) := by
  rw [decryptAndHash, decryptTemp_eq hroom, Transcript.decryptAndHash]
  cases t.temp.decrypt t.hash.val sealed <;> rfl

end

end Checked

end Bolt8
