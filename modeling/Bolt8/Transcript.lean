import Bolt8.Hash.Hkdf
import Bolt8.TempKey

/-!
# The transcript

What both ends of a handshake keep in step: a hash over every public value
exchanged, a chaining key over every shared secret, and the temporary key made
with the latest of these. In the end it splits into the transport keys.
-/

namespace Bolt8

/-- The name of the protocol, from which every transcript starts. -/
def protocolName : String := "Noise_XK_secp256k1_ChaChaPoly_SHA256"

/-- The text mixed into every transcript right after its name. -/
def prologue : Bytes := "lightning".toUTF8.data.toList

/-- Keys for the two directions, and what outlives the handshake with them. -/
structure TransportKeys where
  hash : Digest
  chainingKey : Digest
  first : Aead.Key
  second : Aead.Key
  deriving DecidableEq

structure Transcript where
  temp : TempKey
  chainingKey : Digest
  hash : Digest
  deriving DecidableEq

namespace Transcript

/-- A name as 32 bytes: itself and zeros if it fits, else its digest. -/
def nameDigest (name : Bytes) : Digest :=
  if h : name.length ≤ 32 then
    ⟨name ++ List.replicate (32 - name.length) 0, by simp; omega⟩
  else sha256 name

def mixHash (t : Transcript) (data : Bytes) : Transcript :=
  { t with hash := sha256 (t.hash.val ++ data) }

/-- The material goes into the chaining key and gives a fresh temporary key. -/
def mixKey (t : Transcript) (material : Bytes) : Transcript :=
  let d := hkdf t.chainingKey material
  { t with chainingKey := d.first, temp := .install d.second }

/-- Hash and chaining key start equal, before the prologue is mixed in. -/
def start (name : String) (prologue : Bytes) : Transcript :=
  let d := nameDigest name.toUTF8.data.toList
  mixHash ⟨.empty, d, d⟩ prologue

/-- Encrypts under the hash so far, and mixes in the sealed text. -/
def encryptAndHash (t : Transcript) (plain : Bytes) : Except Error (Bytes × Transcript) := do
  let (sealed, temp) ← t.temp.encrypt t.hash.val plain
  return (sealed, { t with temp }.mixHash sealed)

/-- Decrypts under the hash so far, and mixes in the sealed text. -/
def decryptAndHash (t : Transcript) (sealed : Bytes) : Except Error (Bytes × Transcript) := do
  let (plain, temp) ← t.temp.decrypt t.hash.val sealed
  return (plain, { t with temp }.mixHash sealed)

def split (t : Transcript) : TransportKeys :=
  let d := hkdf t.chainingKey []
  ⟨t.hash, t.chainingKey, d.first, d.second⟩

end Transcript

end Bolt8
