import Bolt8.Aead.ChaCha20
import Bolt8.Aead.Poly1305

/-!
# Authenticated encryption

ChaCha20-Poly1305 under a 64-bit counter as nonce. A sealed text is the plain
text under the key stream followed by a tag over associated data and body;
it opens only when the tag is the one recomputed.
-/

namespace Bolt8.Aead

def keySize : Nat := 32
def tagSize : Nat := 16
def nonceSize : Nat := 12

abbrev Key := FixedBytes 32

/-- Four zero bytes, then the counter in little-endian order. -/
def nonceBytes (counter : UInt64) : FixedBytes 12 :=
  ⟨List.replicate 4 0 ++ Bytes.ofNatLE 8 counter.toNat, by simp⟩

/-- The text under the key stream; the same again restores it. -/
def maskAt (key : Key) (nonce : FixedBytes 12) (text : Bytes) : Bytes :=
  Bytes.xor text (ChaCha20.keyStream key nonce text.length)

/-- The tag over associated data and body, each padded, and their two lengths. -/
def tagAt (key : Key) (nonce : FixedBytes 12) (data body : Bytes) : FixedBytes 16 :=
  Poly1305.tag ((ChaCha20.firstBlock key nonce).take 32)
    (Bytes.pad16 data ++ Bytes.pad16 body ++
      Bytes.ofNatLE 8 data.length ++ Bytes.ofNatLE 8 body.length)

def mask (key : Key) (counter : UInt64) (text : Bytes) : Bytes :=
  maskAt key (nonceBytes counter) text

def tag (key : Key) (counter : UInt64) (data body : Bytes) : FixedBytes 16 :=
  tagAt key (nonceBytes counter) data body

def encrypt (key : Key) (counter : UInt64) (data plain : Bytes) : Bytes :=
  let body := mask key counter plain
  body ++ (tag key counter data body).val

/-- The plain text, when the last 16 bytes are the tag of the rest. -/
def decrypt (key : Key) (counter : UInt64) (data sealed : Bytes) : Option Bytes :=
  if sealed.length < tagSize then none
  else
    let body := sealed.take (sealed.length - tagSize)
    if sealed.drop (sealed.length - tagSize) = (tag key counter data body).val then
      some (mask key counter body)
    else none

end Bolt8.Aead
