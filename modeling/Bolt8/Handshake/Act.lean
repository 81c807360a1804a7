import Bolt8.Key
import Bolt8.Transcript

/-!
# The acts on the wire

Acts 1 and 2 carry an ephemeral public key, act 3 the initiator's static one
in sealed form; each ends with the tag of an empty text. Writing and reading
an act do the same to the transcript. A reader looks at size and version
first, and every cause of refusal is final for the handshake.
-/

namespace Bolt8

/-- The only version of the handshake. -/
def handshakeVersion : UInt8 := 0

/-- The size of an act: a version byte, a key (sealed in act 3), and a tag. -/
def Act.size : Act → Nat
  | .one | .two => 1 + Curve.compressedSize + Aead.tagSize
  | .three => 1 + Curve.compressedSize + Aead.tagSize + Aead.tagSize

/-- What follows the version byte, of an act of the right size and version. -/
def Act.content (act : Act) (input : Bytes) : Except Error Bytes :=
  if input.length ≠ act.size then .error (.actSize act act.size input.length)
  else
    match input with
    | [] => .ok []
    | version :: content =>
      if version ≠ handshakeVersion then .error (.actVersion act version) else .ok content

/-- A compressed point that a peer sent. -/
def PublicKey.read (bs : Bytes) : Except Error PublicKey :=
  match Curve.Point.ofCompressed? bs with
  | none => .error .malformedKey
  | some key => .ok key

namespace Transcript

/-- Both roles begin by mixing in the responder's static key. -/
def opening (responder : PublicKey) : Transcript :=
  (start protocolName prologue).mixHash responder.compress.val

/-- Mixes in the secret shared by one key of ours and one of the peer's. -/
def mixShared (t : Transcript) (own : SecretKey) (remote : PublicKey) : Transcript :=
  t.mixKey (own.agree remote).digest.val

/-! ## Acts 1 and 2 -/

/-- Sends our ephemeral key, and proves knowledge of what it shares with `remote`. -/
def writeEphemeral (t : Transcript) (ephemeral : KeyPair) (remote : PublicKey) :
    Except Error (Bytes × Transcript) := do
  let key := ephemeral.pub.compress.val
  let (tag, t) ← ((t.mixHash key).mixShared ephemeral.secret remote).encryptAndHash []
  return (handshakeVersion :: key ++ tag, t)

/-- Receives the peer's ephemeral key, and checks the proof with our own key. -/
def readEphemeral (t : Transcript) (act : Act) (own : SecretKey) (input : Bytes) :
    Except Error (PublicKey × Transcript) := do
  let content ← act.content input
  let key := content.take Curve.compressedSize
  let remote ← PublicKey.read key
  let (_, t) ← ((t.mixHash key).mixShared own remote).decryptAndHash
    (content.drop Curve.compressedSize)
  return (remote, t)

/-! ## Act 3 -/

/-- Sends our static key under the temporary key, and proves knowledge of its secret. -/
def writeStatic (t : Transcript) (identity : KeyPair) (remoteEphemeral : PublicKey) :
    Except Error (Bytes × Transcript) := do
  let (sealed, t) ← t.encryptAndHash identity.pub.compress.val
  let (tag, t) ← (t.mixShared identity.secret remoteEphemeral).encryptAndHash []
  return (handshakeVersion :: sealed ++ tag, t)

/-- Receives the peer's static key, and checks the proof with our ephemeral key. -/
def readStatic (t : Transcript) (ephemeral : SecretKey) (input : Bytes) :
    Except Error (PublicKey × Transcript) := do
  let content ← Act.three.content input
  let sealedSize := Curve.compressedSize + Aead.tagSize
  let (key, t) ← t.decryptAndHash (content.take sealedSize)
  let remote ← PublicKey.read key
  let (_, t) ← (t.mixShared ephemeral remote).decryptAndHash (content.drop sealedSize)
  return (remote, t)

end Transcript

end Bolt8
