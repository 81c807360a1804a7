import Bolt8.Handshake.Act
import Bolt8.Handshake.Party
import Bolt8.Transport.Channel

/-!
# The accepting end

The responder reads act 1, writes act 2, and learns who it speaks to from
act 3, which hands out the channel.
-/

namespace Bolt8

/-- What a responder holds at each stage; secrets go when they are spent. -/
inductive Responder.Phase
  | initialized (transcript : Transcript) (ephemeral : KeyPair)
  | actOneReceived (transcript : Transcript) (ephemeral : KeyPair) (remoteEphemeral : PublicKey)
  | actTwoSent (transcript : Transcript) (ephemeral : KeyPair) (remoteEphemeral : PublicKey)
  | complete (remoteStatic : PublicKey)
  | failed
  deriving DecidableEq

structure Responder where
  identity : KeyPair
  phase : Responder.Phase
  deriving DecidableEq

namespace Responder

def Phase.stage : Phase → Stage
  | initialized _ _ => .initialized
  | actOneReceived _ _ _ => .actOneReceived
  | actTwoSent _ _ _ => .actTwoSent
  | complete _ => .complete
  | failed => .failed

def Phase.transcript? : Phase → Option Transcript
  | initialized t _ | actOneReceived t _ _ | actTwoSent t _ _ => some t
  | complete _ | failed => none

/-- A handshake with whoever connects; the ephemeral key is for this one only. -/
def start (identity ephemeral : KeyPair) : Responder :=
  ⟨identity, .initialized (.opening identity.pub) ephemeral⟩

def stage (r : Responder) : Stage := r.phase.stage

instance : Party Responder where
  role := .responder
  stage := stage
  abandon r := { r with phase := .failed }

/-! ## The three acts -/

def readActOne (r : Responder) (input : Bytes) : Outcome Responder Unit :=
  match r.phase with
  | .initialized t e => Party.settle r (.read .one) do
    let (remote, t) ← t.readEphemeral .one r.identity.secret input
    return ((), { r with phase := .actOneReceived t e remote })
  | _ => Party.refuse r (.read .one)

def writeActTwo (r : Responder) : Outcome Responder Bytes :=
  match r.phase with
  | .actOneReceived t e remote => Party.settle r (.write .two) do
    let (act, t) ← t.writeEphemeral e remote
    return (act, { r with phase := .actTwoSent t e remote })
  | _ => Party.refuse r (.write .two)

/-- Gives the channel, and the key that the initiator has proved. -/
def readActThree (r : Responder) (input : Bytes) : Outcome Responder (Channel × PublicKey) :=
  match r.phase with
  | .actTwoSent t e _ => Party.settle r (.read .three) do
    let (remote, t) ← t.readStatic e.secret input
    return ((.ofSplit t.split .responder, remote), { r with phase := .complete remote })
  | _ => Party.refuse r (.read .three)

/-! ## Inspection -/

def nextAction (r : Responder) : NextAction :=
  match r.phase with
  | .initialized _ _ => .read Act.one.size
  | .actOneReceived _ _ _ => .write
  | .actTwoSent _ _ _ => .read Act.three.size
  | .complete _ => .complete
  | .failed => .failed

/-- The running hash, while the handshake runs. -/
def handshakeHash (r : Responder) : Except Error Digest :=
  match r.phase.transcript? with
  | some t => .ok t.hash
  | none => .error .outOfTurn

/-- The initiator's static key, once act 3 has proved it. -/
def remoteStatic (r : Responder) : Option PublicKey :=
  match r.phase with
  | .complete remote => some remote
  | _ => none

/-- The stage, and no key. -/
def summary (r : Responder) : String :=
  s!"ResponderHandshake \x7b state: {r.stage.name}, .. \x7d"

end Responder

end Bolt8
