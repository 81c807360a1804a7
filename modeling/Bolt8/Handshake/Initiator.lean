import Bolt8.Handshake.Act
import Bolt8.Handshake.Party
import Bolt8.Transport.Channel

/-!
# The connecting end

The initiator knows the responder's static key beforehand. It writes act 1,
reads act 2, and proves its own identity in act 3, which hands out the channel.
-/

namespace Bolt8

/-- What an initiator holds at each stage; secrets go when they are spent. -/
inductive Initiator.Phase
  | initialized (transcript : Transcript) (ephemeral : KeyPair)
  | actOneSent (transcript : Transcript) (ephemeral : KeyPair)
  | actTwoReceived (transcript : Transcript) (ephemeral : KeyPair) (remoteEphemeral : PublicKey)
  | complete
  | failed
  deriving DecidableEq

structure Initiator where
  identity : KeyPair
  /-- The key that the responder has to prove. -/
  remoteStatic : PublicKey
  phase : Initiator.Phase
  deriving DecidableEq

namespace Initiator

def Phase.stage : Phase → Stage
  | initialized _ _ => .initialized
  | actOneSent _ _ => .actOneSent
  | actTwoReceived _ _ _ => .actTwoReceived
  | complete => .complete
  | failed => .failed

def Phase.transcript? : Phase → Option Transcript
  | initialized t _ | actOneSent t _ | actTwoReceived t _ _ => some t
  | complete | failed => none

/-- A handshake with the holder of `remoteStatic`; the ephemeral key is for this one only. -/
def start (identity : KeyPair) (remoteStatic : PublicKey) (ephemeral : KeyPair) : Initiator :=
  ⟨identity, remoteStatic, .initialized (.opening remoteStatic) ephemeral⟩

def stage (i : Initiator) : Stage := i.phase.stage

instance : Party Initiator where
  role := .initiator
  stage := stage
  abandon i := { i with phase := .failed }

/-! ## The three acts -/

def writeActOne (i : Initiator) : Outcome Initiator Bytes :=
  match i.phase with
  | .initialized t e => Party.settle i (.write .one) do
    let (act, t) ← t.writeEphemeral e i.remoteStatic
    return (act, { i with phase := .actOneSent t e })
  | _ => Party.refuse i (.write .one)

def readActTwo (i : Initiator) (input : Bytes) : Outcome Initiator Unit :=
  match i.phase with
  | .actOneSent t e => Party.settle i (.read .two) do
    let (remote, t) ← t.readEphemeral .two e.secret input
    return ((), { i with phase := .actTwoReceived t e remote })
  | _ => Party.refuse i (.read .two)

def writeActThree (i : Initiator) : Outcome Initiator (Bytes × Channel) :=
  match i.phase with
  | .actTwoReceived t _ remote => Party.settle i (.write .three) do
    let (act, t) ← t.writeStatic i.identity remote
    return ((act, .ofSplit t.split .initiator), { i with phase := .complete })
  | _ => Party.refuse i (.write .three)

/-! ## Inspection -/

def nextAction (i : Initiator) : NextAction :=
  match i.phase with
  | .initialized _ _ | .actTwoReceived _ _ _ => .write
  | .actOneSent _ _ => .read Act.two.size
  | .complete => .complete
  | .failed => .failed

/-- The running hash, while the handshake runs. -/
def handshakeHash (i : Initiator) : Except Error Digest :=
  match i.phase.transcript? with
  | some t => .ok t.hash
  | none => .error .outOfTurn

/-- The stage, and no key. -/
def summary (i : Initiator) : String :=
  s!"InitiatorHandshake \x7b state: {i.stage.name}, .. \x7d"

end Initiator

end Bolt8
