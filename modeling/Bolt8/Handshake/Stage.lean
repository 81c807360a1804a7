/-!
# The shape of a handshake

Two roles exchange three acts. The initiator writes acts 1 and 3 and reads
act 2, the responder the other way round; a stage says how far a role has
come. Completion and failure are final.
-/

namespace Bolt8

inductive Role
  | initiator
  | responder
  deriving DecidableEq

def Role.name : Role → String
  | .initiator => "initiator"
  | .responder => "responder"

inductive Act
  | one
  | two
  | three
  deriving DecidableEq

def Act.number : Act → Nat
  | .one => 1
  | .two => 2
  | .three => 3

/-! ## Steps -/

/-- What a role does with an act. -/
inductive Step
  | write (act : Act)
  | read (act : Act)
  deriving DecidableEq

def Step.name : Step → String
  | .write .one => "WriteActOne"
  | .read .one => "ReadActOne"
  | .write .two => "WriteActTwo"
  | .read .two => "ReadActTwo"
  | .write .three => "WriteActThree"
  | .read .three => "ReadActThree"

/-! ## Stages -/

inductive Stage
  | initialized
  | actOneSent
  | actOneReceived
  | actTwoSent
  | actTwoReceived
  | complete
  | failed
  deriving DecidableEq

namespace Stage

def name : Stage → String
  | initialized => "Initialized"
  | actOneSent => "Act1Sent"
  | actOneReceived => "Act1Received"
  | actTwoSent => "Act2Sent"
  | actTwoReceived => "Act2Received"
  | complete => "Complete"
  | failed => "Failed"

/-- No step leads out of this stage. -/
def isTerminal : Stage → Bool
  | complete | failed => true
  | _ => false

end Stage

/-! ## What to do next -/

inductive NextAction
  /-- Produce the next act and send it. -/
  | write
  /-- Read exactly this many bytes from the peer. -/
  | read (size : Nat)
  /-- Transport keys have been handed out. -/
  | complete
  /-- Close the connection. -/
  | failed
  deriving DecidableEq

end Bolt8
