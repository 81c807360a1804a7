import Bolt8.Error

/-!
# The log

What is worth a line: every step of a handshake, whether taken, refused or
failed, and every rotation of a transport key.
-/

namespace Bolt8

/-- The two ways that messages travel, as one end sees them. -/
inductive Direction
  | sending
  | receiving
  deriving DecidableEq

def Direction.name : Direction → String
  | .sending => "sending"
  | .receiving => "receiving"

inductive Event
  | advanced (role : Role) (before after : Stage)
  | refused (role : Role) (step : Step) (stage : Stage)
  | failed (role : Role) (step : Step) (error : Error)
  | rotated (direction : Direction) (epoch : UInt64)
  deriving DecidableEq

/-- Level and text. -/
def Event.line : Event → String
  | advanced role before after => s!"DEBUG {role.name}: {before.name} -> {after.name}"
  | refused role step stage => s!"DEBUG {role.name}: {step.name} not allowed in {stage.name}"
  | failed role step error =>
    s!"DEBUG {role.name}: handshake failed during {step.name}: {error.message}"
  | rotated direction epoch =>
    s!"TRACE {direction.name} key rotated to epoch {epoch.toNat}"

end Bolt8
