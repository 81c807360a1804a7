import Bolt8.Outcome

/-!
# Taking a step

Whatever the role, a step is refused, taken or failed. A refused step changes
nothing; a failed one is the last; each leaves one line in the log.
-/

namespace Bolt8

/-- One end of a handshake. -/
class Party (σ : Type) where
  role : Role
  stage : σ → Stage
  /-- The party after a failure, without its ephemeral secrets. -/
  abandon : σ → σ

namespace Party

variable {σ α : Type} [Party σ]

/-- The step does not belong to this stage. -/
def refuse (party : σ) (step : Step) : Outcome σ α :=
  ⟨.error .outOfTurn, party, [.refused (role σ) step (stage party)]⟩

/-- The step belongs here; `run` gives its value and the party after it. -/
def settle (party : σ) (step : Step) (run : Except Error (α × σ)) : Outcome σ α :=
  match run with
  | .ok (value, next) =>
    ⟨.ok value, next, [.advanced (role σ) (stage party) (stage next)]⟩
  | .error e => ⟨.error e, abandon party, [.failed (role σ) step e]⟩

end Party

end Bolt8
