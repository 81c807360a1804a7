import Bolt8.Event

/-!
# Outcomes of calls

A call on a stateful object can fail and still change the object, or be
logged; so its outcome holds all three beside each other.
-/

namespace Bolt8

/-- What a call gives back, the object it leaves behind, and what it logged. -/
structure Outcome (σ α : Type) where
  result : Except Error α
  state : σ
  log : List Event

end Bolt8
