import Bolt8.Handshake.Initiator
import Bolt8.Handshake.Responder

/-!
# The order of the steps

One table says which step belongs to which stage, and where it leads. A step
that the table does not allow is refused: the party stays as it was.
-/

namespace Bolt8

/-- The stage that a step leads to, where it belongs. -/
def Stage.after : Stage → Step → Option Stage
  | .initialized, .write .one => some .actOneSent
  | .actOneSent, .read .two => some .actTwoReceived
  | .actTwoReceived, .write .three => some .complete
  | .initialized, .read .one => some .actOneReceived
  | .actOneReceived, .write .two => some .actTwoSent
  | .actTwoSent, .read .three => some .complete
  | _, _ => none

namespace Initiator

theorem writeActOne_refused {i : Initiator} (h : i.stage.after (.write .one) = none) :
    i.writeActOne = Party.refuse i (.write .one) := by
  rw [writeActOne]
  split
  · rename_i hphase
    simp [stage, hphase, Phase.stage, Stage.after] at h
  · rfl

theorem readActTwo_refused {i : Initiator} (h : i.stage.after (.read .two) = none)
    (input : Bytes) : i.readActTwo input = Party.refuse i (.read .two) := by
  rw [readActTwo]
  split
  · rename_i hphase
    simp [stage, hphase, Phase.stage, Stage.after] at h
  · rfl

theorem writeActThree_refused {i : Initiator} (h : i.stage.after (.write .three) = none) :
    i.writeActThree = Party.refuse i (.write .three) := by
  rw [writeActThree]
  split
  · rename_i hphase
    simp [stage, hphase, Phase.stage, Stage.after] at h
  · rfl

end Initiator

namespace Responder

theorem readActOne_refused {r : Responder} (h : r.stage.after (.read .one) = none)
    (input : Bytes) : r.readActOne input = Party.refuse r (.read .one) := by
  rw [readActOne]
  split
  · rename_i hphase
    simp [stage, hphase, Phase.stage, Stage.after] at h
  · rfl

theorem writeActTwo_refused {r : Responder} (h : r.stage.after (.write .two) = none) :
    r.writeActTwo = Party.refuse r (.write .two) := by
  rw [writeActTwo]
  split
  · rename_i hphase
    simp [stage, hphase, Phase.stage, Stage.after] at h
  · rfl

theorem readActThree_refused {r : Responder} (h : r.stage.after (.read .three) = none)
    (input : Bytes) : r.readActThree input = Party.refuse r (.read .three) := by
  rw [readActThree]
  split
  · rename_i hphase
    simp [stage, hphase, Phase.stage, Stage.after] at h
  · rfl

end Responder

end Bolt8
