import Bolt8.Proofs.Handshake.Exchange

/-!
# A handshake from either end

An object of either role takes a call for each act, which it writes or reads as
its role has it. `Took` is all that a call can do, on any object: the table of
steps refuses it, or it fails, or it leads where the table says. `Came` is what
calls can make of an object.
-/

namespace Bolt8

/-- What a role does with an act. -/
def Role.step : Role → Act → Step
  | .initiator, .one => .write .one
  | .initiator, .two => .read .two
  | .initiator, .three => .write .three
  | .responder, .one => .read .one
  | .responder, .two => .write .two
  | .responder, .three => .read .three

/-- The acts still to come. -/
def Stage.remaining : Stage → List Act
  | .initialized => [.one, .two, .three]
  | .actOneSent | .actOneReceived => [.two, .three]
  | .actTwoSent | .actTwoReceived => [.three]
  | .complete | .failed => []

/-- For a role, the table allows no act but the next. -/
theorem Stage.remaining_of_after {role : Role} {stage next : Stage} {act : Act}
    (h : stage.after (role.step act) = some next) :
    stage.remaining = act :: next.remaining := by
  cases role <;> cases stage <;> cases act <;> cases h <;> rfl

theorem Stage.after_of_terminal {stage : Stage} (h : stage.isTerminal) (step : Step) :
    stage.after step = none := by
  cases stage with
  | complete | failed => rfl
  | _ => cases h

def Outcome.map {σ τ α β : Type} (f : σ → τ) (g : α → β) (out : Outcome σ α) : Outcome τ β :=
  ⟨out.result.map g, f out.state, out.log⟩

def Initiator.Phase.ephemeral? : Initiator.Phase → Option KeyPair
  | .initialized _ e | .actOneSent _ e | .actTwoReceived _ e _ => some e
  | .complete | .failed => none

def Responder.Phase.ephemeral? : Responder.Phase → Option KeyPair
  | .initialized _ e | .actOneReceived _ e _ | .actTwoSent _ e _ => some e
  | .complete _ | .failed => none

/-- What a handshake is made from. -/
inductive Setup
  | initiator (identity : KeyPair) (remoteStatic : PublicKey) (ephemeral : KeyPair)
  | responder (identity ephemeral : KeyPair)

namespace Setup

def role : Setup → Role
  | initiator _ _ _ => .initiator
  | responder _ _ => .responder

def identity : Setup → KeyPair
  | initiator identity _ _ | responder identity _ => identity

def ephemeral : Setup → KeyPair
  | initiator _ _ ephemeral | responder _ ephemeral => ephemeral

end Setup

/-- What a call has given; an act, if it wrote one. -/
structure Given where
  act : Option Bytes
  channel : Option Channel
  /-- The key that act 3 has proved. -/
  proved : Option PublicKey

inductive Handshake
  | initiator (party : Initiator)
  | responder (party : Responder)
  deriving DecidableEq

namespace Handshake

/-- A call for one act. The bytes are for the role that reads it. -/
structure Call where
  act : Act
  input : Bytes

def start : Setup → Handshake
  | .initiator identity remoteStatic ephemeral =>
    initiator (.start identity remoteStatic ephemeral)
  | .responder identity ephemeral => responder (.start identity ephemeral)

/-! ## What an object holds -/

def role : Handshake → Role
  | initiator _ => .initiator
  | responder _ => .responder

def stage : Handshake → Stage
  | initiator i => i.stage
  | responder r => r.stage

def identity : Handshake → KeyPair
  | initiator i => i.identity
  | responder r => r.identity

def remoteStatic : Handshake → Option PublicKey
  | initiator i => some i.remoteStatic
  | responder r => r.remoteStatic

def transcript? : Handshake → Option Transcript
  | initiator i => i.phase.transcript?
  | responder r => r.phase.transcript?

def ephemeral? : Handshake → Option KeyPair
  | initiator i => i.phase.ephemeral?
  | responder r => r.phase.ephemeral?

def handshakeHash : Handshake → Except Error Digest
  | initiator i => i.handshakeHash
  | responder r => r.handshakeHash

def nextAction : Handshake → NextAction
  | initiator i => i.nextAction
  | responder r => r.nextAction

/-! ## Calls -/

def abandon : Handshake → Handshake
  | initiator i => initiator (Party.abandon i)
  | responder r => responder (Party.abandon r)

def call : Handshake → Call → Outcome Handshake Given
  | initiator i, ⟨.one, _⟩ => i.writeActOne.map initiator fun act => ⟨some act, none, none⟩
  | initiator i, ⟨.two, input⟩ => (i.readActTwo input).map initiator fun _ => ⟨none, none, none⟩
  | initiator i, ⟨.three, _⟩ =>
    i.writeActThree.map initiator fun (act, channel) => ⟨some act, some channel, none⟩
  | responder r, ⟨.one, input⟩ => (r.readActOne input).map responder fun _ => ⟨none, none, none⟩
  | responder r, ⟨.two, _⟩ => r.writeActTwo.map responder fun act => ⟨some act, none, none⟩
  | responder r, ⟨.three, input⟩ =>
    (r.readActThree input).map responder fun (channel, proved) => ⟨none, some channel, some proved⟩

def after (h : Handshake) (c : Call) : Handshake := (h.call c).state

/-- The object after a sequence of calls. -/
def run (h : Handshake) (calls : List Call) : Handshake := calls.foldl after h

theorem run_cons (h : Handshake) (c : Call) (calls : List Call) :
    h.run (c :: calls) = (h.after c).run calls := rfl

theorem run_append (h : Handshake) (calls later : List Call) :
    h.run (calls ++ later) = (h.run calls).run later :=
  List.foldl_append

/-- Where the table leads from here, if it allows the role's step for this act. -/
def next? (h : Handshake) (act : Act) : Option Stage := h.stage.after (h.role.step act)

/-! ## What a call can do -/

/-- The outcomes of a call, with the lines that they leave in the log. -/
inductive Took (h : Handshake) (c : Call) : Outcome Handshake Given → Prop
  | refused :
      h.next? c.act = none →
      Took h c ⟨.error .outOfTurn, h, [.refused h.role (h.role.step c.act) h.stage]⟩
  | failed {next error} :
      h.next? c.act = some next →
      Took h c ⟨.error error, h.abandon, [.failed h.role (h.role.step c.act) error]⟩
  | advanced {next given h'} :
      h.next? c.act = some next → h'.stage = next → h'.role = h.role →
      h'.identity = h.identity → (given.channel.isSome ↔ next = .complete) →
      Took h c ⟨.ok given, h', [.advanced h.role h.stage next]⟩

theorem isSome_none_iff {next : Stage} (h : next ≠ .complete) :
    (none : Option Channel).isSome ↔ next = .complete :=
  iff_of_false Bool.false_ne_true h

theorem took_call (h : Handshake) (c : Call) : h.Took c (h.call c) := by
  obtain ⟨act, input⟩ := c
  cases h with
  | initiator i =>
      obtain ⟨identity, remote, phase⟩ := i
      cases act with
      | one =>
          cases phase with
          | initialized t e =>
              simp only [call, Initiator.writeActOne]
              cases t.writeEphemeral e remote with
              | error _ => exact .failed rfl
              | ok _ =>
                  exact @Took.advanced _ _ .actOneSent _ _ rfl rfl rfl rfl
                    (isSome_none_iff (by decide))
          | _ => exact .refused rfl
      | two =>
          cases phase with
          | actOneSent t e =>
              simp only [call, Initiator.readActTwo]
              cases t.readEphemeral .two e.secret input with
              | error _ => exact .failed rfl
              | ok _ =>
                  exact @Took.advanced _ _ .actTwoReceived _ _ rfl rfl rfl rfl
                    (isSome_none_iff (by decide))
          | _ => exact .refused rfl
      | three =>
          cases phase with
          | actTwoReceived t e re =>
              simp only [call, Initiator.writeActThree]
              cases t.writeStatic identity re with
              | error _ => exact .failed rfl
              | ok _ => exact @Took.advanced _ _ .complete _ _ rfl rfl rfl rfl (iff_of_true rfl rfl)
          | _ => exact .refused rfl
  | responder r =>
      obtain ⟨identity, phase⟩ := r
      cases act with
      | one =>
          cases phase with
          | initialized t e =>
              simp only [call, Responder.readActOne]
              cases t.readEphemeral .one identity.secret input with
              | error _ => exact .failed rfl
              | ok _ =>
                  exact @Took.advanced _ _ .actOneReceived _ _ rfl rfl rfl rfl
                    (isSome_none_iff (by decide))
          | _ => exact .refused rfl
      | two =>
          cases phase with
          | actOneReceived t e re =>
              simp only [call, Responder.writeActTwo]
              cases t.writeEphemeral e re with
              | error _ => exact .failed rfl
              | ok _ =>
                  exact @Took.advanced _ _ .actTwoSent _ _ rfl rfl rfl rfl
                    (isSome_none_iff (by decide))
          | _ => exact .refused rfl
      | three =>
          cases phase with
          | actTwoSent t e re =>
              simp only [call, Responder.readActThree]
              cases t.readStatic e.secret input with
              | error _ => exact .failed rfl
              | ok _ => exact @Took.advanced _ _ .complete _ _ rfl rfl rfl rfl (iff_of_true rfl rfl)
          | _ => exact .refused rfl

/-! ## What calls can make of an object -/

/-- The object has come of this setup. -/
def Came : Setup → Handshake → Prop
  | .initiator identity remote e, initiator i =>
    ∃ one two three, Initiates identity remote e i one two three
  | .responder identity e, responder r =>
    ∃ one two three proved, Responds identity e r one two three proved
  | _, _ => False

theorem came_start (setup : Setup) : Came setup (start setup) := by
  cases setup with
  | initiator identity remote e => exact ⟨_, _, _, .opened⟩
  | responder identity e => exact ⟨_, _, _, _, .opened⟩

theorem came_after {setup : Setup} {h : Handshake} (hcame : Came setup h) (c : Call) :
    Came setup (h.after c) := by
  obtain ⟨act, input⟩ := c
  cases setup with
  | initiator identity remote e =>
      cases h with
      | responder r => exact hcame.elim
      | initiator i =>
          obtain ⟨one, two, three, hcame⟩ := hcame
          cases act with
          | one => exact ⟨_, _, _, hcame.writeActOne⟩
          | two => exact ⟨_, _, _, hcame.readActTwo input⟩
          | three => exact ⟨_, _, _, hcame.writeActThree⟩
  | responder identity e =>
      cases h with
      | initiator i => exact hcame.elim
      | responder r =>
          obtain ⟨one, two, three, proved, hcame⟩ := hcame
          cases act with
          | one => exact ⟨_, _, _, _, hcame.readActOne input⟩
          | two => exact ⟨_, _, _, _, hcame.writeActTwo⟩
          | three => exact ⟨_, _, _, _, hcame.readActThree input⟩

/-- The key of act 2 has been used once before act 3. -/
theorem temp_of_came {setup : Setup} {h : Handshake} {t : Transcript} (hcame : Came setup h)
    (hstage : h.stage = .actTwoReceived ∨ h.stage = .actTwoSent) (ht : h.transcript? = some t) :
    ∃ key, t.temp = ⟨some key, 1⟩ := by
  cases setup <;> cases h
  · obtain ⟨one, two, three, hcame⟩ := hcame
    cases hcame with
    | twoRead =>
        cases ht
        exact ⟨_, rfl⟩
    | _ => rcases hstage with hstage | hstage <;> cases hstage
  · exact hcame.elim
  · exact hcame.elim
  · obtain ⟨one, two, three, proved, hcame⟩ := hcame
    cases hcame with
    | twoWritten =>
        cases ht
        exact ⟨_, rfl⟩
    | _ => rcases hstage with hstage | hstage <;> cases hstage

theorem came_run (setup : Setup) (calls : List Call) : Came setup ((start setup).run calls) := by
  induction calls using List.reverseRecOn with
  | nil => exact came_start setup
  | append_singleton calls c ih =>
      rw [run_append]
      exact came_after ih c

end Handshake

end Bolt8
