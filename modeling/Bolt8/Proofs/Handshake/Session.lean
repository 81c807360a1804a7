import Bolt8.Proofs.Handshake.Act
import Bolt8.Proofs.Handshake.Steps
import Bolt8.Proofs.Run

/-!
# A handshake between two honest ends

A session is both parties of a handshake and what their calls have given. The
wire is honest when every act that is due to be read is the one that the other
party wrote; calls out of turn may come at any moment and with any bytes.
Then the six acts happen in their only order, `Progress`, and in each stage
the transcripts agree.
-/

namespace Bolt8

inductive Call
  | writeActOne
  | readActOne (input : Bytes)
  | writeActTwo
  | readActTwo (input : Bytes)
  | writeActThree
  | readActThree (input : Bytes)

def Call.step : Call → Step
  | writeActOne => .write .one
  | readActOne _ => .read .one
  | writeActTwo => .write .two
  | readActTwo _ => .read .two
  | writeActThree => .write .three
  | readActThree _ => .read .three

structure Session where
  initiator : Initiator
  responder : Responder
  actOne : Option Bytes
  actTwo : Option Bytes
  /-- Act 3, and the initiator's channel. -/
  actThree : Option (Bytes × Channel)
  /-- The responder's channel, and the key that act 3 has proved. -/
  accepted : Option (Channel × PublicKey)

/-- What a call has given, or what was there before if it failed. -/
def Outcome.latest {σ α : Type} (out : Outcome σ α) (before : Option α) : Option α :=
  match out.result with
  | .ok a => some a
  | .error _ => before

namespace Session

def start (identity responder ephemeral ephemeral' : KeyPair) : Session :=
  ⟨.start identity responder.pub ephemeral, .start responder ephemeral', none, none, none, none⟩

def call (s : Session) : Call → Outcome Session Unit
  | .writeActOne =>
    let out := s.initiator.writeActOne
    ⟨out.result.map fun _ => (),
      { s with initiator := out.state, actOne := out.latest s.actOne }, out.log⟩
  | .readActOne input =>
    let out := s.responder.readActOne input
    ⟨out.result, { s with responder := out.state }, out.log⟩
  | .writeActTwo =>
    let out := s.responder.writeActTwo
    ⟨out.result.map fun _ => (),
      { s with responder := out.state, actTwo := out.latest s.actTwo }, out.log⟩
  | .readActTwo input =>
    let out := s.initiator.readActTwo input
    ⟨out.result, { s with initiator := out.state }, out.log⟩
  | .writeActThree =>
    let out := s.initiator.writeActThree
    ⟨out.result.map fun _ => (),
      { s with initiator := out.state, actThree := out.latest s.actThree }, out.log⟩
  | .readActThree input =>
    let out := s.responder.readActThree input
    ⟨out.result.map fun _ => (),
      { s with responder := out.state, accepted := out.latest s.accepted }, out.log⟩

def after (s : Session) (c : Call) : Session := (s.call c).state

/-- The session after a sequence of calls. -/
def run (s : Session) (calls : List Call) : Session := calls.foldl after s

/-- The stage of the party that a call goes to. -/
def stageOf (s : Session) : Call → Stage
  | .writeActOne | .readActTwo _ | .writeActThree => s.initiator.stage
  | .readActOne _ | .writeActTwo | .readActThree _ => s.responder.stage

/-- The call is in sequence. -/
def Due (s : Session) (c : Call) : Prop := ((s.stageOf c).after c.step).isSome

/-- An act to be read is the one that the other party wrote. -/
def Delivers (s : Session) : Call → Prop
  | .readActOne input => s.actOne = some input
  | .readActTwo input => s.actTwo = some input
  | .readActThree input => ∃ channel, s.actThree = some (input, channel)
  | .writeActOne | .writeActTwo | .writeActThree => True

/-- Every call that is due reads what was written. -/
def Honest (s : Session) (calls : List Call) : Prop :=
  Always after (fun s c => s.Due c → s.Delivers c) s calls

/-- A call out of turn is refused and changes nothing. -/
theorem call_of_not_due {s : Session} {c : Call} (h : ¬ s.Due c) :
    (s.call c).result = .error .outOfTurn ∧ (s.call c).state = s := by
  have hnone : (s.stageOf c).after c.step = none := by simpa [Due] using h
  cases c with
  | writeActOne =>
      simp [call, Initiator.writeActOne_refused hnone, Party.refuse, Outcome.latest, Except.map]
  | readActOne input =>
      simp [call, Responder.readActOne_refused hnone, Party.refuse]
  | writeActTwo =>
      simp [call, Responder.writeActTwo_refused hnone, Party.refuse, Outcome.latest, Except.map]
  | readActTwo input =>
      simp [call, Initiator.readActTwo_refused hnone, Party.refuse]
  | writeActThree =>
      simp [call, Initiator.writeActThree_refused hnone, Party.refuse, Outcome.latest, Except.map]
  | readActThree input =>
      simp [call, Responder.readActThree_refused hnone, Party.refuse, Outcome.latest, Except.map]

/-! ## The course of an honest handshake -/

section

variable (i r e e' : KeyPair)

/-- The states of an honest handshake, by the number of steps taken. -/
inductive Progress : Nat → Session → Prop
  | opened :
      Progress 0 (start i r e e')
  | oneWritten {a₁ t₁} :
      (Transcript.opening r.pub).writeEphemeral e r.pub = .ok (a₁, t₁) → t₁.temp.key.isSome →
      Progress 1 ⟨⟨i, r.pub, .actOneSent t₁ e⟩, .start r e', some a₁, none, none, none⟩
  | oneRead {a₁ t₁} :
      t₁.temp.key.isSome →
      Progress 2 ⟨⟨i, r.pub, .actOneSent t₁ e⟩, ⟨r, .actOneReceived t₁ e' e.pub⟩,
        some a₁, none, none, none⟩
  | twoWritten {a₁ t₁ a₂ t₂} :
      t₁.writeEphemeral e' e.pub = .ok (a₂, t₂) → t₂.temp.key.isSome →
      Progress 3 ⟨⟨i, r.pub, .actOneSent t₁ e⟩, ⟨r, .actTwoSent t₂ e' e.pub⟩,
        some a₁, some a₂, none, none⟩
  | twoRead {a₁ a₂ t₂} :
      t₂.temp.key.isSome →
      Progress 4 ⟨⟨i, r.pub, .actTwoReceived t₂ e e'.pub⟩, ⟨r, .actTwoSent t₂ e' e.pub⟩,
        some a₁, some a₂, none, none⟩
  | threeWritten {a₁ a₂ t₂ a₃ t₃} :
      t₂.writeStatic i e'.pub = .ok (a₃, t₃) →
      Progress 5 ⟨⟨i, r.pub, .complete⟩, ⟨r, .actTwoSent t₂ e' e.pub⟩,
        some a₁, some a₂, some (a₃, .ofSplit t₃.split .initiator), none⟩
  | threeRead {a₁ a₂ a₃} {t₃ : Transcript} :
      Progress 6 ⟨⟨i, r.pub, .complete⟩, ⟨r, .complete i.pub⟩,
        some a₁, some a₂, some (a₃, .ofSplit t₃.split .initiator),
        some (.ofSplit t₃.split .responder, i.pub)⟩

variable {i r e e'}

/-- A due call with honest bytes succeeds and is one more step. -/
theorem progress_call {n : Nat} {s : Session} (hs : Progress i r e e' n s) {c : Call}
    (hdue : s.Due c) (hc : s.Delivers c) :
    (s.call c).result = .ok () ∧ Progress i r e e' (n + 1) (s.call c).state := by
  cases hs with
  | opened =>
      cases c with
      | writeActOne =>
          obtain ⟨a₁, t₁, h₁, hkey⟩ :=
            Transcript.exists_writeEphemeral (.opening r.pub) e r.pub
          simp only [call, start, Initiator.start, Initiator.writeActOne, h₁]
          exact ⟨rfl, .oneWritten h₁ hkey⟩
      | readActOne => cases hc
      | _ => cases hdue
  | oneWritten h₁ hkey =>
      cases c with
      | readActOne input =>
          obtain rfl := Option.some.inj hc
          -- the responder mixes the same act, under the secret computed the other way round
          have hread := Transcript.readEphemeral_of_writeEphemeral Act.one rfl h₁
          simp only [call, Responder.start, Responder.readActOne, hread]
          exact ⟨rfl, .oneRead hkey⟩
      | readActTwo => cases hc
      | _ => cases hdue
  | @oneRead a₁ t₁ hkey =>
      cases c with
      | writeActTwo =>
          obtain ⟨a₂, t₂, h₂, hkey'⟩ := Transcript.exists_writeEphemeral t₁ e' e.pub
          simp only [call, Responder.writeActTwo, h₂]
          exact ⟨rfl, .twoWritten h₂ hkey'⟩
      | readActTwo => cases hc
      | _ => cases hdue
  | twoWritten h₂ hkey =>
      cases c with
      | readActTwo input =>
          obtain rfl := Option.some.inj hc
          have hread := Transcript.readEphemeral_of_writeEphemeral Act.two rfl h₂
          simp only [call, Initiator.readActTwo, hread]
          exact ⟨rfl, .twoRead hkey⟩
      | readActThree =>
          obtain ⟨_, hc⟩ := hc
          cases hc
      | _ => cases hdue
  | twoRead hkey =>
      cases c with
      | writeActThree =>
          obtain ⟨a₃, t₃, h₃⟩ := Transcript.exists_writeStatic hkey i e'.pub
          simp only [call, Initiator.writeActThree, h₃]
          exact ⟨rfl, .threeWritten h₃⟩
      | readActThree =>
          obtain ⟨_, hc⟩ := hc
          cases hc
      | _ => cases hdue
  | threeWritten h₃ =>
      cases c with
      | readActThree input =>
          obtain ⟨channel, hact⟩ := hc
          obtain ⟨rfl, -⟩ := Prod.mk.inj (Option.some.inj hact)
          -- the identity opens under the key of act 2, and with it the proof of that identity
          have hread := Transcript.readStatic_of_writeStatic h₃
          simp only [call, Responder.readActThree, hread]
          exact ⟨rfl, .threeRead⟩
      | _ => cases hdue
  | threeRead =>
      cases c with
      | _ => cases hdue

/-- Calls out of turn take no step, so an honest session stays on the course. -/
theorem progress_after {s : Session} {c : Call} (hs : ∃ n, Progress i r e e' n s)
    (hc : s.Due c → s.Delivers c) : ∃ n, Progress i r e e' n (s.after c) := by
  obtain ⟨n, hs⟩ := hs
  unfold after
  by_cases hdue : s.Due c
  · exact ⟨n + 1, (progress_call hs hdue (hc hdue)).2⟩
  · rw [(call_of_not_due hdue).2]
    exact ⟨n, hs⟩

theorem progress_run {calls : List Call} (h : (start i r e e').Honest calls) :
    ∃ n, Progress i r e e' n ((start i r e e').run calls) :=
  invariant_run (fun _ _ => progress_after) ⟨0, .opened⟩ h

end

end Session

end Bolt8
