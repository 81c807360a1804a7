import Bolt8.Proofs.Handshake.Core
import Bolt8.Proofs.Handshake.Verdict

/-!
# What a handshake holds and foretells

Of the fields of a handshake, the secrets are there exactly while it runs, whatever was
called before (`Inventory`): no act that is in turn lacks what it asks for. So the next
action that is named never disappoints: an act that is to be written gets written, and
of an act that is to be read only another size than the one named is refused for its
size.
-/

namespace Bolt8

/-! ## Stages and what is known there -/

def Role.stages : Role → List Stage
  | .initiator => [.initialized, .actOneSent, .actTwoReceived, .complete, .failed]
  | .responder => [.initialized, .actOneReceived, .actTwoSent, .complete, .failed]

/-- The stages on the way at which the peer's ephemeral key is known. -/
def Stage.metPeer : List Stage := [.actTwoReceived, .actOneReceived, .actTwoSent, .complete]

/-! ## The size of an act -/

/-- A result that blames the size of an act if and only if it is wrong, and never the turn. -/
structure Sized {α : Type} (act : Act) (size : ℕ) (input : Bytes) (result : Except Error α) :
    Prop where
  wrong : input.length ≠ size → result = .error (.actSize act size input.length)
  right : input.length = size → result ≠ .error .outOfTurn ∧
    ∀ act' expected actual, result ≠ .error (.actSize act' expected actual)

section

variable {α β : Type} {act : Act} {size : ℕ} {input : Bytes} {result : Except Error α}

theorem sized_map {f : α → β} :
    Sized act size input (result.map f) ↔ Sized act size input result := by
  have herror : ∀ error, result.map f = .error error ↔ result = .error error := by
    intro error
    cases result <;> simp [Except.map]
  constructor
  · rintro ⟨hwrong, hright⟩
    simp only [ne_eq, herror] at hwrong hright
    exact ⟨hwrong, hright⟩
  · rintro ⟨hwrong, hright⟩
    refine ⟨?_, ?_⟩ <;> simp only [ne_eq, herror] <;> assumption

theorem Judged.sized {inside : Bytes → Except Error α → Prop}
    (h : Judged act size inside input result)
    (hinside : ∀ {v}, inside input v →
      v ≠ .error .outOfTurn ∧ ∀ act' expected actual, v ≠ .error (.actSize act' expected actual)) :
    Sized act size input result := by
  cases h with
  | wrongSize hne => exact ⟨fun _ => rfl, fun heq => absurd heq hne⟩
  | wrongVersion heq _ _ => exact ⟨fun hne => absurd heq hne, fun _ => ⟨nofun, nofun⟩⟩
  | inside heq _ hverdict => exact ⟨fun hne => absurd heq hne, fun _ => hinside hverdict⟩

theorem EphemeralVerdict.sized {hash chainingKey : Digest} {own : SecretKey}
    {v : Except Error Unit}
    (h : Judged act size (EphemeralVerdict hash chainingKey own) input v) :
    Sized act size input v := by
  apply h.sized
  intro v hv
  cases hv <;> exact ⟨nofun, nofun⟩

theorem StaticVerdict.sized {hash chainingKey : Digest} {sealing : Aead.Key} {own : SecretKey}
    {v : Except Error PublicKey}
    (h : Judged act size (StaticVerdict hash chainingKey sealing own) input v) :
    Sized act size input v := by
  apply h.sized
  intro v hv
  cases hv <;> exact ⟨nofun, nofun⟩

end

/-! ## Next actions -/

/-- A handshake as it is driven from outside. -/
class Dialogue (σ : Type) where
  role : σ → Role
  stage : σ → Stage
  nextAction : σ → NextAction
  call : σ → Handshake.Call → Outcome σ Given

instance : Dialogue Handshake :=
  ⟨Handshake.role, Handshake.stage, Handshake.nextAction, Handshake.call⟩

instance : Dialogue Core :=
  ⟨Core.role, Core.stage, Core.nextAction, Core.call⟩

namespace Dialogue

variable {σ : Type} [Dialogue σ]

/-- The table allows this act and no other. -/
def OnlyTurn (s : σ) (act : Act) : Prop :=
  ∀ act', ((stage s).after ((role s).step act')).isSome ↔ act' = act

/-- No call gets anywhere. -/
def Closed (s : σ) : Prop := ∀ x, (call s x).result = .error .outOfTurn ∧ (call s x).state = s

/-- The next action is what it says. -/
def Truthful (s : σ) : Prop :=
  match nextAction s with
  | .write => ∃ act, OnlyTurn s act ∧ (role s).step act = .write act ∧
      ∀ input, ∃ given, (call s ⟨act, input⟩).result = .ok given
  | .read size => ∃ act, OnlyTurn s act ∧ (role s).step act = .read act ∧
      ∀ input, Sized act size input (call s ⟨act, input⟩).result
  | .complete => stage s = .complete ∧ Closed s
  | .failed => stage s = .failed ∧ Closed s

theorem onlyTurn_of_after {s : σ} {act : Act} {next : Stage}
    (hnext : (stage s).after ((role s).step act) = some next) : OnlyTurn s act := by
  intro act'
  constructor
  · intro hsome
    obtain ⟨next', hnext'⟩ := Option.isSome_iff_exists.1 hsome
    have heq := (Stage.remaining_of_after hnext').symm.trans (Stage.remaining_of_after hnext)
    exact (List.cons.inj heq).1
  · rintro rfl
    rw [hnext]
    rfl

end Dialogue

open Dialogue (Truthful Closed OnlyTurn onlyTurn_of_after)

namespace Handshake

variable {setup : Setup} {h : Handshake}

theorem closed_of_terminal (hterminal : h.stage.isTerminal) : Closed h := by
  intro c
  have hnone : h.next? c.act = none := Stage.after_of_terminal hterminal _
  have htook : h.Took c (Dialogue.call h c) := h.took_call c
  generalize Dialogue.call h c = out at htook ⊢
  cases htook with
  | refused => exact ⟨rfl, rfl⟩
  | failed hsome | advanced hsome => cases hnone.symm.trans hsome

theorem truthful_of_came (hcame : Came setup h) : Truthful h := by
  cases setup with
  | initiator identity remote e =>
      cases h with
      | responder r => exact hcame.elim
      | initiator i =>
          obtain ⟨one, two, three, hcame⟩ := hcame
          cases hcame with
          | opened =>
              refine ⟨.one, onlyTurn_of_after rfl, rfl, fun input => ?_⟩
              show ∃ given, ((initiator _).call ⟨.one, input⟩).result = .ok given
              rw [call, Initiator.writeActOne_eq]
              exact ⟨_, rfl⟩
          | oneWritten =>
              refine ⟨.two, onlyTurn_of_after rfl, rfl, fun input => sized_map.2 ?_⟩
              exact EphemeralVerdict.sized
                ((Initiator.readActTwo_verdict identity remote e input _).1 rfl)
          | twoRead =>
              refine ⟨.three, onlyTurn_of_after rfl, rfl, fun input => ?_⟩
              show ∃ given, ((initiator _).call ⟨.three, input⟩).result = .ok given
              rw [call, Initiator.writeActThree_eq]
              exact ⟨_, rfl⟩
          | threeWritten | failed => exact ⟨rfl, closed_of_terminal rfl⟩
  | responder identity e =>
      cases h with
      | initiator i => exact hcame.elim
      | responder r =>
          obtain ⟨one, two, three, proved, hcame⟩ := hcame
          cases hcame with
          | opened =>
              refine ⟨.one, onlyTurn_of_after rfl, rfl, fun input => sized_map.2 ?_⟩
              exact EphemeralVerdict.sized
                ((Responder.readActOne_verdict identity e input _).1 rfl)
          | oneRead =>
              refine ⟨.two, onlyTurn_of_after rfl, rfl, fun input => ?_⟩
              show ∃ given, ((responder _).call ⟨.two, input⟩).result = .ok given
              rw [call, Responder.writeActTwo_eq]
              exact ⟨_, rfl⟩
          | @twoWritten key re =>
              refine ⟨.three, onlyTurn_of_after rfl, rfl, fun input => sized_map.2 ?_⟩
              -- which key act 3 has proved does not matter here
              rw [← sized_map]
              exact StaticVerdict.sized
                ((Responder.readActThree_verdict rfl identity e re input _).1 rfl)
          | threeRead | failedFirst | failedLast => exact ⟨rfl, closed_of_terminal rfl⟩

/-- What an object was made from stays with it. -/
theorem kept_of_came (hcame : Came setup h) :
    h.role = setup.role ∧ h.identity = setup.identity ∧
      ∀ e, h.ephemeral? = some e → e = setup.ephemeral := by
  cases setup with
  | initiator identity remote e =>
      cases h with
      | responder r => exact hcame.elim
      | initiator i =>
          obtain ⟨one, two, three, hcame⟩ := hcame
          refine ⟨rfl, by cases hcame <;> rfl, ?_⟩
          cases hcame <;> rintro _ ⟨⟩ <;> rfl
  | responder identity e =>
      cases h with
      | initiator i => exact hcame.elim
      | responder r =>
          obtain ⟨one, two, three, proved, hcame⟩ := hcame
          refine ⟨rfl, by cases hcame <;> rfl, ?_⟩
          cases hcame <;> rintro _ ⟨⟩ <;> rfl

end Handshake

namespace Core

/-- What a record and an object have in common. -/
structure Common (c : Core) (h : Handshake) : Prop where
  role : c.role = h.role
  stage : c.stage = h.stage
  identity : c.identity = h.identity
  transcript : c.transcript = h.transcript?
  ephemeral : c.ephemeral = h.ephemeral?
  remoteStatic : c.remoteStatic = h.remoteStatic
  nextAction : c.nextAction = h.nextAction
  hash : c.handshakeHash = h.handshakeHash
  call : ∀ x, Same Represents (c.call x) (h.call x)

/-- The fields of a record, at each of its stages. -/
structure Inventory (c : Core) (setup : Setup) : Prop where
  role : c.role = setup.role
  stage : c.stage ∈ setup.role.stages
  identity : c.identity = setup.identity
  transcript : c.transcript.isSome ↔ c.stage.isTerminal = false
  ephemeral : c.ephemeral.isSome ↔ c.stage.isTerminal = false
  ownEphemeral : ∀ e, c.ephemeral = some e → e = setup.ephemeral
  hash : (∃ digest, c.handshakeHash = .ok digest) ↔ c.stage.isTerminal = false
  /-- A failure leaves it as it was. -/
  remoteEphemeral : c.stage ≠ .failed → (c.remoteEphemeral.isSome ↔ c.stage ∈ Stage.metPeer)
  remoteStatic :
    match setup with
    | .initiator _ remoteStatic _ => c.remoteStatic = some remoteStatic
    | .responder _ _ => c.remoteStatic.isSome ↔ c.stage = .complete

variable {setup : Setup} {c : Core} {h : Handshake}

theorem common_of_represents (hc : c.Represents h) : c.Common h := by
  have hcall : ∀ x, Same Represents (c.call x) (h.call x) := same_call hc
  cases h with
  | initiator i => cases hc <;> exact ⟨rfl, rfl, rfl, rfl, rfl, rfl, rfl, rfl, hcall⟩
  | responder r => cases hc <;> exact ⟨rfl, rfl, rfl, rfl, rfl, rfl, rfl, rfl, hcall⟩

theorem inventory_of_represents (hc : c.Represents h) (hcame : Handshake.Came setup h) :
    c.Inventory setup := by
  obtain ⟨hrole, hidentity, hown⟩ := Handshake.kept_of_came hcame
  have hcommon := common_of_represents hc
  cases setup with
  | initiator identity remote e =>
      cases h with
      | responder r => exact hcame.elim
      | initiator i =>
          have hremote : some i.remoteStatic = some remote := by
            obtain ⟨one, two, three, hcame⟩ := hcame
            cases hcame <;> rfl
          cases hc <;> exact {
            role := hrole
            stage := by simp [Setup.role, Role.stages]
            identity := hidentity
            transcript := by simp [Stage.isTerminal]
            ephemeral := by simp [Stage.isTerminal]
            ownEphemeral := hown
            hash := by simp [handshakeHash, Stage.isTerminal]
            remoteEphemeral := by simp [Stage.metPeer]
            remoteStatic := hremote }
  | responder identity e =>
      cases h with
      | initiator i => exact hcame.elim
      | responder r =>
          cases hc <;> exact {
            role := hrole
            stage := by simp [Setup.role, Role.stages]
            identity := hidentity
            transcript := by simp [Stage.isTerminal]
            ephemeral := by simp [Stage.isTerminal]
            ownEphemeral := hown
            hash := by simp [handshakeHash, Stage.isTerminal]
            remoteEphemeral := by simp [Stage.metPeer]
            remoteStatic := by simp }

theorem closed_of_terminal (hterminal : c.stage.isTerminal) : Closed c := by
  intro x
  have hcall : Dialogue.call c x = _ := call_of_refused (Stage.after_of_terminal hterminal _)
  rw [hcall]
  exact ⟨rfl, rfl⟩

theorem truthful_of_common (hc : c.Common h) (htruthful : Truthful h) : Truthful c := by
  have hrole : Dialogue.role c = Dialogue.role h := hc.role
  have hstage : Dialogue.stage c = Dialogue.stage h := hc.stage
  have hnext : Dialogue.nextAction c = Dialogue.nextAction h := hc.nextAction
  have hresult : ∀ x, (Dialogue.call c x).result = (Dialogue.call h x).result :=
    fun x => (hc.call x).result
  have hclosed : (Dialogue.stage h).isTerminal → Closed c := by
    intro hterminal
    apply closed_of_terminal
    rw [hc.stage]
    exact hterminal
  unfold Truthful OnlyTurn at htruthful ⊢
  rw [hnext, hrole, hstage]
  revert htruthful
  cases Dialogue.nextAction h with
  | write | read =>
      simp only [hresult]
      exact id
  | complete =>
      rintro ⟨hcomplete, -⟩
      exact ⟨hcomplete, hclosed (by rw [hcomplete]; rfl)⟩
  | failed =>
      rintro ⟨hfailed, -⟩
      exact ⟨hfailed, hclosed (by rw [hfailed]; rfl)⟩

/-- Whatever was called before. -/
theorem truthful_run (setup : Setup) (calls : List Handshake.Call) :
    let c := (start setup).run calls
    let h := (Handshake.start setup).run calls
    c.Inventory setup ∧ Truthful c ∧ c.Common h ∧ Truthful h := by
  intro c h
  have hc : c.Represents h := represents_run setup calls
  have hcame : Handshake.Came setup h := Handshake.came_run setup calls
  have htruthful := Handshake.truthful_of_came hcame
  have hcommon := common_of_represents hc
  exact ⟨inventory_of_represents hc hcame, truthful_of_common hcommon htruthful, hcommon, htruthful⟩

end Core

end Bolt8
