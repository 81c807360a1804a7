import Bolt8.Proofs.Handshake.Calls
import Bolt8.Proofs.Transcript.Script

/-!
# A handshake by its fields

An object of either role holds what belongs to its stage and nothing else. Here it is
one record for both roles: the stage is a field like any other, and the transcript, the
ephemeral key and the keys of the peer may each be there or not. An act asks the fields
for what it needs and changes them one by one; the end of a handshake and a failure
clear some of them. `Represents` says which records stand for which objects. A call
gives and logs the same on both and keeps the relation (`same_call`), so a record never
lacks what a step that is in turn asks it for.
-/

namespace Bolt8

/-- Which of our own keys takes part in a shared secret. -/
inductive OwnKey
  | static
  | ephemeral

/-- The state of a handshake of either role. -/
structure Core where
  role : Role
  transcript : Option Transcript
  stage : Stage
  identity : KeyPair
  ephemeral : Option KeyPair
  remoteStatic : Option PublicKey
  remoteEphemeral : Option PublicKey

/-- What a role wants next, by two tables. A stage of the other role counts as failed. -/
def Role.nextAction : Role → Stage → NextAction
  | .initiator, .initialized | .initiator, .actTwoReceived => .write
  | .initiator, .actOneSent => .read Act.two.size
  | .initiator, .complete => .complete
  | .initiator, .failed | .initiator, .actOneReceived | .initiator, .actTwoSent => .failed
  | .responder, .initialized => .read Act.one.size
  | .responder, .actOneReceived => .write
  | .responder, .actTwoSent => .read Act.three.size
  | .responder, .complete => .complete
  | .responder, .failed | .responder, .actOneSent | .responder, .actTwoReceived => .failed

namespace Core

/-- The static key of the responder, as far as the role knows it. -/
def preMessage (role : Role) (identity : KeyPair) (remoteStatic : Option PublicKey) :
    Option PublicKey :=
  match role with
  | .initiator => remoteStatic
  | .responder => some identity.pub

def new (role : Role) (identity ephemeral : KeyPair) (remoteStatic : Option PublicKey) : Core :=
  let t := Transcript.start protocolName prologue
  let opened := (preMessage role identity remoteStatic).elim t fun key =>
    t.mixHash key.compress.val
  ⟨role, some opened, .initialized, identity, some ephemeral, remoteStatic, none⟩

def start : Setup → Core
  | .initiator identity remoteStatic ephemeral =>
    new .initiator identity ephemeral (some remoteStatic)
  | .responder identity ephemeral => new .responder identity ephemeral none

/-! ## What acts are made of -/

/-- What a field holds; without it, the call is out of turn. -/
def held {α : Type} (field : Core → Option α) : InPlace Core α := do
  match field (← get) with
  | none => throw .outOfTurn
  | some a => return a

/-- A call on the transcript, which stays part of the record. -/
def onTranscript (op : Transcript.Op) : InPlace Core Bytes := fun c =>
  match c.transcript with
  | none => (.error .outOfTurn, c)
  | some t =>
    let (result, t) := t.call op
    (result, { c with transcript := some t })

def ownSecret : OwnKey → InPlace Core SecretKey
  | .static => return (← get).identity.secret
  | .ephemeral => return (← held ephemeral).secret

def mixShared (own : OwnKey) (remote : PublicKey) : InPlace Core Unit := do
  let secret ← ownSecret own
  let _ ← onTranscript (.mixKey (secret.agree remote).digest.val)

def writeEphemeral (remote : PublicKey) : InPlace Core Bytes := do
  let key := (← held ephemeral).pub.compress.val
  let _ ← onTranscript (.mixHash key)
  mixShared .ephemeral remote
  let tag ← onTranscript (.encrypt [])
  return handshakeVersion :: key ++ tag

def readEphemeral (act : Act) (own : OwnKey) (input : Bytes) : InPlace Core Unit := do
  let content ← MonadExcept.ofExcept (act.content input)
  let key := content.take Curve.compressedSize
  let remote ← MonadExcept.ofExcept (PublicKey.read key)
  let _ ← onTranscript (.mixHash key)
  mixShared own remote
  let _ ← onTranscript (.decrypt (content.drop Curve.compressedSize))
  modify fun c => { c with remoteEphemeral := some remote }

/-- The transcript is taken out and split; the ephemeral key goes with it. -/
def finish : InPlace Core Channel := do
  let t ← held transcript
  modify fun c => { c with transcript := none, ephemeral := none }
  return .ofSplit t.split (← get).role

def writeStatic : InPlace Core (Bytes × Channel) := do
  let remote ← held remoteEphemeral
  let sealed ← onTranscript (.encrypt (← get).identity.pub.compress.val)
  mixShared .static remote
  let tag ← onTranscript (.encrypt [])
  let channel ← finish
  return (handshakeVersion :: sealed ++ tag, channel)

def readStatic (input : Bytes) : InPlace Core (Channel × PublicKey) := do
  let content ← MonadExcept.ofExcept (Act.three.content input)
  let sealedSize := Curve.compressedSize + Aead.tagSize
  let key ← onTranscript (.decrypt (content.take sealedSize))
  let remote ← MonadExcept.ofExcept (PublicKey.read key)
  mixShared .ephemeral remote
  let _ ← onTranscript (.decrypt (content.drop sealedSize))
  modify fun c => { c with remoteStatic := some remote }
  let channel ← finish
  return (channel, remote)

/-! ## Steps -/

def fail (c : Core) : Core := { c with stage := .failed, transcript := none, ephemeral := none }

/-- Does what a step asks for, if the table allows it. An error on the way is final. -/
def step {α : Type} (c : Core) (s : Step) (run : InPlace Core α) : Outcome Core α :=
  match c.stage.after s with
  | none => ⟨.error .outOfTurn, c, [.refused c.role s c.stage]⟩
  | some next =>
    match run.run c with
    | (.ok a, c) => ⟨.ok a, { c with stage := next }, [.advanced c.role c.stage next]⟩
    | (.error e, c) => ⟨.error e, c.fail, [.failed c.role s e]⟩

def writeActOne (c : Core) : Outcome Core Bytes :=
  c.step (.write .one) do writeEphemeral (← held remoteStatic)

def readActOne (c : Core) (input : Bytes) : Outcome Core Unit :=
  c.step (.read .one) (readEphemeral .one .static input)

def writeActTwo (c : Core) : Outcome Core Bytes :=
  c.step (.write .two) do writeEphemeral (← held remoteEphemeral)

def readActTwo (c : Core) (input : Bytes) : Outcome Core Unit :=
  c.step (.read .two) (readEphemeral .two .ephemeral input)

def writeActThree (c : Core) : Outcome Core (Bytes × Channel) :=
  c.step (.write .three) writeStatic

def readActThree (c : Core) (input : Bytes) : Outcome Core (Channel × PublicKey) :=
  c.step (.read .three) (readStatic input)

def call (c : Core) (x : Handshake.Call) : Outcome Core Given :=
  match c.role, x.act with
  | .initiator, .one => c.writeActOne.map id fun act => ⟨some act, none, none⟩
  | .initiator, .two => (c.readActTwo x.input).map id fun _ => ⟨none, none, none⟩
  | .initiator, .three =>
    c.writeActThree.map id fun (act, channel) => ⟨some act, some channel, none⟩
  | .responder, .one => (c.readActOne x.input).map id fun _ => ⟨none, none, none⟩
  | .responder, .two => c.writeActTwo.map id fun act => ⟨some act, none, none⟩
  | .responder, .three =>
    (c.readActThree x.input).map id fun (channel, proved) => ⟨none, some channel, some proved⟩

def after (c : Core) (x : Handshake.Call) : Core := (c.call x).state

/-- The record after a sequence of calls. -/
def run (c : Core) (calls : List Handshake.Call) : Core := calls.foldl after c

def nextAction (c : Core) : NextAction := c.role.nextAction c.stage

def handshakeHash (c : Core) : Except Error Digest :=
  match c.transcript with
  | none => .error .outOfTurn
  | some t => .ok t.hash

theorem step_of_refused {α : Type} {c : Core} {s : Step} (h : c.stage.after s = none)
    (f : InPlace Core α) : c.step s f = ⟨.error .outOfTurn, c, [.refused c.role s c.stage]⟩ := by
  rw [step, h]

/-- A call that the table does not allow leaves the record as it was. -/
theorem call_of_refused {c : Core} {x : Handshake.Call}
    (h : c.stage.after (c.role.step x.act) = none) :
    c.call x = ⟨.error .outOfTurn, c, [.refused c.role (c.role.step x.act) c.stage]⟩ := by
  obtain ⟨role, transcript, stage, identity, ephemeral, remoteStatic, remoteEphemeral⟩ := c
  obtain ⟨act, input⟩ := x
  cases role <;> cases act <;> exact congrArg (Outcome.map id _) (step_of_refused h _)

/-! ## An act with all its fields there -/

section

variable {c c₁ : Core} {t t' : Transcript} {e : KeyPair}

theorem held_of_some {α : Type} {field : Core → Option α} {a : α} (h : field c = some a) :
    (held field).run c = (.ok a, c) := by
  rw [held, InPlace.run_bind_of_ok (InPlace.run_get c), h]
  rfl

theorem onTranscript_of_call {op : Transcript.Op} {result : Except Error Bytes}
    (ht : c.transcript = some t) (hcall : t.call op = (result, t')) :
    (onTranscript op).run c = (result, { c with transcript := some t' }) := by
  show onTranscript op c = _
  simp only [onTranscript, ht, hcall]

theorem onTranscript_mixHash (ht : c.transcript = some t) (data : Bytes) :
    (onTranscript (.mixHash data)).run c =
      (.ok [], { c with transcript := some (t.mixHash data) }) :=
  onTranscript_of_call ht rfl

/-- A secret of ours is at hand, whatever becomes of the transcript. -/
def Owns (c : Core) (own : OwnKey) (secret : SecretKey) : Prop :=
  ∀ t, (ownSecret own).run { c with transcript := t } = (.ok secret, { c with transcript := t })

theorem owns_static (c : Core) : c.Owns .static c.identity.secret := fun _ => rfl

theorem owns_ephemeral (he : c.ephemeral = some e) : c.Owns .ephemeral e.secret := by
  intro t
  have hheld : (held ephemeral).run { c with transcript := t } =
      (.ok e, { c with transcript := t }) := by
    refine held_of_some ?_
    exact he
  rw [ownSecret, InPlace.run_bind_of_ok hheld]
  rfl

theorem mixShared_of_owns {own : OwnKey} {secret : SecretKey} (hown : c.Owns own secret)
    (t : Transcript) (remote : PublicKey) :
    (mixShared own remote).run { c with transcript := some t } =
      (.ok (), { c with transcript := some (t.mixShared secret remote) }) := by
  rw [mixShared, InPlace.run_bind_of_ok (hown _),
    InPlace.run_bind_of_ok (onTranscript_of_call rfl rfl)]
  rfl

theorem finish_of_some (ht : c.transcript = some t) :
    finish.run c =
      (.ok (.ofSplit t.split c.role), { c with transcript := none, ephemeral := none }) := by
  rw [finish, InPlace.run_bind_of_ok (held_of_some ht)]
  rfl

/-- What is done in place to a record goes the way of a plain computation: `outcome` tells
what comes of a value, and if there is none, nothing of `c` has changed but what a failure
clears. -/
inductive Follows {α β : Type} (c : Core) (outcome : α → β × Core) :
    Except Error α → Except Error β × Core → Prop
  | done (a : α) : Follows c outcome (.ok a) (.ok (outcome a).1, (outcome a).2)
  | failed {error : Error} {c' : Core} :
      c'.fail = c.fail → Follows c outcome (.error error) (.error error, c')

theorem Follows.bind {α α' β β' : Type} {outcome : α → β × Core} {outcome' : α' → β' × Core}
    {plain : Except Error α} {plain' : α → Except Error α'} {x : InPlace Core β}
    {f : β → InPlace Core β'} (hx : c.Follows outcome plain (x.run c₁))
    (hf : ∀ a, c.Follows outcome' (plain' a) ((f (outcome a).1).run (outcome a).2)) :
    c.Follows outcome' (plain >>= plain') ((x >>= f).run c₁) := by
  generalize hrun : x.run c₁ = r at hx
  cases hx with
  | done a =>
      rw [InPlace.run_bind_of_ok hrun]
      exact hf a
  | failed hfail =>
      rw [InPlace.run_bind_of_error hrun]
      exact .failed hfail

theorem follows_ofExcept {α : Type} (hfail : c₁.fail = c.fail) (result : Except Error α) :
    c.Follows (fun a => (a, c₁)) result
      ((MonadExcept.ofExcept result : InPlace Core α).run c₁) := by
  cases result with
  | error error => exact .failed hfail
  | ok a => exact .done a

theorem follows_onTranscript (ht : c₁.transcript = some t) (hfail : c₁.fail = c.fail)
    (op : Transcript.Op) :
    c.Follows (fun p => (p.1, { c₁ with transcript := some p.2 })) (t.perform op)
      ((onTranscript op).run c₁) := by
  rcases t.call_cases op with ⟨answer, t', hperform, hcall⟩ | ⟨error, hperform, hcall⟩
  · rw [hperform, onTranscript_of_call ht hcall]
    exact .done (answer, t')
  · rw [hperform, onTranscript_of_call ht hcall]
    exact .failed hfail

theorem follows_writeEphemeral {field : Core → Option PublicKey} {remote : PublicKey}
    (ht : c.transcript = some t) (he : c.ephemeral = some e) (hremote : field c = some remote) :
    c.Follows (fun p => (p.1, { c with transcript := some p.2 })) (t.writeEphemeral e remote)
      ((do writeEphemeral (← held field)).run c) := by
  rw [InPlace.run_bind_of_ok (held_of_some hremote), writeEphemeral,
    InPlace.run_bind_of_ok (held_of_some he)]
  dsimp only
  rw [InPlace.run_bind_of_ok (onTranscript_mixHash ht _),
    InPlace.run_bind_of_ok (mixShared_of_owns (owns_ephemeral he) _ remote)]
  refine Follows.bind (follows_onTranscript (by rfl) (by rfl) (.encrypt [])) fun ⟨tag, t'⟩ => ?_
  exact .done (_, t')

theorem follows_readEphemeral {own : OwnKey} {secret : SecretKey} (ht : c.transcript = some t)
    (hown : c.Owns own secret) (act : Act) (input : Bytes) :
    c.Follows
      (fun p => ((), { c with transcript := some p.2, remoteEphemeral := some p.1 }))
      (t.readEphemeral act secret input) ((readEphemeral act own input).run c) := by
  refine Follows.bind (follows_ofExcept (by rfl) (act.content input)) fun content => ?_
  refine Follows.bind (follows_ofExcept (by rfl) _) fun remote => ?_
  rw [InPlace.run_bind_of_ok (onTranscript_mixHash ht _),
    InPlace.run_bind_of_ok (mixShared_of_owns hown _ remote)]
  refine Follows.bind (follows_onTranscript (by rfl) (by rfl) (.decrypt _)) fun ⟨plain, t'⟩ => ?_
  exact .done (remote, t')

theorem follows_writeStatic {remote : PublicKey} (ht : c.transcript = some t)
    (hremote : c.remoteEphemeral = some remote) :
    c.Follows
      (fun p =>
        ((p.1, .ofSplit p.2.split c.role), { c with transcript := none, ephemeral := none }))
      (t.writeStatic c.identity remote) (writeStatic.run c) := by
  rw [writeStatic, InPlace.run_bind_of_ok (held_of_some hremote),
    InPlace.run_bind_of_ok (InPlace.run_get c)]
  refine Follows.bind (follows_onTranscript ht (by rfl) (.encrypt _)) fun ⟨sealed, t₁⟩ => ?_
  rw [InPlace.run_bind_of_ok (mixShared_of_owns c.owns_static _ remote)]
  refine Follows.bind (follows_onTranscript (by rfl) (by rfl) (.encrypt [])) fun ⟨tag, t₂⟩ => ?_
  rw [InPlace.run_bind_of_ok (finish_of_some rfl)]
  exact .done (_, t₂)

theorem follows_readStatic (ht : c.transcript = some t) (he : c.ephemeral = some e)
    (input : Bytes) :
    c.Follows
      (fun p => ((.ofSplit p.2.split c.role, p.1),
        { c with transcript := none, ephemeral := none, remoteStatic := some p.1 }))
      (t.readStatic e.secret input) ((readStatic input).run c) := by
  refine Follows.bind (follows_ofExcept (by rfl) (Act.three.content input)) fun content => ?_
  refine Follows.bind (follows_onTranscript ht (by rfl) (.decrypt _)) fun ⟨key, t₁⟩ => ?_
  refine Follows.bind (follows_ofExcept (by rfl) (PublicKey.read key)) fun remote => ?_
  rw [InPlace.run_bind_of_ok (mixShared_of_owns (owns_ephemeral he) _ remote)]
  refine Follows.bind (follows_onTranscript (by rfl) (by rfl) (.decrypt _)) fun ⟨plain, t₂⟩ => ?_
  exact .done (remote, t₂)

end

/-! ## Records that stand for objects -/

/-- An initiator by its fields. Nothing clears what is known of the peer's ephemeral key. -/
inductive OfInitiator : Core → Initiator → Prop
  | initialized {identity remote t e} :
      OfInitiator ⟨.initiator, some t, .initialized, identity, some e, some remote, none⟩
        ⟨identity, remote, .initialized t e⟩
  | actOneSent {identity remote t e} :
      OfInitiator ⟨.initiator, some t, .actOneSent, identity, some e, some remote, none⟩
        ⟨identity, remote, .actOneSent t e⟩
  | actTwoReceived {identity remote t e re} :
      OfInitiator ⟨.initiator, some t, .actTwoReceived, identity, some e, some remote, some re⟩
        ⟨identity, remote, .actTwoReceived t e re⟩
  | complete {identity remote re} :
      OfInitiator ⟨.initiator, none, .complete, identity, none, some remote, some re⟩
        ⟨identity, remote, .complete⟩
  | failed {identity remote re} :
      OfInitiator ⟨.initiator, none, .failed, identity, none, some remote, re⟩
        ⟨identity, remote, .failed⟩

/-- A responder by its fields. The peer's static key is there when act 3 has proved it. -/
inductive OfResponder : Core → Responder → Prop
  | initialized {identity t e} :
      OfResponder ⟨.responder, some t, .initialized, identity, some e, none, none⟩
        ⟨identity, .initialized t e⟩
  | actOneReceived {identity t e re} :
      OfResponder ⟨.responder, some t, .actOneReceived, identity, some e, none, some re⟩
        ⟨identity, .actOneReceived t e re⟩
  | actTwoSent {identity t e re} :
      OfResponder ⟨.responder, some t, .actTwoSent, identity, some e, none, some re⟩
        ⟨identity, .actTwoSent t e re⟩
  | complete {identity rs re} :
      OfResponder ⟨.responder, none, .complete, identity, none, some rs, some re⟩
        ⟨identity, .complete rs⟩
  | failed {identity re} :
      OfResponder ⟨.responder, none, .failed, identity, none, none, re⟩ ⟨identity, .failed⟩

def Represents (c : Core) : Handshake → Prop
  | .initiator i => c.OfInitiator i
  | .responder r => c.OfResponder r

/-- The same to the caller, with related states behind it. -/
structure Same {σ τ α : Type} (R : σ → τ → Prop) (out : Outcome σ α) (out' : Outcome τ α) :
    Prop where
  result : out.result = out'.result
  log : out.log = out'.log
  state : R out.state out'.state

theorem Same.initiator {α : Type} {out : Outcome Core α} {out' : Outcome Initiator α}
    (h : Same OfInitiator out out') (g : α → Given) :
    Same Represents (out.map id g) (out'.map Handshake.initiator g) :=
  ⟨congrArg (·.map g) h.result, h.log, h.state⟩

theorem Same.responder {α : Type} {out : Outcome Core α} {out' : Outcome Responder α}
    (h : Same OfResponder out out') (g : α → Given) :
    Same Represents (out.map id g) (out'.map Handshake.responder g) :=
  ⟨congrArg (·.map g) h.result, h.log, h.state⟩

/-- A step that is in turn, on a record and on an object. -/
theorem same_settle {σ α β : Type} [Party σ] {R : Core → σ → Prop} {c : Core} {party : σ}
    {s : Step} {next : Stage} {run : InPlace Core β} {value : α → β} {core : α → Core}
    {plain : Except Error α} {after : α → σ} (hnext : c.stage.after s = some next)
    (hrole : c.role = Party.role σ) (hstage : c.stage = Party.stage party)
    (hfollows : c.Follows (fun a => (value a, core a)) plain (run.run c))
    (hdone : ∀ a, R { core a with stage := next } (after a) ∧
      (core a).role = c.role ∧ (core a).stage = c.stage ∧ Party.stage (after a) = next)
    (hfailed : R c.fail (Party.abandon party)) :
    Same R (c.step s run) (Party.settle party s (plain >>= fun a => .ok (value a, after a))) := by
  rw [step, hnext]
  generalize run.run c = r at hfollows
  cases hfollows with
  | done a =>
      obtain ⟨hrelated, hrole', hstage', hafter⟩ := hdone a
      refine ⟨rfl, ?_, hrelated⟩
      show [Event.advanced _ _ _] = [Event.advanced _ _ _]
      rw [hrole', hstage', hrole, hstage, hafter]
  | @failed error c' hfail =>
      have hrole' : c'.role = Party.role σ := (congrArg Core.role hfail).trans hrole
      refine ⟨rfl, ?_, ?_⟩
      · show [Event.failed _ _ _] = [Event.failed _ _ _]
        rw [hrole']
      · show R c'.fail _
        rw [hfail]
        exact hfailed

section

variable {c : Core} {i : Initiator} {r : Responder}

theorem same_writeActOne (h : c.OfInitiator i) :
    Same OfInitiator c.writeActOne i.writeActOne := by
  cases h with
  | @initialized identity remote t e =>
      -- the act is named: it cannot fail, and would be computed away
      show Same _ _ (Party.settle (⟨identity, remote, .initialized t e⟩ : Initiator) (.write .one)
        (t.writeEphemeral e remote >>= fun a => .ok (a.1, ⟨identity, remote, .actOneSent a.2 e⟩)))
      exact same_settle rfl rfl rfl (follows_writeEphemeral rfl rfl rfl)
        (fun _ => ⟨.actOneSent, rfl, rfl, rfl⟩) .failed
  | _ => exact ⟨rfl, rfl, by constructor⟩

theorem same_readActTwo (h : c.OfInitiator i) (input : Bytes) :
    Same OfInitiator (c.readActTwo input) (i.readActTwo input) := by
  cases h with
  | actOneSent =>
      exact same_settle rfl rfl rfl (follows_readEphemeral rfl (owns_ephemeral rfl) .two input)
        (fun _ => ⟨.actTwoReceived, rfl, rfl, rfl⟩) .failed
  | _ => exact ⟨rfl, rfl, by constructor⟩

theorem same_writeActThree (h : c.OfInitiator i) :
    Same OfInitiator c.writeActThree i.writeActThree := by
  cases h with
  | actTwoReceived =>
      exact same_settle rfl rfl rfl (follows_writeStatic rfl rfl)
        (fun _ => ⟨.complete, rfl, rfl, rfl⟩) .failed
  | _ => exact ⟨rfl, rfl, by constructor⟩

theorem same_readActOne (h : c.OfResponder r) (input : Bytes) :
    Same OfResponder (c.readActOne input) (r.readActOne input) := by
  cases h with
  | initialized =>
      exact same_settle rfl rfl rfl (follows_readEphemeral rfl (owns_static _) .one input)
        (fun _ => ⟨.actOneReceived, rfl, rfl, rfl⟩) .failed
  | _ => exact ⟨rfl, rfl, by constructor⟩

theorem same_writeActTwo (h : c.OfResponder r) :
    Same OfResponder c.writeActTwo r.writeActTwo := by
  cases h with
  | @actOneReceived identity t e re =>
      show Same _ _ (Party.settle (⟨identity, .actOneReceived t e re⟩ : Responder) (.write .two)
        (t.writeEphemeral e re >>= fun a => .ok (a.1, ⟨identity, .actTwoSent a.2 e re⟩)))
      exact same_settle rfl rfl rfl (follows_writeEphemeral rfl rfl rfl)
        (fun _ => ⟨.actTwoSent, rfl, rfl, rfl⟩) .failed
  | _ => exact ⟨rfl, rfl, by constructor⟩

theorem same_readActThree (h : c.OfResponder r) (input : Bytes) :
    Same OfResponder (c.readActThree input) (r.readActThree input) := by
  cases h with
  | actTwoSent =>
      exact same_settle rfl rfl rfl (follows_readStatic rfl rfl input)
        (fun _ => ⟨.complete, rfl, rfl, rfl⟩) .failed
  | _ => exact ⟨rfl, rfl, by constructor⟩

end

theorem same_call {c : Core} {h : Handshake} (hc : c.Represents h) (x : Handshake.Call) :
    Same Represents (c.call x) (h.call x) := by
  obtain ⟨act, input⟩ := x
  cases h with
  | initiator i =>
      have hrole : c.role = .initiator := by cases hc <;> rfl
      rw [call, hrole]
      cases act with
      | one => exact (same_writeActOne hc).initiator _
      | two => exact (same_readActTwo hc input).initiator _
      | three => exact (same_writeActThree hc).initiator _
  | responder r =>
      have hrole : c.role = .responder := by cases hc <;> rfl
      rw [call, hrole]
      cases act with
      | one => exact (same_readActOne hc input).responder _
      | two => exact (same_writeActTwo hc).responder _
      | three => exact (same_readActThree hc input).responder _

theorem represents_start (setup : Setup) : (start setup).Represents (Handshake.start setup) := by
  cases setup with
  | initiator identity remoteStatic ephemeral => exact .initialized
  | responder identity ephemeral => exact .initialized

theorem represents_run (setup : Setup) (calls : List Handshake.Call) :
    ((start setup).run calls).Represents ((Handshake.start setup).run calls) := by
  induction calls using List.reverseRecOn with
  | nil => exact represents_start setup
  | append_singleton calls x ih =>
      rw [run, List.foldl_append, Handshake.run_append]
      exact (same_call ih x).state

end Core

end Bolt8
