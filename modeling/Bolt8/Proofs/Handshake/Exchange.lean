import Bolt8.Proofs.Handshake.Computation
import Bolt8.Proofs.Handshake.Session

/-!
# A handshake over any wire

An exchange is a session in which an act may be read from any bytes, together
with the acts that were accepted. Whatever is called, `Initiates` and `Responds`
list all that can have come of it, for one party without a look at the other:
each act written or accepted is the one computed from this party's own secrets.
-/

namespace Bolt8

open Curve.Point (ofCompressed?)

/-! ## The acts as each party computes them -/

namespace Initiator

def one (remote : PublicKey) (e : KeyPair) : EphemeralAct :=
  .first remote e.pub.compress.val (e.secret.agree remote)

def two (remote : PublicKey) (e : KeyPair) (key : Bytes) (re : PublicKey) : EphemeralAct :=
  (one remote e).next key (e.secret.agree re)

def three (i : KeyPair) (remote : PublicKey) (e : KeyPair) (key : Bytes) (re : PublicKey) :
    StaticAct :=
  (two remote e key re).last i.pub.compress.val (i.secret.agree re)

variable (i : KeyPair) (remote : PublicKey) (e : KeyPair) {key : Bytes} {re : PublicKey}

theorem writeActOne_eq :
    (start i remote e).writeActOne =
      ⟨.ok (one remote e).bytes, ⟨i, remote, .actOneSent (one remote e).closing.transcript e⟩,
        [.advanced .initiator .initialized .actOneSent]⟩ := by
  simp only [writeActOne, start, Transcript.opening_eq, Transcript.writeEphemeral_eq]
  rfl

theorem readActTwo_eq (h : ofCompressed? key = some re) :
    readActTwo ⟨i, remote, .actOneSent (one remote e).closing.transcript e⟩
        (two remote e key re).bytes =
      ⟨.ok (), ⟨i, remote, .actTwoReceived (two remote e key re).closing.transcript e re⟩,
        [.advanced .initiator .actOneSent .actTwoReceived]⟩ := by
  have hread : (one remote e).closing.transcript.readEphemeral .two e.secret
      (two remote e key re).bytes = .ok (re, (two remote e key re).closing.transcript) :=
    (Transcript.readEphemeral_eq_ok_iff rfl).2 ⟨key, h, rfl, rfl⟩
  simp only [readActTwo, hread]
  rfl

/-- Act 2 is accepted only as it is computed. -/
theorem readActTwo_cases (input : Bytes) :
    (∃ error, readActTwo ⟨i, remote, .actOneSent (one remote e).closing.transcript e⟩ input =
      ⟨.error error, ⟨i, remote, .failed⟩, [.failed .initiator (.read .two) error]⟩) ∨
    ∃ key re, ofCompressed? key = some re ∧ input = (two remote e key re).bytes := by
  cases hread : (one remote e).closing.transcript.readEphemeral .two e.secret input with
  | error error =>
      refine .inl ⟨error, ?_⟩
      simp only [readActTwo, hread]
      rfl
  | ok read =>
      obtain ⟨re, t⟩ := read
      obtain ⟨key, hkey, hinput, -⟩ := (Transcript.readEphemeral_eq_ok_iff rfl).1 hread
      exact .inr ⟨key, re, hkey, hinput⟩

theorem writeActThree_eq :
    writeActThree ⟨i, remote, .actTwoReceived (two remote e key re).closing.transcript e re⟩ =
      ⟨.ok ((three i remote e key re).bytes, (three i remote e key re).channel .initiator),
        ⟨i, remote, .complete⟩, [.advanced .initiator .actTwoReceived .complete]⟩ := by
  have hwrite := Transcript.writeStatic_eq (t := (two remote e key re).closing.transcript) rfl i re
  simp only [writeActThree, hwrite]
  rfl

/-- An initiator that holds an accepted act 2: its hash, and act 3 with its channel. -/
structure Answered (i : KeyPair) (remote : PublicKey) (e : KeyPair) (key : Bytes) (re : PublicKey)
    (p : Initiator) : Prop where
  point : ofCompressed? key = some re
  stage : p.stage = .actTwoReceived
  hash : p.handshakeHash = .ok (two remote e key re).closing.after
  last : p.writeActThree.result = .ok ((three i remote e key re).bytes,
    (three i remote e key re).channel .initiator)

theorem answered_of_two (h : ofCompressed? key = some re) :
    Answered i remote e key re
      ⟨i, remote, .actTwoReceived (two remote e key re).closing.transcript e re⟩ :=
  ⟨h, rfl, rfl, by rw [writeActThree_eq]⟩

theorem answered_of_readActTwo {input : Bytes} :
    let out := readActTwo ⟨i, remote, .actOneSent (one remote e).closing.transcript e⟩ input
    out.result = .ok () → ∃ key re, input = (two remote e key re).bytes ∧
      Answered i remote e key re out.state := by
  intro out haccepted
  rcases readActTwo_cases i remote e input with ⟨error, hread⟩ | ⟨key, re, hkey, rfl⟩
  · rw [show out = _ from hread] at haccepted
    cases haccepted
  · refine ⟨key, re, rfl, ?_⟩
    rw [show out = _ from readActTwo_eq i remote e hkey]
    exact answered_of_two i remote e hkey

end Initiator

namespace Responder

def one (r : KeyPair) (key : Bytes) (re : PublicKey) : EphemeralAct :=
  .first r.pub key (r.secret.agree re)

def two (r e : KeyPair) (key : Bytes) (re : PublicKey) : EphemeralAct :=
  (one r key re).next e.pub.compress.val (e.secret.agree re)

def three (r e : KeyPair) (key : Bytes) (re : PublicKey) (identity : Bytes) (rs : PublicKey) :
    StaticAct :=
  (two r e key re).last identity (e.secret.agree rs)

variable (r e : KeyPair) {key identity : Bytes} {re rs : PublicKey}

theorem readActOne_eq (h : ofCompressed? key = some re) :
    (start r e).readActOne (one r key re).bytes =
      ⟨.ok (), ⟨r, .actOneReceived (one r key re).closing.transcript e re⟩,
        [.advanced .responder .initialized .actOneReceived]⟩ := by
  have hread : (Transcript.opening r.pub).readEphemeral .one r.secret (one r key re).bytes =
      .ok (re, (one r key re).closing.transcript) := by
    rw [Transcript.opening_eq]
    exact (Transcript.readEphemeral_eq_ok_iff rfl).2 ⟨key, h, rfl, rfl⟩
  simp only [readActOne, start, hread]
  rfl

/-- Act 1 is accepted only as it is computed. -/
theorem readActOne_cases (input : Bytes) :
    (∃ error, (start r e).readActOne input =
      ⟨.error error, ⟨r, .failed⟩, [.failed .responder (.read .one) error]⟩) ∨
    ∃ key re, ofCompressed? key = some re ∧ input = (one r key re).bytes := by
  cases hread : (Transcript.opening r.pub).readEphemeral .one r.secret input with
  | error error =>
      refine .inl ⟨error, ?_⟩
      simp only [readActOne, start, hread]
      rfl
  | ok read =>
      obtain ⟨re, t⟩ := read
      rw [Transcript.opening_eq] at hread
      obtain ⟨key, hkey, hinput, -⟩ := (Transcript.readEphemeral_eq_ok_iff rfl).1 hread
      exact .inr ⟨key, re, hkey, hinput⟩

theorem writeActTwo_eq :
    writeActTwo ⟨r, .actOneReceived (one r key re).closing.transcript e re⟩ =
      ⟨.ok (two r e key re).bytes, ⟨r, .actTwoSent (two r e key re).closing.transcript e re⟩,
        [.advanced .responder .actOneReceived .actTwoSent]⟩ := by
  simp only [writeActTwo, Transcript.writeEphemeral_eq]
  rfl

/-- A responder that holds an accepted act 1: its hash, and act 2. -/
structure Greeted (r e : KeyPair) (key : Bytes) (re : PublicKey) (p : Responder) : Prop where
  point : ofCompressed? key = some re
  stage : p.stage = .actOneReceived
  hash : p.handshakeHash = .ok (one r key re).closing.after
  reply : p.writeActTwo.result = .ok (two r e key re).bytes

theorem greeted_of_one (h : ofCompressed? key = some re) :
    Greeted r e key re ⟨r, .actOneReceived (one r key re).closing.transcript e re⟩ :=
  ⟨h, rfl, rfl, by rw [writeActTwo_eq]⟩

theorem greeted_of_readActOne {input : Bytes} :
    let out := (start r e).readActOne input
    out.result = .ok () → ∃ key re, input = (one r key re).bytes ∧
      Greeted r e key re out.state := by
  intro out haccepted
  rcases readActOne_cases r e input with ⟨error, hread⟩ | ⟨key, re, hkey, rfl⟩
  · rw [show out = _ from hread] at haccepted
    cases haccepted
  · refine ⟨key, re, rfl, ?_⟩
    rw [show out = _ from readActOne_eq r e hkey]
    exact greeted_of_one r e hkey

theorem readActThree_eq (h : ofCompressed? identity = some rs) :
    readActThree ⟨r, .actTwoSent (two r e key re).closing.transcript e re⟩
        (three r e key re identity rs).bytes =
      ⟨.ok ((three r e key re identity rs).channel .responder, rs), ⟨r, .complete rs⟩,
        [.advanced .responder .actTwoSent .complete]⟩ := by
  have hread : (two r e key re).closing.transcript.readStatic e.secret
      (three r e key re identity rs).bytes =
      .ok (rs, (three r e key re identity rs).closing.transcript) :=
    (Transcript.readStatic_eq_ok_iff rfl).2 ⟨identity, h, rfl, rfl⟩
  simp only [readActThree, hread]
  rfl

/-- Act 3 is accepted only as it is computed. -/
theorem readActThree_cases (key : Bytes) (re : PublicKey) (input : Bytes) :
    (∃ error, readActThree ⟨r, .actTwoSent (two r e key re).closing.transcript e re⟩ input =
      ⟨.error error, ⟨r, .failed⟩, [.failed .responder (.read .three) error]⟩) ∨
    ∃ identity rs, ofCompressed? identity = some rs ∧
      input = (three r e key re identity rs).bytes := by
  cases hread : (two r e key re).closing.transcript.readStatic e.secret input with
  | error error =>
      refine .inl ⟨error, ?_⟩
      simp only [readActThree, hread]
      rfl
  | ok read =>
      obtain ⟨rs, t⟩ := read
      obtain ⟨identity, hidentity, hinput, -⟩ := (Transcript.readStatic_eq_ok_iff rfl).1 hread
      exact .inr ⟨identity, rs, hidentity, hinput⟩

theorem given_of_readActThree {input : Bytes} {given : Channel × PublicKey}
    (hgiven : (readActThree ⟨r, .actTwoSent (two r e key re).closing.transcript e re⟩
      input).result = .ok given) :
    ∃ identity rs, ofCompressed? identity = some rs ∧
      input = (three r e key re identity rs).bytes ∧
      given = ((three r e key re identity rs).channel .responder, rs) := by
  rcases readActThree_cases r e key re input with ⟨error, hread⟩ | ⟨identity, rs, hidentity, rfl⟩
  · rw [hread] at hgiven
    cases hgiven
  · rw [readActThree_eq r e hidentity] at hgiven
    exact ⟨identity, rs, hidentity, rfl, (Except.ok.inj hgiven).symm⟩

end Responder

/-! ## What can have happened to a party -/

/-- An initiator, the acts that it has written and accepted, and its channel. -/
inductive Initiates (i : KeyPair) (remote : PublicKey) (e : KeyPair) :
    Initiator → Option Bytes → Option Bytes → Option (Bytes × Channel) → Prop
  | opened :
      Initiates i remote e (.start i remote e) none none none
  | oneWritten :
      Initiates i remote e ⟨i, remote, .actOneSent (Initiator.one remote e).closing.transcript e⟩
        (some (Initiator.one remote e).bytes) none none
  | twoRead {key re} :
      ofCompressed? key = some re →
      Initiates i remote e
        ⟨i, remote, .actTwoReceived (Initiator.two remote e key re).closing.transcript e re⟩
        (some (Initiator.one remote e).bytes) (some (Initiator.two remote e key re).bytes) none
  | threeWritten {key re} :
      ofCompressed? key = some re →
      Initiates i remote e ⟨i, remote, .complete⟩
        (some (Initiator.one remote e).bytes) (some (Initiator.two remote e key re).bytes)
        (some ((Initiator.three i remote e key re).bytes,
          (Initiator.three i remote e key re).channel .initiator))
  | failed :
      Initiates i remote e ⟨i, remote, .failed⟩ (some (Initiator.one remote e).bytes) none none

/-- A responder, the acts that it has accepted and written, and its channel
with the key that act 3 has proved. -/
inductive Responds (r e : KeyPair) :
    Responder → Option Bytes → Option Bytes → Option Bytes → Option (Channel × PublicKey) → Prop
  | opened :
      Responds r e (.start r e) none none none none
  | oneRead {key re} :
      ofCompressed? key = some re →
      Responds r e ⟨r, .actOneReceived (Responder.one r key re).closing.transcript e re⟩
        (some (Responder.one r key re).bytes) none none none
  | twoWritten {key re} :
      ofCompressed? key = some re →
      Responds r e ⟨r, .actTwoSent (Responder.two r e key re).closing.transcript e re⟩
        (some (Responder.one r key re).bytes) (some (Responder.two r e key re).bytes) none none
  | threeRead {key re identity rs} :
      ofCompressed? key = some re → ofCompressed? identity = some rs →
      Responds r e ⟨r, .complete rs⟩
        (some (Responder.one r key re).bytes) (some (Responder.two r e key re).bytes)
        (some (Responder.three r e key re identity rs).bytes)
        (some ((Responder.three r e key re identity rs).channel .responder, rs))
  | failedFirst :
      Responds r e ⟨r, .failed⟩ none none none none
  | failedLast {key re} :
      ofCompressed? key = some re →
      Responds r e ⟨r, .failed⟩
        (some (Responder.one r key re).bytes) (some (Responder.two r e key re).bytes) none none

/-- An act that was accepted, or what was accepted before. -/
def Outcome.accepted {σ α : Type} (out : Outcome σ α) (input : Bytes) (before : Option Bytes) :
    Option Bytes :=
  match out.result with
  | .ok _ => some input
  | .error _ => before

/-! ## One call on a party -/

namespace Initiates

variable {i e : KeyPair} {remote : PublicKey} {p : Initiator} {one two : Option Bytes}
variable {three : Option (Bytes × Channel)}

theorem writeActOne (h : Initiates i remote e p one two three) :
    Initiates i remote e p.writeActOne.state (p.writeActOne.latest one) two three := by
  cases h with
  | opened =>
      rw [Initiator.writeActOne_eq]
      exact .oneWritten
  | oneWritten => exact .oneWritten
  | twoRead hkey => exact .twoRead hkey
  | threeWritten hkey => exact .threeWritten hkey
  | failed => exact .failed

theorem readActTwo (h : Initiates i remote e p one two three) (input : Bytes) :
    Initiates i remote e (p.readActTwo input).state one ((p.readActTwo input).accepted input two)
      three := by
  cases h with
  | oneWritten =>
      rcases Initiator.readActTwo_cases i remote e input with
        ⟨error, hread⟩ | ⟨key, re, hkey, rfl⟩
      · rw [hread]
        exact .failed
      · rw [Initiator.readActTwo_eq i remote e hkey]
        exact .twoRead hkey
  | opened => exact .opened
  | twoRead hkey => exact .twoRead hkey
  | threeWritten hkey => exact .threeWritten hkey
  | failed => exact .failed

theorem writeActThree (h : Initiates i remote e p one two three) :
    Initiates i remote e p.writeActThree.state one two (p.writeActThree.latest three) := by
  cases h with
  | @twoRead key re hkey =>
      rw [Initiator.writeActThree_eq]
      exact .threeWritten hkey
  | opened => exact .opened
  | oneWritten => exact .oneWritten
  | threeWritten hkey => exact .threeWritten hkey
  | failed => exact .failed

end Initiates

namespace Responds

variable {r e : KeyPair} {p : Responder} {one two three : Option Bytes}
variable {proved : Option (Channel × PublicKey)}

theorem readActOne (h : Responds r e p one two three proved) (input : Bytes) :
    Responds r e (p.readActOne input).state ((p.readActOne input).accepted input one) two three
      proved := by
  cases h with
  | opened =>
      rcases Responder.readActOne_cases r e input with ⟨error, hread⟩ | ⟨key, re, hkey, rfl⟩
      · rw [hread]
        exact .failedFirst
      · rw [Responder.readActOne_eq r e hkey]
        exact .oneRead hkey
  | oneRead hkey => exact .oneRead hkey
  | twoWritten hkey => exact .twoWritten hkey
  | threeRead hkey hidentity => exact .threeRead hkey hidentity
  | failedFirst => exact .failedFirst
  | failedLast hkey => exact .failedLast hkey

theorem writeActTwo (h : Responds r e p one two three proved) :
    Responds r e p.writeActTwo.state one (p.writeActTwo.latest two) three proved := by
  cases h with
  | oneRead hkey =>
      rw [Responder.writeActTwo_eq]
      exact .twoWritten hkey
  | opened => exact .opened
  | twoWritten hkey => exact .twoWritten hkey
  | threeRead hkey hidentity => exact .threeRead hkey hidentity
  | failedFirst => exact .failedFirst
  | failedLast hkey => exact .failedLast hkey

theorem readActThree (h : Responds r e p one two three proved) (input : Bytes) :
    Responds r e (p.readActThree input).state one two ((p.readActThree input).accepted input three)
      ((p.readActThree input).latest proved) := by
  cases h with
  | @twoWritten key re hkey =>
      rcases Responder.readActThree_cases r e key re input with
        ⟨error, hread⟩ | ⟨identity, rs, hidentity, rfl⟩
      · rw [hread]
        exact .failedLast hkey
      · rw [Responder.readActThree_eq r e hidentity]
        exact .threeRead hkey hidentity
  | opened => exact .opened
  | oneRead hkey => exact .oneRead hkey
  | threeRead hkey hidentity => exact .threeRead hkey hidentity
  | failedFirst => exact .failedFirst
  | failedLast hkey => exact .failedLast hkey

end Responds

/-! ## Any calls on both -/

structure Exchange where
  session : Session
  /-- The act 1 that the responder has accepted. -/
  oneRead : Option Bytes
  /-- The act 2 that the initiator has accepted. -/
  twoRead : Option Bytes
  /-- The act 3 that the responder has accepted. -/
  threeRead : Option Bytes

namespace Exchange

/-- Nothing says that the initiator looks for this responder. -/
def start (i : KeyPair) (remote : PublicKey) (e r e' : KeyPair) : Exchange :=
  ⟨⟨.start i remote e, .start r e', none, none, none, none⟩, none, none, none⟩

def initiator (s : Exchange) : Initiator := s.session.initiator

def responder (s : Exchange) : Responder := s.session.responder

def after (s : Exchange) (c : Call) : Exchange :=
  let out := s.session.call c
  match c with
  | .readActOne input => { s with session := out.state, oneRead := out.accepted input s.oneRead }
  | .readActTwo input => { s with session := out.state, twoRead := out.accepted input s.twoRead }
  | .readActThree input =>
    { s with session := out.state, threeRead := out.accepted input s.threeRead }
  | .writeActOne | .writeActTwo | .writeActThree => { s with session := out.state }

/-- The exchange after a sequence of calls. -/
def run (s : Exchange) (calls : List Call) : Exchange := calls.foldl after s

theorem run_append (s : Exchange) (calls later : List Call) :
    s.run (calls ++ later) = (s.run calls).run later :=
  List.foldl_append

/-- What each party has done by itself. -/
structure Course (i : KeyPair) (remote : PublicKey) (e r e' : KeyPair) (s : Exchange) : Prop where
  initiates : Initiates i remote e s.initiator s.session.actOne s.twoRead s.session.actThree
  responds : Responds r e' s.responder s.oneRead s.session.actTwo s.threeRead s.session.accepted

variable {i e r e' : KeyPair} {remote : PublicKey} {s : Exchange}

theorem course_after (h : s.Course i remote e r e') (c : Call) :
    (s.after c).Course i remote e r e' := by
  obtain ⟨hi, hr⟩ := h
  cases c with
  | writeActOne => exact ⟨hi.writeActOne, hr⟩
  | readActOne input => exact ⟨hi, hr.readActOne input⟩
  | writeActTwo => exact ⟨hi, hr.writeActTwo⟩
  | readActTwo input => exact ⟨hi.readActTwo input, hr⟩
  | writeActThree => exact ⟨hi.writeActThree, hr⟩
  | readActThree input =>
      have haccepted : ((s.session.call (.readActThree input)).accepted input s.threeRead) =
          (s.responder.readActThree input).accepted input s.threeRead := by
        simp only [Session.call, Outcome.accepted, responder]
        cases (s.session.responder.readActThree input).result <;> rfl
      refine ⟨hi, ?_⟩
      simp only [after, haccepted]
      exact hr.readActThree input

theorem course_run (i : KeyPair) (remote : PublicKey) (e r e' : KeyPair) (calls : List Call) :
    ((start i remote e r e').run calls).Course i remote e r e' := by
  induction calls using List.reverseRecOn with
  | nil =>
      exact ⟨.opened, .opened⟩
  | append_singleton calls c ih =>
      rw [run_append]
      exact course_after ih c

/-! ## Parties that look for each other -/

theorem one_comm (e r : KeyPair) :
    Initiator.one r.pub e = Responder.one r e.pub.compress.val e.pub := by
  rw [Initiator.one, Responder.one, KeyPair.agree_comm]

theorem two_comm (e r e' : KeyPair) :
    Initiator.two r.pub e e'.pub.compress.val e'.pub =
      Responder.two r e' e.pub.compress.val e.pub := by
  rw [Initiator.two, Responder.two, one_comm, KeyPair.agree_comm]

theorem three_comm (i e r e' : KeyPair) :
    Initiator.three i r.pub e e'.pub.compress.val e'.pub =
      Responder.three r e' e.pub.compress.val e.pub i.pub.compress.val i.pub := by
  rw [Initiator.three, Responder.three, two_comm, KeyPair.agree_comm]

theorem ofCompressed?_pub (p : KeyPair) : ofCompressed? p.pub.compress.val = some p.pub :=
  PublicKey.read_eq_ok_iff.1 p.read_compress

/-- Acts 1 and 2, delivered as they were written but for act 2. -/
def greeting (e r : KeyPair) : List Call :=
  [.writeActOne, .readActOne (Initiator.one r.pub e).bytes, .writeActTwo]

theorem run_greeting (i e r e' : KeyPair) :
    (start i r.pub e r e').run (greeting e r) =
      ⟨⟨⟨i, r.pub, .actOneSent (Initiator.one r.pub e).closing.transcript e⟩,
          ⟨r,
            .actTwoSent (Responder.two r e' e.pub.compress.val e.pub).closing.transcript e' e.pub⟩,
          some (Initiator.one r.pub e).bytes,
          some (Responder.two r e' e.pub.compress.val e.pub).bytes, none, none⟩,
        some (Initiator.one r.pub e).bytes, none, none⟩ := by
  have hread := Responder.readActOne_eq r e' (ofCompressed?_pub e)
  rw [← one_comm] at hread
  simp only [run, greeting, List.foldl, after, start, Session.call, Initiator.writeActOne_eq]
  rw [hread]
  simp only [Outcome.latest, Outcome.accepted, one_comm, Responder.writeActTwo_eq]

/-- Act 2, delivered as it was written, and act 3 likewise. -/
def introduction (i e r e' : KeyPair) : List Call :=
  [.readActTwo (Responder.two r e' e.pub.compress.val e.pub).bytes, .writeActThree,
    .readActThree (Initiator.three i r.pub e e'.pub.compress.val e'.pub).bytes]

theorem run_answer (i e r e' : KeyPair) :
    (start i r.pub e r e').run (greeting e r ++
        [.readActTwo (Responder.two r e' e.pub.compress.val e.pub).bytes]) =
      ⟨⟨⟨i, r.pub,
            .actTwoReceived (Responder.two r e' e.pub.compress.val e.pub).closing.transcript e
              e'.pub⟩,
          ⟨r,
            .actTwoSent (Responder.two r e' e.pub.compress.val e.pub).closing.transcript e' e.pub⟩,
          some (Initiator.one r.pub e).bytes,
          some (Responder.two r e' e.pub.compress.val e.pub).bytes, none, none⟩,
        some (Initiator.one r.pub e).bytes,
        some (Responder.two r e' e.pub.compress.val e.pub).bytes, none⟩ := by
  have htwo := Initiator.readActTwo_eq i r.pub e (ofCompressed?_pub e')
  rw [two_comm] at htwo
  rw [run_append, run_greeting]
  simp only [run, List.foldl, after, Session.call]
  rw [htwo]
  rfl

theorem run_introduction (i e r e' : KeyPair) :
    (start i r.pub e r e').run (greeting e r ++ introduction i e r e') =
      ⟨⟨⟨i, r.pub, .complete⟩, ⟨r, .complete i.pub⟩,
          some (Initiator.one r.pub e).bytes,
          some (Responder.two r e' e.pub.compress.val e.pub).bytes,
          some ((Initiator.three i r.pub e e'.pub.compress.val e'.pub).bytes,
            (Initiator.three i r.pub e e'.pub.compress.val e'.pub).channel .initiator),
          some ((Initiator.three i r.pub e e'.pub.compress.val e'.pub).channel .responder, i.pub)⟩,
        some (Initiator.one r.pub e).bytes,
        some (Responder.two r e' e.pub.compress.val e.pub).bytes,
        some (Initiator.three i r.pub e e'.pub.compress.val e'.pub).bytes⟩ := by
  have hthree := @Responder.readActThree_eq r e' e.pub.compress.val i.pub.compress.val e.pub i.pub
    (ofCompressed?_pub i)
  rw [← three_comm] at hthree
  have hanswer : greeting e r ++ introduction i e r e' =
      greeting e r ++ [.readActTwo (Responder.two r e' e.pub.compress.val e.pub).bytes] ++
        [.writeActThree,
          .readActThree (Initiator.three i r.pub e e'.pub.compress.val e'.pub).bytes] := by
    rw [List.append_assoc]
    rfl
  rw [hanswer, run_append, run_answer, ← two_comm]
  simp only [run, List.foldl, after, Session.call, Initiator.writeActThree_eq]
  rw [two_comm, hthree]
  rfl

/-! ## What is written and what the keys are -/

/-- At each stage of the initiator, what it has written and accepted, what its hash is,
and what comes of its next call. -/
structure InitiatorComputed (i : KeyPair) (remote : PublicKey) (e : KeyPair) (s : Exchange) :
    Prop where
  initialized : s.initiator.stage = .initialized →
    s.session.actOne = none ∧ s.twoRead = none ∧ s.session.actThree = none ∧
    s.initiator.writeActOne.result = .ok (Initiator.one remote e).bytes
  actOneSent : s.initiator.stage = .actOneSent →
    s.session.actOne = some (Initiator.one remote e).bytes ∧ s.twoRead = none ∧
    s.session.actThree = none ∧
    s.initiator.handshakeHash = .ok (Initiator.one remote e).closing.after ∧
    ∀ input, (s.initiator.readActTwo input).result = .ok () → ∃ key re,
      input = (Initiator.two remote e key re).bytes ∧
      Initiator.Answered i remote e key re (s.initiator.readActTwo input).state
  actTwoReceived : s.initiator.stage = .actTwoReceived →
    s.session.actOne = some (Initiator.one remote e).bytes ∧ s.session.actThree = none ∧
    ∃ key re, s.twoRead = some (Initiator.two remote e key re).bytes ∧
      Initiator.Answered i remote e key re s.initiator
  complete : s.initiator.stage = .complete →
    s.session.actOne = some (Initiator.one remote e).bytes ∧
    ∃ key re, ofCompressed? key = some re ∧
      s.twoRead = some (Initiator.two remote e key re).bytes ∧
      s.session.actThree = some ((Initiator.three i remote e key re).bytes,
        (Initiator.three i remote e key re).channel .initiator)
  failed : s.initiator.stage = .failed →
    s.session.actOne = some (Initiator.one remote e).bytes ∧ s.twoRead = none ∧
    s.session.actThree = none
  never : s.initiator.stage ≠ .actOneReceived ∧ s.initiator.stage ≠ .actTwoSent

/-- At each stage of the responder, what it has accepted and written, what its hash is,
and what comes of its next call. -/
structure ResponderComputed (r e : KeyPair) (s : Exchange) : Prop where
  initialized : s.responder.stage = .initialized →
    s.oneRead = none ∧ s.session.actTwo = none ∧ s.threeRead = none ∧
    s.session.accepted = none ∧
    ∀ input, (s.responder.readActOne input).result = .ok () → ∃ key re,
      input = (Responder.one r key re).bytes ∧
      Responder.Greeted r e key re (s.responder.readActOne input).state
  actOneReceived : s.responder.stage = .actOneReceived →
    s.session.actTwo = none ∧ s.threeRead = none ∧ s.session.accepted = none ∧
    ∃ key re, s.oneRead = some (Responder.one r key re).bytes ∧
      Responder.Greeted r e key re s.responder
  actTwoSent : s.responder.stage = .actTwoSent →
    s.threeRead = none ∧ s.session.accepted = none ∧
    ∃ key re, ofCompressed? key = some re ∧
      s.oneRead = some (Responder.one r key re).bytes ∧
      s.session.actTwo = some (Responder.two r e key re).bytes ∧
      s.responder.handshakeHash = .ok (Responder.two r e key re).closing.after ∧
      ∀ input given, (s.responder.readActThree input).result = .ok given → ∃ identity rs,
        ofCompressed? identity = some rs ∧
        input = (Responder.three r e key re identity rs).bytes ∧
        given = ((Responder.three r e key re identity rs).channel .responder, rs)
  complete : s.responder.stage = .complete →
    ∃ key re identity rs, ofCompressed? key = some re ∧ ofCompressed? identity = some rs ∧
      s.oneRead = some (Responder.one r key re).bytes ∧
      s.session.actTwo = some (Responder.two r e key re).bytes ∧
      s.threeRead = some (Responder.three r e key re identity rs).bytes ∧
      s.session.accepted =
        some ((Responder.three r e key re identity rs).channel .responder, rs)
  failed : s.responder.stage = .failed →
    s.threeRead = none ∧ s.session.accepted = none ∧
    (s.oneRead = none ∧ s.session.actTwo = none ∨ ∃ key re, ofCompressed? key = some re ∧
      s.oneRead = some (Responder.one r key re).bytes ∧
      s.session.actTwo = some (Responder.two r e key re).bytes)
  never : s.responder.stage ≠ .actOneSent ∧ s.responder.stage ≠ .actTwoReceived

theorem initiatorComputed_of_course (h : s.Course i remote e r e') :
    s.InitiatorComputed i remote e := by
  obtain ⟨hi, -⟩ := h
  obtain ⟨⟨p, q, _, _, _, accepted⟩, _, _, _⟩ := s
  simp only [initiator] at hi
  cases hi with
  | opened =>
      refine ⟨fun _ => ⟨rfl, rfl, rfl, ?_⟩, nofun, nofun, nofun, nofun, nofun, nofun⟩
      rw [initiator, Initiator.writeActOne_eq]
  | oneWritten =>
      refine ⟨nofun, fun _ => ⟨rfl, rfl, rfl, rfl, ?_⟩, nofun, nofun, nofun, nofun, nofun⟩
      exact fun _ => Initiator.answered_of_readActTwo i remote e
  | @twoRead key re hkey =>
      refine ⟨nofun, nofun, fun _ => ⟨rfl, rfl, key, re, rfl, ?_⟩, nofun, nofun, nofun, nofun⟩
      exact Initiator.answered_of_two i remote e hkey
  | @threeWritten key re hkey =>
      exact ⟨nofun, nofun, nofun, fun _ => ⟨rfl, key, re, hkey, rfl, rfl⟩, nofun, nofun, nofun⟩
  | failed =>
      exact ⟨nofun, nofun, nofun, nofun, fun _ => ⟨rfl, rfl, rfl⟩, nofun, nofun⟩

theorem responderComputed_of_course (h : s.Course i remote e r e') :
    s.ResponderComputed r e' := by
  obtain ⟨-, hr⟩ := h
  obtain ⟨⟨p, q, _, _, _, accepted⟩, _, _, _⟩ := s
  simp only [responder] at hr
  cases hr with
  | opened =>
      refine ⟨fun _ => ⟨rfl, rfl, rfl, rfl, ?_⟩, nofun, nofun, nofun, nofun, nofun, nofun⟩
      exact fun _ => Responder.greeted_of_readActOne r e'
  | @oneRead key re hkey =>
      refine ⟨nofun, fun _ => ⟨rfl, rfl, rfl, key, re, rfl, ?_⟩, nofun, nofun, nofun, nofun, nofun⟩
      exact Responder.greeted_of_one r e' hkey
  | @twoWritten key re hkey =>
      refine ⟨nofun, nofun, fun _ => ⟨rfl, rfl, key, re, hkey, rfl, rfl, rfl, ?_⟩, nofun, nofun,
        nofun, nofun⟩
      exact fun _ _ => Responder.given_of_readActThree r e'
  | @threeRead key re identity rs hkey hidentity =>
      refine ⟨nofun, nofun, nofun, fun _ => ?_, nofun, nofun, nofun⟩
      exact ⟨key, re, identity, rs, hkey, hidentity, rfl, rfl, rfl, rfl⟩
  | failedFirst =>
      exact ⟨nofun, nofun, nofun, nofun, fun _ => ⟨rfl, rfl, .inl ⟨rfl, rfl⟩⟩, nofun, nofun⟩
  | @failedLast key re hkey =>
      refine ⟨nofun, nofun, nofun, nofun, fun _ => ⟨rfl, rfl, .inr ?_⟩, nofun, nofun⟩
      exact ⟨key, re, hkey, rfl, rfl⟩

/-- Whatever is called and over any wire: what is written, what is accepted, the hashes and
the channels are those computed. -/
theorem acts_computed (i : KeyPair) (remote : PublicKey) (e r e' : KeyPair) (calls : List Call) :
    let s := (start i remote e r e').run calls
    s.InitiatorComputed i remote e ∧ s.ResponderComputed r e' :=
  ⟨initiatorComputed_of_course (course_run i remote e r e' calls),
    responderComputed_of_course (course_run i remote e r e' calls)⟩

/-- Before act 2 is read, after it, and at the end. -/
theorem acts_computed_of_delivery :
    let i := KeyPair.ofSecret ⟨1, by decide, by decide⟩
    let e := KeyPair.ofSecret ⟨2, by decide, by decide⟩
    let r := KeyPair.ofSecret ⟨3, by decide, by decide⟩
    let e' := KeyPair.ofSecret ⟨4, by decide, by decide⟩
    let answer := Responder.two r e' e.pub.compress.val e.pub
    let greeted := (start i r.pub e r e').run (greeting e r)
    let answered := (start i r.pub e r e').run (greeting e r ++ [.readActTwo answer.bytes])
    let done := (start i r.pub e r e').run (greeting e r ++ introduction i e r e')
    (greeted.initiator.stage = .actOneSent ∧
      greeted.initiator.handshakeHash = .ok (Initiator.one r.pub e).closing.after ∧
      greeted.responder.stage = .actTwoSent ∧ ∃ key re, ofCompressed? key = some re ∧
        greeted.session.actTwo = some (Responder.two r e' key re).bytes ∧
        greeted.responder.handshakeHash = .ok (Responder.two r e' key re).closing.after) ∧
    (answered.initiator.stage = .actTwoReceived ∧ ∃ key re,
      answered.twoRead = some (Initiator.two r.pub e key re).bytes ∧
      Initiator.Answered i r.pub e key re answered.initiator) ∧
    (done.initiator.stage = .complete ∧ ∃ key re, ofCompressed? key = some re ∧
      done.twoRead = some (Initiator.two r.pub e key re).bytes ∧
      done.session.actThree = some ((Initiator.three i r.pub e key re).bytes,
        (Initiator.three i r.pub e key re).channel .initiator)) ∧
    done.responder.stage = .complete ∧ ∃ key re identity rs, ofCompressed? key = some re ∧
      ofCompressed? identity = some rs ∧
      done.threeRead = some (Responder.three r e' key re identity rs).bytes ∧
      done.session.accepted =
        some ((Responder.three r e' key re identity rs).channel .responder, rs) := by
  intro i e r e' answer greeted answered done
  -- the keys are not computed: what the acts are for any keys is enough
  clear_value i e r e'
  have hgreeted : greeted = _ := run_greeting i e r e'
  have hanswered : answered = _ := run_answer i e r e'
  have hdone : done = _ := run_introduction i e r e'
  obtain ⟨hfirst, hreply⟩ : greeted.InitiatorComputed i r.pub e ∧ greeted.ResponderComputed r e' :=
    acts_computed i r.pub e r e' _
  obtain ⟨hsecond, -⟩ : answered.InitiatorComputed i r.pub e ∧ answered.ResponderComputed r e' :=
    acts_computed i r.pub e r e' _
  obtain ⟨hthird, hlast⟩ : done.InitiatorComputed i r.pub e ∧ done.ResponderComputed r e' :=
    acts_computed i r.pub e r e' _
  have hsent : greeted.initiator.stage = .actOneSent := by rw [hgreeted]; rfl
  have hreplied : greeted.responder.stage = .actTwoSent := by rw [hgreeted]; rfl
  have hreceived : answered.initiator.stage = .actTwoReceived := by rw [hanswered]; rfl
  have hours : done.initiator.stage = .complete := by rw [hdone]; rfl
  have htheirs : done.responder.stage = .complete := by rw [hdone]; rfl
  obtain ⟨-, -, -, hhash, -⟩ := hfirst.actOneSent hsent
  obtain ⟨-, -, key, re, hkey, -, hwritten, hhash', -⟩ := hreply.actTwoSent hreplied
  obtain ⟨-, -, hanswer⟩ := hsecond.actTwoReceived hreceived
  obtain ⟨-, hthird⟩ := hthird.complete hours
  obtain ⟨key', re', identity, rs, hkey', hidentity, -, -, hread, haccepted⟩ :=
    hlast.complete htheirs
  exact ⟨⟨hsent, hhash, hreplied, key, re, hkey, hwritten, hhash'⟩, ⟨hreceived, hanswer⟩,
    ⟨hours, hthird⟩, htheirs, key', re', identity, rs, hkey', hidentity, hread, haccepted⟩

end Exchange

end Bolt8
