import Bolt8.Proofs.Handshake.Calls
import Bolt8.Proofs.Ledger

/-!
# The acts as programs

Each act is a program on the transcript, and running the program is the act. So
the ledger of a handshake can be kept call by call: `Booked` is what it has in
its books at each stage, whatever was called.
-/

namespace Bolt8

open Transcript (Op)

namespace Program

variable (ephemeral identity : KeyPair) (remote : PublicKey) (act : Act) (own : SecretKey)
variable (input : Bytes)

def writeEphemeral : Program Bytes :=
  let key := ephemeral.pub.compress.val
  .ask (.mixHash key) fun _ =>
  .ask (.mixKey (ephemeral.secret.agree remote).digest.val) fun _ =>
  .ask (.encrypt []) fun tag =>
  .done (.ok (handshakeVersion :: key ++ tag))

def readEphemeral : Program PublicKey :=
  match act.content input with
  | .error error => .done (.error error)
  | .ok content =>
    match PublicKey.read (content.take Curve.compressedSize) with
    | .error error => .done (.error error)
    | .ok remote =>
      .ask (.mixHash (content.take Curve.compressedSize)) fun _ =>
      .ask (.mixKey (own.agree remote).digest.val) fun _ =>
      .ask (.decrypt (content.drop Curve.compressedSize)) fun _ =>
      .done (.ok remote)

def writeStatic : Program Bytes :=
  .ask (.encrypt identity.pub.compress.val) fun sealed =>
  .ask (.mixKey (identity.secret.agree remote).digest.val) fun _ =>
  .ask (.encrypt []) fun tag =>
  .done (.ok (handshakeVersion :: sealed ++ tag))

def readStatic : Program PublicKey :=
  match Act.three.content input with
  | .error error => .done (.error error)
  | .ok content =>
    .ask (.decrypt (content.take (Curve.compressedSize + Aead.tagSize))) fun key =>
    match PublicKey.read key with
    | .error error => .done (.error error)
    | .ok remote =>
      .ask (.mixKey (own.agree remote).digest.val) fun _ =>
      .ask (.decrypt (content.drop (Curve.compressedSize + Aead.tagSize))) fun _ =>
      .done (.ok remote)

variable (t : Transcript)

theorem run_writeEphemeral :
    (writeEphemeral ephemeral remote).run t = t.writeEphemeral ephemeral remote := rfl

theorem run_readEphemeral :
    (readEphemeral act own input).run t = t.readEphemeral act own input := by
  simp only [readEphemeral, Transcript.readEphemeral]
  cases act.content input with
  | error _ => rfl
  | ok content =>
      simp only [bind, Except.bind]
      cases PublicKey.read (content.take Curve.compressedSize) <;> rfl

theorem run_writeStatic :
    (writeStatic identity remote).run t = t.writeStatic identity remote := rfl

theorem run_readStatic : (readStatic own input).run t = t.readStatic own input := by
  simp only [readStatic, Transcript.readStatic]
  cases Act.three.content input with
  | error _ => rfl
  | ok content =>
      simp only [run, Transcript.perform, bind, Except.bind]
      cases t.decryptAndHash (content.take (Curve.compressedSize + Aead.tagSize)) with
      | error _ => rfl
      | ok opened =>
          simp only
          cases PublicKey.read opened.1 <;> rfl

end Program

/-! ## What an act leaves in the books -/

/-- The tag that closes an act, under the key of this number. -/
def Closing.tagSealing (c : Closing) (number : ℕ) : Sealing :=
  ⟨.temporary number, c.derived.second, 0, c.hash.val, []⟩

/-- The identity in act 3, under the key of this number. -/
def StaticAct.identitySealing (a : StaticAct) (number : ℕ) : Sealing :=
  ⟨.temporary number, a.sealing, 1, a.hash.val, a.identity⟩

namespace Ledger

variable (l : Ledger) (ephemeral identity : KeyPair) (remote : PublicKey) (act : Act)
variable (own : SecretKey) (input : Bytes)

theorem record_writeEphemeral :
    l.record (.writeEphemeral ephemeral remote) =
      let a := l.transcript.ephemeralAct ephemeral.pub.compress.val (ephemeral.secret.agree remote)
      ⟨a.closing.transcript, l.mixed ++ [a.secret.digest.val],
        l.sealings ++ [a.closing.tagSealing (l.mixed ++ [a.secret.digest.val]).length],
        l.spent ++ [0]⟩ := rfl

theorem record_writeStatic {key : Aead.Key} (h : l.transcript.temp = ⟨some key, 1⟩) :
    l.record (.writeStatic identity remote) =
      let a := l.transcript.staticAct key identity.pub.compress.val (identity.secret.agree remote)
      ⟨a.closing.transcript, l.mixed ++ [a.secret.digest.val],
        l.sealings ++ [a.identitySealing l.mixed.length] ++
          [a.closing.tagSealing (l.mixed ++ [a.secret.digest.val]).length],
        l.spent ++ [1] ++ [0]⟩ := by
  obtain ⟨⟨temp, chainingKey, hash⟩, mixed, sealings, spent⟩ := l
  obtain rfl : temp = ⟨some key, 1⟩ := h
  rfl

/-- The end of an act that is read: a key is mixed in, and a tag checked with it. -/
theorem record_check {α : Type} (l : Ledger) (material sealed : Bytes) (a : α) :
    let p : Program α := .ask (.mixKey material) fun _ => .ask (.decrypt sealed) fun _ =>
      .done (.ok a)
    let l' := l.record p
    l'.sealings = l.sealings ∧
      ((∃ error, p.run l.transcript = .error error) ∧ l'.spent = l.spent ∨
        p.run l.transcript = .ok (a, l'.transcript) ∧
          l'.mixed = l.mixed ++ [material] ∧ l'.spent = l.spent ++ [0]) := by
  simp only [record, Program.run, Transcript.perform, book, bind, Except.bind]
  cases (l.transcript.mixKey material).decryptAndHash sealed with
  | error error => exact ⟨rfl, .inl ⟨⟨error, rfl⟩, rfl⟩⟩
  | ok opened => exact ⟨List.append_nil _, .inr ⟨rfl, rfl, rfl⟩⟩

/-- Reading seals nothing, and uses up a counter value for each text that opens. -/
theorem record_readEphemeral :
    let p := Program.readEphemeral act own input
    let l' := l.record p
    l'.sealings = l.sealings ∧
      ((∃ error, p.run l.transcript = .error error) ∧ l'.spent = l.spent ∨
        ∃ remote, p.run l.transcript = .ok (remote, l'.transcript) ∧
          l'.mixed = l.mixed ++ [(own.agree remote).digest.val] ∧ l'.spent = l.spent ++ [0]) := by
  simp only [Program.readEphemeral]
  cases act.content input with
  | error error => exact ⟨rfl, .inl ⟨⟨error, rfl⟩, rfl⟩⟩
  | ok content =>
      dsimp only
      cases PublicKey.read (content.take Curve.compressedSize) with
      | error error => exact ⟨rfl, .inl ⟨⟨error, rfl⟩, rfl⟩⟩
      | ok remote =>
          obtain ⟨hsealings, hchecked⟩ := record_check
            (l.book (.mixHash (content.take Curve.compressedSize))
              (l.transcript.mixHash (content.take Curve.compressedSize)))
            (own.agree remote).digest.val (content.drop Curve.compressedSize) remote
          exact ⟨hsealings, hchecked.imp_right fun hread => ⟨remote, hread⟩⟩

theorem record_readEphemeral_of_ok {t t' : Transcript} (hl : l.transcript = t)
    (hread : t.readEphemeral act own input = .ok (remote, t')) :
    (l.record (.readEphemeral act own input)).mixed =
      l.mixed ++ [(own.agree remote).digest.val] := by
  subst hl
  rw [← Program.run_readEphemeral] at hread
  rcases (l.record_readEphemeral act own input).2 with ⟨⟨error, herror⟩, -⟩ | ⟨re, hok, hmixed, -⟩
  · cases hread.symm.trans herror
  · obtain ⟨rfl, -⟩ := Prod.mk.inj (Except.ok.inj (hread.symm.trans hok))
    exact hmixed

theorem record_readStatic (h : l.transcript.temp.counter = 1) :
    let p := Program.readStatic own input
    let l' := l.record p
    l'.sealings = l.sealings ∧
      ((∃ error, p.run l.transcript = .error error) ∧
          (l'.spent = l.spent ∨ l'.spent = l.spent ++ [1]) ∨
        ∃ remote, p.run l.transcript = .ok (remote, l'.transcript) ∧
          l'.mixed = l.mixed ++ [(own.agree remote).digest.val] ∧
          l'.spent = l.spent ++ [1] ++ [0]) := by
  simp only [Program.readStatic]
  cases Act.three.content input with
  | error error => exact ⟨rfl, .inl ⟨⟨error, rfl⟩, .inl rfl⟩⟩
  | ok content =>
      simp only [record, Program.run, Transcript.perform, bind, Except.bind]
      cases l.transcript.decryptAndHash (content.take (Curve.compressedSize + Aead.tagSize)) with
      | error error => exact ⟨rfl, .inl ⟨⟨error, rfl⟩, .inl rfl⟩⟩
      | ok opened =>
          obtain ⟨key, t⟩ := opened
          have hbook : l.book (.decrypt (content.take (Curve.compressedSize + Aead.tagSize))) t =
              { l with transcript := t, spent := l.spent ++ [1] } := by
            simp only [book, sealedBy, List.append_nil, h]
          simp only [hbook]
          cases PublicKey.read key with
          | error error => exact ⟨rfl, .inl ⟨⟨error, rfl⟩, .inr rfl⟩⟩
          | ok remote =>
              obtain ⟨hsealings, hchecked⟩ := record_check
                { l with transcript := t, spent := l.spent ++ [1] } (own.agree remote).digest.val
                (content.drop (Curve.compressedSize + Aead.tagSize)) remote
              refine ⟨hsealings, hchecked.imp ?_ fun hread => ⟨remote, hread⟩⟩
              exact And.imp_right .inr

theorem record_readStatic_of_ok {t t' : Transcript} (hl : l.transcript = t)
    (h : t.temp.counter = 1) (hread : t.readStatic own input = .ok (remote, t')) :
    (l.record (.readStatic own input)).mixed = l.mixed ++ [(own.agree remote).digest.val] := by
  subst hl
  rw [← Program.run_readStatic] at hread
  rcases (l.record_readStatic own input h).2 with ⟨⟨error, herror⟩, -⟩ | ⟨rs, hok, hmixed, -⟩
  · cases hread.symm.trans herror
  · obtain ⟨rfl, -⟩ := Prod.mk.inj (Except.ok.inj (hread.symm.trans hok))
    exact hmixed

end Ledger

/-! ## The books of a handshake -/

/-- What was sealed for an output: all of it but its head, and nothing where
there is none. The head holds at most the version and the writer's own key. -/
def Fills (key : Bytes) : Option Bytes → List Sealing → Prop
  | none, new => new = []
  | some bytes, new => ∃ head ∈ [[], [handshakeVersion], handshakeVersion :: key],
    bytes = head ++ (new.map Sealing.bytes).flatten

/-- Where a role has sealed something by the time of a stage. -/
def Role.places : Role → Stage → List (KeyName × UInt64)
  | .initiator, .actOneSent | .initiator, .actTwoReceived => [(.temporary 1, 0)]
  | .initiator, .complete => [(.temporary 1, 0), (.temporary 2, 1), (.temporary 3, 0)]
  | .responder, .actTwoSent | .responder, .complete => [(.temporary 2, 0)]
  | _, _ => []

/-- How many keys have been mixed in by the time of a stage. -/
def Stage.keys : Stage → ℕ
  | .initialized | .failed => 0
  | .actOneSent | .actOneReceived => 1
  | .actTwoSent | .actTwoReceived => 2
  | .complete => 3

namespace Handshake

/-- The ledger after a call, which runs the program of its act if it is in turn. -/
def enter (h : Handshake) (c : Call) (l : Ledger) : Ledger :=
  match h, c with
  | initiator ⟨_, remote, .initialized _ e⟩, ⟨.one, _⟩ => l.record (.writeEphemeral e remote)
  | initiator ⟨_, _, .actOneSent _ e⟩, ⟨.two, input⟩ =>
    l.record (.readEphemeral .two e.secret input)
  | initiator ⟨identity, _, .actTwoReceived _ _ re⟩, ⟨.three, _⟩ =>
    l.record (.writeStatic identity re)
  | responder ⟨identity, .initialized _ _⟩, ⟨.one, input⟩ =>
    l.record (.readEphemeral .one identity.secret input)
  | responder ⟨_, .actOneReceived _ e re⟩, ⟨.two, _⟩ => l.record (.writeEphemeral e re)
  | responder ⟨_, .actTwoSent _ e _⟩, ⟨.three, input⟩ => l.record (.readStatic e.secret input)
  | _, _ => l

theorem enter_of_refused {h : Handshake} {c : Call} {l : Ledger} (hnone : h.next? c.act = none) :
    h.enter c l = l := by
  obtain ⟨act, input⟩ := c
  cases h with
  | initiator i =>
      obtain ⟨identity, remote, phase⟩ := i
      cases phase <;> cases act <;> first | rfl | cases hnone
  | responder r =>
      obtain ⟨identity, phase⟩ := r
      cases phase <;> cases act <;> first | rfl | cases hnone

/-- The ledger of a handshake, at each of its stages. -/
structure Booked (h : Handshake) (l : Ledger) : Prop where
  sound : l.Sound EphemeralAct.origin
  transcript : ∀ t, h.transcript? = some t → l.transcript = t
  mixed : h.stage ≠ .failed → l.mixed.length = h.stage.keys
  /-- A failure comes after one of the other stages. -/
  places : ∃ stage, (h.stage = stage ∨ h.stage = .failed) ∧
    l.sealings.map Sealing.place = h.role.places stage
  spent : ∀ counter ∈ l.spent, counter = 0 ∨ counter = 1

theorem booked_start (setup : Setup) :
    ∀ t, (start setup).transcript? = some t → (start setup).Booked (.start t) := by
  intro t ht
  have hopening : ∃ responder, t = .opening responder := by
    cases setup <;> exact ⟨_, (Option.some.inj ht).symm⟩
  obtain ⟨responder, rfl⟩ := hopening
  refine ⟨⟨?_, ?_, List.forall_mem_nil _, fun _ => .nil, fun _ => List.forall_mem_nil _⟩,
    ?_, ?_, ?_, List.forall_mem_nil _⟩
  · rw [Transcript.opening_eq]
    rfl
  · rw [Transcript.opening_eq]
    rfl
  · intro t' ht'
    exact Option.some.inj (ht.symm.trans ht')
  · intro _
    cases setup <;> rfl
  · refine ⟨.initialized, .inl ?_, ?_⟩ <;> cases setup <;> rfl

section

variable {h h' : Handshake} {l l' : Ledger} {act : Act} {t t' : Transcript}

theorem stage_ne_failed (hrunning : h.stage.isTerminal = false) : h.stage ≠ .failed := by
  intro hfailed
  rw [hfailed] at hrunning
  cases hrunning

theorem Booked.places_eq (hl : h.Booked l) (hstage : h.stage ≠ .failed) :
    l.sealings.map Sealing.place = h.role.places h.stage := by
  obtain ⟨stage, heq | hfailed, hplaces⟩ := hl.places
  · rwa [heq]
  · exact absurd hfailed hstage

/-- One more act: one more key, and whatever was sealed and used up on the way. -/
theorem Booked.next (hl : h.Booked l) (hrunning : h.stage.isTerminal = false)
    (hsound : l'.Sound EphemeralAct.origin)
    (htranscript : ∀ t, h'.transcript? = some t → l'.transcript = t)
    {material : Bytes} (hmixed : l'.mixed = l.mixed ++ [material])
    (hkeys : h'.stage.keys = h.stage.keys + 1) {sealings : List Sealing}
    (hsealings : l'.sealings = l.sealings ++ sealings)
    (hplaces : h'.role.places h'.stage = h.role.places h.stage ++ sealings.map Sealing.place)
    {spent : List UInt64} (hspent : l'.spent = l.spent ++ spent)
    (hsmall : ∀ counter ∈ spent, counter = 0 ∨ counter = 1) : h'.Booked l' where
  sound := hsound
  transcript := htranscript
  mixed := by
    intro _
    rw [hmixed, List.length_append, hl.mixed (stage_ne_failed hrunning), hkeys]
    rfl
  places := by
    refine ⟨h'.stage, .inl rfl, ?_⟩
    rw [hsealings, List.map_append, hl.places_eq (stage_ne_failed hrunning), hplaces]
  spent := by
    intro counter hcounter
    rw [hspent] at hcounter
    exact (List.mem_append.1 hcounter).elim (hl.spent counter) (hsmall counter)

/-- A failure seals nothing. -/
theorem Booked.fail (hl : h.Booked l) (hsound : l'.Sound EphemeralAct.origin)
    (hsealings : l'.sealings = l.sealings) {spent : List UInt64}
    (hspent : l'.spent = l.spent ++ spent)
    (hsmall : ∀ counter ∈ spent, counter = 0 ∨ counter = 1) : h.abandon.Booked l' where
  sound := hsound
  transcript := by cases h <;> rintro t ⟨⟩
  mixed := by cases h <;> exact fun hstage => absurd rfl hstage
  places := by
    obtain ⟨stage, -, hplaces⟩ := hl.places
    refine ⟨stage, .inr (by cases h <;> rfl), ?_⟩
    rw [hsealings, hplaces]
    cases h <;> rfl
  spent := by
    intro counter hcounter
    rw [hspent] at hcounter
    exact (List.mem_append.1 hcounter).elim (hl.spent counter) (hsmall counter)

theorem Booked.writeEphemeral (hl : h.Booked l) (hrunning : h.stage.isTerminal = false)
    (hcurrent : h.transcript? = some t) {e : KeyPair} {re : PublicKey} {bytes : Bytes}
    (hwrite : t.writeEphemeral e re = .ok (bytes, t')) (htranscript : h'.transcript? = some t')
    (hkeys : h'.stage.keys = h.stage.keys + 1)
    (hplaces : h'.role.places h'.stage =
      h.role.places h.stage ++ [(.temporary (h.stage.keys + 1), 0)]) :
    h'.Booked (l.record (.writeEphemeral e re)) := by
  have hrecord := l.record_writeEphemeral e re
  rw [← hl.transcript t hcurrent, ← Program.run_writeEphemeral] at hwrite
  refine hl.next hrunning (Ledger.sound_record hl.sound _) ?_ (congrArg Ledger.mixed hrecord) hkeys
    (congrArg Ledger.sealings hrecord) ?_ (congrArg Ledger.spent hrecord) ?_
  · intro t'' ht''
    rw [Ledger.transcript_record hwrite]
    exact Option.some.inj (htranscript.symm.trans ht'')
  · rw [hplaces, List.map_singleton, Sealing.place, Closing.tagSealing, List.length_append,
      hl.mixed (stage_ne_failed hrunning)]
    rfl
  · rintro counter hcounter
    exact .inl (List.mem_singleton.1 hcounter)

theorem Booked.readEphemeral (hl : h.Booked l) (hrunning : h.stage.isTerminal = false)
    (hcurrent : h.transcript? = some t) {own : SecretKey} {input : Bytes}
    (hfailed : ∀ {error}, t.readEphemeral act own input = .error error → h' = h.abandon)
    (hread : ∀ {re t'}, t.readEphemeral act own input = .ok (re, t') →
      h'.transcript? = some t' ∧ h'.stage.keys = h.stage.keys + 1 ∧
        h'.role.places h'.stage = h.role.places h.stage) :
    h'.Booked (l.record (.readEphemeral act own input)) := by
  have hsound := Ledger.sound_record hl.sound (.readEphemeral act own input)
  obtain ⟨hsealings, hrecord⟩ := l.record_readEphemeral act own input
  rw [hl.transcript t hcurrent, Program.run_readEphemeral] at hrecord
  rcases hrecord with ⟨⟨error, herror⟩, hspent⟩ | ⟨re, hok, hmixed, hspent⟩
  · rw [hfailed herror]
    exact hl.fail hsound hsealings (hspent.trans (List.append_nil _).symm) (List.forall_mem_nil _)
  · obtain ⟨htranscript, hkeys, hplaces⟩ := hread hok
    refine hl.next hrunning hsound ?_ hmixed hkeys (hsealings.trans (List.append_nil _).symm)
      (hplaces.trans (List.append_nil _).symm) hspent ?_
    · intro t' ht'
      exact Option.some.inj (htranscript.symm.trans ht')
    · intro counter hcounter
      exact .inl (List.mem_singleton.1 hcounter)

end

theorem booked_of_initiates {identity e : KeyPair} {remote : PublicKey} {i : Initiator}
    {one two : Option Bytes} {three : Option (Bytes × Channel)} {l : Ledger}
    (hcame : Initiates identity remote e i one two three) (hl : (initiator i).Booked l) (c : Call) :
    ((initiator i).after c).Booked ((initiator i).enter c l) := by
  obtain ⟨act, input⟩ := c
  cases hcame with
  | opened =>
      cases act with
      | one =>
          have hwrite : (Transcript.opening remote).writeEphemeral e remote =
              .ok ((Initiator.one remote e).bytes,
                (Initiator.one remote e).closing.transcript) := by
            rw [Transcript.opening_eq]
            exact Transcript.writeEphemeral_eq ..
          rw [after, call, Initiator.writeActOne_eq]
          exact hl.writeEphemeral rfl rfl hwrite rfl rfl rfl
      | _ => exact hl
  | oneWritten =>
      cases act with
      | two =>
          refine hl.readEphemeral rfl rfl ?_ ?_
          · intro error herror
            simp only [after, call, Initiator.readActTwo, herror]
            rfl
          · intro re t' hok
            simp only [after, call, Initiator.readActTwo, hok]
            exact ⟨rfl, rfl, rfl⟩
      | _ => exact hl
  | @twoRead key re =>
      cases act with
      | three =>
          have hrecord := l.record_writeStatic identity re (congrArg _ (hl.transcript _ rfl))
          rw [after, call, Initiator.writeActThree_eq]
          refine hl.next rfl (Ledger.sound_record hl.sound _) ?_
            (congrArg Ledger.mixed hrecord) rfl
            ((congrArg Ledger.sealings hrecord).trans (List.append_assoc ..)) ?_
            ((congrArg Ledger.spent hrecord).trans (List.append_assoc ..)) (by simp)
          · rintro t ⟨⟩
          · simp only [List.length_append, hl.mixed (stage_ne_failed rfl)]
            rfl
      | _ => exact hl
  | threeWritten | failed => cases act <;> exact hl

theorem booked_of_responds {identity e : KeyPair} {r : Responder} {one two three : Option Bytes}
    {proved : Option (Channel × PublicKey)} {l : Ledger}
    (hcame : Responds identity e r one two three proved) (hl : (responder r).Booked l) (c : Call) :
    ((responder r).after c).Booked ((responder r).enter c l) := by
  obtain ⟨act, input⟩ := c
  cases hcame with
  | opened =>
      cases act with
      | one =>
          refine hl.readEphemeral rfl rfl ?_ ?_
          · intro error herror
            simp only [after, call, Responder.readActOne, Responder.start, herror]
            rfl
          · intro re t' hok
            simp only [after, call, Responder.readActOne, Responder.start, hok]
            exact ⟨rfl, rfl, rfl⟩
      | _ => exact hl
  | oneRead =>
      cases act with
      | two =>
          rw [after, call, Responder.writeActTwo_eq]
          exact hl.writeEphemeral rfl rfl (Transcript.writeEphemeral_eq ..) rfl rfl rfl
      | _ => exact hl
  | twoWritten =>
      cases act with
      | three =>
          have hsound := Ledger.sound_record hl.sound (.readStatic e.secret input)
          have htranscript := hl.transcript _ rfl
          obtain ⟨hsealings, hrecord⟩ :=
            l.record_readStatic e.secret input (congrArg (·.temp.counter) htranscript)
          rw [htranscript, Program.run_readStatic] at hrecord
          rcases hrecord with ⟨⟨error, herror⟩, hspent⟩ | ⟨rs, hok, hmixed, hspent⟩
          · simp only [after, call, Responder.readActThree, herror]
            rcases hspent with hspent | hspent
            · exact hl.fail hsound hsealings (hspent.trans (List.append_nil _).symm)
                (List.forall_mem_nil _)
            · exact hl.fail hsound hsealings hspent (by simp)
          · simp only [after, call, Responder.readActThree, hok]
            refine hl.next rfl hsound ?_ hmixed rfl
              (hsealings.trans (List.append_nil _).symm) rfl
              (hspent.trans (List.append_assoc ..)) (by simp)
            rintro t ⟨⟩
      | _ => exact hl
  | threeRead | failedFirst | failedLast => cases act <;> exact hl

theorem booked_enter {setup : Setup} {h : Handshake} {l : Ledger} (hcame : Came setup h)
    (hl : h.Booked l) (c : Call) : (h.after c).Booked (h.enter c l) := by
  cases setup <;> cases h
  · obtain ⟨one, two, three, hcame⟩ := hcame
    exact booked_of_initiates hcame hl c
  · exact hcame.elim
  · exact hcame.elim
  · obtain ⟨one, two, three, proved, hcame⟩ := hcame
    exact booked_of_responds hcame hl c

/-! ## What is sealed goes out -/

/-- The act that a call gives out. -/
def written (h : Handshake) (c : Call) : Option Bytes :=
  (h.call c).result.toOption.bind Given.act

theorem written_of_refused {h : Handshake} {c : Call} (hnone : h.next? c.act = none) :
    h.written c = none := by
  have htook := h.took_call c
  unfold written
  generalize h.call c = out at htook ⊢
  cases htook with
  | refused | failed => rfl
  | advanced hnext => cases hnone.symm.trans hnext

theorem fills_nil {h : Handshake} {l : Ledger} {c : Call} {key : Bytes}
    (hnone : h.next? c.act = none) :
    ∃ new, (h.enter c l).sealings = l.sealings ++ new ∧ Fills key (h.written c) new := by
  refine ⟨[], ?_, ?_⟩
  · rw [enter_of_refused hnone, List.append_nil]
  · rw [written_of_refused hnone]
    rfl

/-- A call that reads gives out no act. -/
theorem written_of_read {h : Handshake} {c : Call} (hread : h.role.step c.act = .read c.act) :
    h.written c = none := by
  obtain ⟨act, input⟩ := c
  cases h with
  | initiator i =>
      cases act with
      | two =>
          simp only [written, call, Outcome.map]
          cases (i.readActTwo input).result <;> rfl
      | _ => cases hread
  | responder r =>
      cases act with
      | one =>
          simp only [written, call, Outcome.map]
          cases (r.readActOne input).result <;> rfl
      | two => cases hread
      | three =>
          simp only [written, call, Outcome.map]
          cases (r.readActThree input).result <;> rfl

theorem fills_of_read {h : Handshake} {l : Ledger} {c : Call} {key : Bytes}
    (hread : h.role.step c.act = .read c.act) (hsealings : (h.enter c l).sealings = l.sealings) :
    ∃ new, (h.enter c l).sealings = l.sealings ++ new ∧ Fills key (h.written c) new :=
  ⟨[], hsealings.trans (List.append_nil _).symm, by rw [written_of_read hread]; rfl⟩

theorem fills_of_initiates {identity e : KeyPair} {remote : PublicKey} {i : Initiator}
    {one two : Option Bytes} {three : Option (Bytes × Channel)} {l : Ledger}
    (hcame : Initiates identity remote e i one two three) (hl : (initiator i).Booked l) (c : Call) :
    ∃ new, ((initiator i).enter c l).sealings = l.sealings ++ new ∧
      Fills e.pub.compress.val ((initiator i).written c) new := by
  obtain ⟨act, input⟩ := c
  cases hcame with
  | opened =>
      cases act with
      | one =>
          have hrecord := l.record_writeEphemeral e remote
          rw [hl.transcript _ rfl, Transcript.opening_eq] at hrecord
          refine ⟨_, congrArg Ledger.sealings hrecord, ?_⟩
          rw [written, call, Initiator.writeActOne_eq]
          exact ⟨_, .tail _ (.tail _ (.head _)), congrArg _ (List.append_nil _).symm⟩
      | _ => exact fills_nil rfl
  | oneWritten =>
      cases act with
      | two => exact fills_of_read rfl (l.record_readEphemeral .two e.secret input).1
      | _ => exact fills_nil rfl
  | @twoRead key re =>
      cases act with
      | three =>
          have hrecord := l.record_writeStatic identity re (congrArg _ (hl.transcript _ rfl))
          rw [hl.transcript _ rfl] at hrecord
          refine ⟨_, (congrArg Ledger.sealings hrecord).trans (List.append_assoc ..), ?_⟩
          rw [written, call, Initiator.writeActThree_eq]
          exact ⟨_, .tail _ (.head _), by simp; rfl⟩
      | _ => exact fills_nil rfl
  | threeWritten | failed => cases act <;> exact fills_nil rfl

theorem fills_of_responds {identity e : KeyPair} {r : Responder} {one two three : Option Bytes}
    {proved : Option (Channel × PublicKey)} {l : Ledger}
    (hcame : Responds identity e r one two three proved) (hl : (responder r).Booked l) (c : Call) :
    ∃ new, ((responder r).enter c l).sealings = l.sealings ++ new ∧
      Fills e.pub.compress.val ((responder r).written c) new := by
  obtain ⟨act, input⟩ := c
  cases hcame with
  | opened =>
      cases act with
      | one => exact fills_of_read rfl (l.record_readEphemeral .one identity.secret input).1
      | _ => exact fills_nil rfl
  | @oneRead key re =>
      cases act with
      | two =>
          have hrecord := l.record_writeEphemeral e re
          rw [hl.transcript _ rfl] at hrecord
          refine ⟨_, congrArg Ledger.sealings hrecord, ?_⟩
          rw [written, call, Responder.writeActTwo_eq]
          exact ⟨_, .tail _ (.tail _ (.head _)), congrArg _ (List.append_nil _).symm⟩
      | _ => exact fills_nil rfl
  | twoWritten =>
      cases act with
      | three =>
          have htranscript := hl.transcript _ rfl
          exact fills_of_read rfl
            (l.record_readStatic e.secret input (congrArg (·.temp.counter) htranscript)).1
      | _ => exact fills_nil rfl
  | threeRead | failedFirst | failedLast => cases act <;> exact fills_nil rfl

theorem fills_enter {setup : Setup} {h : Handshake} {l : Ledger} (hcame : Came setup h)
    (hl : h.Booked l) (c : Call) :
    ∃ new, (h.enter c l).sealings = l.sealings ++ new ∧
      Fills setup.ephemeral.pub.compress.val (h.written c) new := by
  cases setup <;> cases h
  · obtain ⟨one, two, three, hcame⟩ := hcame
    exact fills_of_initiates hcame hl c
  · exact hcame.elim
  · exact hcame.elim
  · obtain ⟨one, two, three, proved, hcame⟩ := hcame
    exact fills_of_responds hcame hl c

end Handshake

end Bolt8
