import Bolt8.Proofs.Endpoint
import Bolt8.Proofs.Handshake.Agreement

/-!
# Both ends of a connection

The two ends of a session keep their own books. Where the acts are passed on as
they were written, both mix in the same secrets, in the same order (`Together`),
so that a name is one key at both ends. Still nothing is ever sealed at a place
where either end has sealed before (`never_twice`).
-/

namespace Bolt8

open Session (Progress)

/-- A call of a session, if it goes to this role. -/
def Call.forRole : Role → Call → Option Handshake.Call
  | .initiator, .writeActOne => some ⟨.one, []⟩
  | .initiator, .readActTwo input => some ⟨.two, input⟩
  | .initiator, .writeActThree => some ⟨.three, []⟩
  | .responder, .readActOne input => some ⟨.one, input⟩
  | .responder, .writeActTwo => some ⟨.two, []⟩
  | .responder, .readActThree input => some ⟨.three, input⟩
  | .initiator, .readActOne _ | .initiator, .writeActTwo | .initiator, .readActThree _ => none
  | .responder, .writeActOne | .responder, .readActTwo _ | .responder, .writeActThree => none

namespace Endpoint

/-- The calls for acts among these. -/
def acts (calls : List Call) : List Handshake.Call :=
  calls.filterMap fun
    | .act c => some c
    | .channel _ => none

/-- The part of a role in a session. -/
def part (role : Role) (calls : List Bolt8.Call) : List Call :=
  (calls.filterMap (Call.forRole role)).map .act

/-- The calls of two ends come from one session, in which acts are passed on as
written. Calls on the channels may be anything. -/
def Joined (setup : Setup) (calls : List Call) (setup' : Setup) (calls' : List Call) : Prop :=
  ∃ i r e e' session, setup = .initiator i r.pub e ∧ setup' = .responder r e' ∧
    (Session.start i r e e').Honest session ∧
    acts calls = acts (part .initiator session) ∧ acts calls' = acts (part .responder session)

/-- Calls on the channel leave the books of the handshake alone. -/
theorem run_acts (p : Endpoint) (calls : List Call) :
    (p.run calls).handshake = (p.run ((acts calls).map .act)).handshake ∧
      (p.run calls).ledger = (p.run ((acts calls).map .act)).ledger := by
  induction calls using List.reverseRecOn with
  | nil => exact ⟨rfl, rfl⟩
  | append_singleton calls c ih =>
      obtain ⟨hhandshake, hledger⟩ := ih
      cases c with
      | channel c =>
          have hacts : acts (calls ++ [.channel c]) = acts calls := by
            rw [acts, List.filterMap_append]
            exact List.append_nil _
          rw [run_snoc, hacts]
          exact ⟨hhandshake, hledger⟩
      | act c =>
          have hacts : acts (calls ++ [.act c]) = acts calls ++ [c] := List.filterMap_append
          rw [run_snoc, hacts, List.map_append, List.map_singleton, run_snoc]
          simp only [after, hhandshake, hledger, and_self]

/-! ## The same secrets -/

/-- The end after its part in a call of a session. -/
def follow (p : Endpoint) (role : Role) (c : Bolt8.Call) : Endpoint := p.run (part role [c])

theorem run_part_snoc (p : Endpoint) (role : Role) (calls : List Bolt8.Call) (c : Bolt8.Call) :
    p.run (part role (calls ++ [c])) = (p.run (part role calls)).follow role c := by
  rw [part, List.filterMap_append, List.map_append, run, List.foldl_append]
  rfl

section

variable (i r e e' : KeyPair)

/-- What the parties of a session come to share, in their order. -/
def secrets : List Bytes :=
  [(e.secret.agree r.pub).digest.val, (e.secret.agree e'.pub).digest.val,
    (i.secret.agree e'.pub).digest.val]

/-- Both ends of a session. -/
structure Together (s : Session) (p q : Endpoint) : Prop where
  progress : ∃ n, Progress i r e e' n s
  ours : p.Kept (.initiator i r.pub e)
  theirs : q.Kept (.responder r e')
  initiator : p.handshake = .initiator s.initiator
  responder : q.handshake = .responder s.responder
  mixed : p.ledger.mixed <+: secrets i r e e'
  mixed' : q.ledger.mixed <+: secrets i r e e'

end

variable {i r e e' : KeyPair} {s : Session} {p q : Endpoint} {n : ℕ} {c : Bolt8.Call}

theorem kept_follow {setup : Setup} (hp : p.Kept setup) (role : Role) (c : Bolt8.Call) :
    (p.follow role c).Kept setup := by
  cases hc : c.forRole role with
  | none => simpa [follow, part, run, hc] using hp
  | some c' => simpa [follow, part, run, hc] using kept_act hp c'

theorem ledger_of_not_due (h : Together i r e e' s p q) (hdue : ¬ s.Due c) :
    (p.follow .initiator c).ledger = p.ledger ∧ (q.follow .responder c).ledger = q.ledger := by
  have hnone : (s.stageOf c).after c.step = none := Option.not_isSome_iff_eq_none.1 hdue
  have hp : ∀ c', p.handshake.next? c'.act = none → (p.after (.act c')).ledger = p.ledger :=
    fun _ => Handshake.enter_of_refused
  have hq : ∀ c', q.handshake.next? c'.act = none → (q.after (.act c')).ledger = q.ledger :=
    fun _ => Handshake.enter_of_refused
  rw [h.initiator] at hp
  rw [h.responder] at hq
  cases c with
  | writeActOne | readActTwo | writeActThree => exact ⟨hp _ hnone, rfl⟩
  | readActOne | writeActTwo | readActThree => exact ⟨rfl, hq _ hnone⟩

theorem prefix_snoc {α : Type} {l m : List α} {a : α} {n : ℕ} (h : l <+: m) (hn : l.length = n)
    (ha : m[n]? = some a) : l ++ [a] <+: m := by
  subst hn
  obtain ⟨hlt, rfl⟩ := List.getElem?_eq_some_iff.1 ha
  exact List.concat_get_prefix h hlt

theorem mixed_of_due (hs : Progress i r e e' n s) (h : Together i r e e' s p q) (hdue : s.Due c)
    (hc : s.Delivers c) :
    (p.follow .initiator c).ledger.mixed <+: secrets i r e e' ∧
      (q.follow .responder c).ledger.mixed <+: secrets i r e e' := by
  obtain ⟨-, ours, theirs, hp, hq, hmixed, hmixed'⟩ := h
  have ht := ours.booked.transcript
  have ht' := theirs.booked.transcript
  have hlength := ours.booked.mixed
  have hlength' := theirs.booked.mixed
  have htemp := fun t => @Handshake.temp_of_came _ _ t ours.came
  have htemp' := fun t => @Handshake.temp_of_came _ _ t theirs.came
  obtain ⟨h, l, d⟩ := p
  obtain ⟨h', l', d'⟩ := q
  simp only at *
  subst hp hq
  cases hs with
  | opened =>
      cases c with
      | writeActOne => exact ⟨prefix_snoc hmixed (hlength nofun) rfl, hmixed'⟩
      | readActOne => cases hc
      | _ => cases hdue
  | oneWritten h₁ =>
      cases c with
      | readActOne input =>
          obtain rfl := Option.some.inj hc
          have hread := Transcript.readEphemeral_of_writeEphemeral Act.one rfl h₁
          have hnew := l'.record_readEphemeral_of_ok _ _ _ _ (ht' _ rfl) hread
          refine ⟨hmixed, ?_⟩
          show (l'.record _).mixed <+: _
          rw [hnew]
          refine prefix_snoc hmixed' (hlength' nofun) ?_
          rw [KeyPair.agree_comm]
          rfl
      | readActTwo => cases hc
      | _ => cases hdue
  | oneRead =>
      cases c with
      | writeActTwo =>
          refine ⟨hmixed, prefix_snoc hmixed' (hlength' nofun) ?_⟩
          rw [KeyPair.agree_comm]
          rfl
      | readActTwo => cases hc
      | _ => cases hdue
  | twoWritten h₂ =>
      cases c with
      | readActTwo input =>
          obtain rfl := Option.some.inj hc
          have hread := Transcript.readEphemeral_of_writeEphemeral Act.two rfl h₂
          have hnew := l.record_readEphemeral_of_ok _ _ _ _ (ht _ rfl) hread
          refine ⟨?_, hmixed'⟩
          show (l.record _).mixed <+: _
          rw [hnew]
          exact prefix_snoc hmixed (hlength nofun) rfl
      | readActThree =>
          obtain ⟨_, hc⟩ := hc
          cases hc
      | _ => cases hdue
  | twoRead hkey =>
      cases c with
      | writeActThree =>
          obtain ⟨key, hkey⟩ := htemp _ (.inl rfl) rfl
          have hnew := l.record_writeStatic i e'.pub ((congrArg _ (ht _ rfl)).trans hkey)
          refine ⟨?_, hmixed'⟩
          show (l.record _).mixed <+: _
          rw [hnew]
          exact prefix_snoc hmixed (hlength nofun) rfl
      | readActThree =>
          obtain ⟨_, hc⟩ := hc
          cases hc
      | _ => cases hdue
  | threeWritten h₃ =>
      cases c with
      | readActThree input =>
          obtain ⟨channel, hact⟩ := hc
          obtain ⟨rfl, -⟩ := Prod.mk.inj (Option.some.inj hact)
          obtain ⟨key, hkey⟩ := htemp' _ (.inr rfl) rfl
          have hread := Transcript.readStatic_of_writeStatic h₃
          have hnew := l'.record_readStatic_of_ok _ _ _ (ht' _ rfl) (congrArg _ hkey) hread
          refine ⟨hmixed, ?_⟩
          show (l'.record _).mixed <+: _
          rw [hnew]
          refine prefix_snoc hmixed' (hlength' nofun) ?_
          rw [KeyPair.agree_comm]
          rfl
      | _ => cases hdue
  | threeRead => cases c <;> cases hdue

theorem together_after (h : Together i r e e' s p q) (hc : s.Due c → s.Delivers c) :
    Together i r e e' (s.after c) (p.follow .initiator c) (q.follow .responder c) := by
  obtain ⟨hmixed, hmixed'⟩ : (p.follow .initiator c).ledger.mixed <+: secrets i r e e' ∧
      (q.follow .responder c).ledger.mixed <+: secrets i r e e' := by
    by_cases hdue : s.Due c
    · obtain ⟨n, hs⟩ := h.progress
      exact mixed_of_due hs h hdue (hc hdue)
    · obtain ⟨hp, hq⟩ := ledger_of_not_due h hdue
      rw [hp, hq]
      exact ⟨h.mixed, h.mixed'⟩
  have hp : ∀ c', (p.after (.act c')).handshake = (Handshake.initiator s.initiator).after c' :=
    fun c' => congrArg (·.after c') h.initiator
  have hq : ∀ c', (q.after (.act c')).handshake = (Handshake.responder s.responder).after c' :=
    fun c' => congrArg (·.after c') h.responder
  refine ⟨Session.progress_after h.progress hc, kept_follow h.ours _ c, kept_follow h.theirs _ c,
    ?_, ?_, hmixed, hmixed'⟩
  · cases c with
    | writeActOne | readActTwo | writeActThree => exact hp _
    | readActOne | writeActTwo | readActThree => exact h.initiator
  · cases c with
    | writeActOne | readActTwo | writeActThree => exact h.responder
    | readActOne | writeActTwo | readActThree => exact hq _

theorem together_run {session : List Bolt8.Call} (h : (Session.start i r e e').Honest session) :
    Together i r e e' ((Session.start i r e e').run session)
      ((start (.initiator i r.pub e)).run (part .initiator session))
      ((start (.responder r e')).run (part .responder session)) := by
  induction session using List.reverseRecOn with
  | nil =>
      exact ⟨⟨0, .opened⟩, kept_start _, kept_start _, rfl, rfl, List.nil_prefix, List.nil_prefix⟩
  | append_singleton session c ih =>
      obtain ⟨hsession, hc⟩ := always_snoc.1 h
      rw [run_part_snoc, run_part_snoc, Session.run, List.foldl_append]
      exact together_after (ih hsession) hc

theorem mixed_of_joined {setup setup' : Setup} {calls calls' : List Call}
    (h : Joined setup calls setup' calls') :
    ∃ mixed, ((start setup).run calls).ledger.mixed <+: mixed ∧
      ((start setup').run calls').ledger.mixed <+: mixed := by
  obtain ⟨i, r, e, e', session, rfl, rfl, hhonest, hacts, hacts'⟩ := h
  have htogether := together_run hhonest
  refine ⟨secrets i r e e', ?_, ?_⟩
  · rw [(run_acts _ calls).2, hacts, ← (run_acts _ (part .initiator session)).2]
    exact htogether.mixed
  · rw [(run_acts _ calls').2, hacts', ← (run_acts _ (part .responder session)).2]
    exact htogether.mixed'

theorem roles_of_joined {setup setup' : Setup} {calls calls' : List Call}
    (h : Joined setup calls setup' calls') : setup.role ≠ setup'.role := by
  obtain ⟨i, r, e, e', session, rfl, rfl, -⟩ := h
  exact nofun

/-- A name is one key at both ends. -/
theorem key_eq_of_name_eq {setup setup' : Setup} (hp : p.Kept setup) (hq : q.Kept setup')
    (hroles : setup.role ≠ setup'.role) {mixed : List Bytes} (hours : p.ledger.mixed <+: mixed)
    (htheirs : q.ledger.mixed <+: mixed) {s s' : Sealing} (hs : s ∈ p.sealings)
    (hs' : s' ∈ q.sealings) (hname : s.name = s'.name) : s.key = s'.key := by
  rcases List.mem_append.1 hs with hs | hs <;> rcases List.mem_append.1 hs' with hs' | hs'
  · obtain ⟨number, -, htemporary, hkey⟩ := hp.booked.sound.named s hs
    obtain ⟨number', -, htemporary', hkey'⟩ := hq.booked.sound.named s' hs'
    obtain rfl := KeyName.temporary.inj (htemporary.symm.trans (hname.trans htemporary'))
    have hsame := temporaryKey_mono hours hkey
    exact Option.some.inj (hsame.symm.trans (temporaryKey_mono htheirs hkey'))
  · obtain ⟨number, -, htemporary, -⟩ := hp.booked.sound.named s hs
    obtain ⟨⟨n, hplace⟩, -⟩ := place_of_sent hq hs'
    cases htemporary.symm.trans (hname.trans (congrArg Prod.fst hplace))
  · obtain ⟨⟨n, hplace⟩, -⟩ := place_of_sent hp hs
    obtain ⟨number, -, htemporary, -⟩ := hq.booked.sound.named s' hs'
    cases htemporary.symm.trans (hname.symm.trans (congrArg Prod.fst hplace))
  · obtain ⟨⟨n, hplace⟩, -⟩ := place_of_sent hp hs
    obtain ⟨⟨n', hplace'⟩, -⟩ := place_of_sent hq hs'
    have htransport := (congrArg Prod.fst hplace).symm.trans
      (hname.trans (congrArg Prod.fst hplace'))
    exact absurd (KeyName.transport.inj htransport).1 hroles

/-! ## No place twice -/

/-- Each end seals at no place twice, and all it seals goes out; in the channel the
places are in sequence, without a gap. Two ends of opposite roles have no place
in common, though a name is one key to both where their acts are passed on. -/
theorem never_twice (setup setup' : Setup) (calls calls' : List Call) :
    let p := (start setup).run calls
    let q := (start setup').run calls'
    (p.sealings.map Sealing.place).Nodup ∧
    (∀ s ∈ p.sealings, s.name.key? p.ledger.mixed = some s.key) ∧
    (∀ c, ∃ new, (p.after c).sealings = p.sealings ++ new ∧
      Fills setup.ephemeral.pub.compress.val (p.written c) new) ∧
    p.ledger.sealings.map Sealing.place <+: setup.role.places .complete ∧
    p.sent.Pairwise Sealing.Before ∧
    (∀ s ∈ p.sent, s.counter < rotationInterval) ∧
    (∀ d, p.dispatch = some d → d.channel.sending.epoch = .ofNat d.epoch ∧
      ∀ epoch < d.epoch,
        (p.sent.filter fun s => s.name = .transport setup.role epoch).map (·.counter.toNat) =
          List.range 1000) ∧
    (setup.role ≠ setup'.role → ∀ s ∈ p.sealings, ∀ s' ∈ q.sealings, s.place ≠ s'.place) ∧
    (Joined setup calls setup' calls' →
      ∀ s ∈ p.sealings, ∀ s' ∈ q.sealings, s.name = s'.name → s.key = s'.key) ∧
    Function.Injective Aead.nonceBytes ∧
    (∀ counter ∈ p.ledger.spent, counter.toNat + 1 < UInt64.size) ∧
    ∀ d, p.dispatch = some d → ∀ k ∈ [d.channel.sending, d.channel.sending.advance,
      d.channel.receiving, d.channel.receiving.advance], k.counter.toNat + 1 < UInt64.size := by
  intro p q
  have hp : p.Kept setup := kept_run setup calls
  have hq : q.Kept setup' := kept_run setup' calls'
  refine ⟨nodup_places hp, fun _ => key_of_name hp, fills_after hp, places_prefix hp,
    before_sent hp, ?_, ?_, fun hroles _ hs _ hs' => place_ne hp hq hroles hs hs', ?_,
    Aead.nonceBytes_injective, roomy_of_booked hp.booked, ?_⟩
  · intro s hs
    obtain ⟨⟨n, hplace⟩, -⟩ := place_of_sent hp hs
    have hcounter : s.counter = .ofNat (n % 1000) := congrArg Prod.snd hplace
    have hlt := Nat.mod_lt n (show 0 < 1000 by decide)
    rw [hcounter, UInt64.lt_iff_toNat_lt, Dispatch.toNat_counter hlt]
    exact hlt
  · intro d hd
    obtain ⟨n, hn⟩ := hp.placed d hd
    have hsent : p.sent = d.sealings := by rw [sent, hd]; rfl
    refine ⟨?_, fun epoch hepoch => ?_⟩
    · rw [hn.sending, hn.epoch]
      rfl
    · rw [hsent]
      exact Dispatch.counters_of_placed hn hepoch
  · intro hjoined s hs s' hs' hname
    obtain ⟨mixed, hours, htheirs⟩ := mixed_of_joined hjoined
    exact key_eq_of_name_eq hp hq (roles_of_joined hjoined) hours htheirs hs hs' hname
  · intro d hd
    obtain ⟨hsending, hreceiving⟩ := Channel.atFrame_of_reachable (hp.reachable d hd)
    have hsending := counters_of_atFrame hsending
    have hreceiving := counters_of_atFrame hreceiving
    simp only [List.forall_mem_cons, List.not_mem_nil, false_implies, implies_true, and_true]
    exact ⟨hsending.1, hsending.2, hreceiving.1, hreceiving.2⟩

/-- The key of act 2 seals at both ends, with counter 1 in act 3 and 0 in act 2. -/
theorem one_key_at_both_ends :
    let i := KeyPair.ofSecret ⟨1, by decide, by decide⟩
    let r := KeyPair.ofSecret ⟨2, by decide, by decide⟩
    let e := KeyPair.ofSecret ⟨3, by decide, by decide⟩
    let e' := KeyPair.ofSecret ⟨4, by decide, by decide⟩
    let session := Session.script 6 (.start i r e e')
    let ours := part .initiator session
    let theirs := part .responder session
    Joined (.initiator i r.pub e) ours (.responder r e') theirs ∧
    ∃ s ∈ ((start (.initiator i r.pub e)).run ours).sealings,
      ∃ s' ∈ ((start (.responder r e')).run theirs).sealings,
        s.name = s'.name ∧ s.key = s'.key ∧ s.place ≠ s'.place := by
  intro i r e e' session ours theirs
  clear_value i r e e'
  have hhonest : (Session.start i r e e').Honest session := Session.honest_script i r e e'
  have hjoined : Joined (.initiator i r.pub e) ours (.responder r e') theirs :=
    ⟨i, r, e, e', session, rfl, rfl, hhonest, rfl, rfl⟩
  obtain ⟨-, -, -, -, -, -, -, hapart, hsame, -⟩ :=
    never_twice (.initiator i r.pub e) (.responder r e') ours theirs
  have htogether := together_run hhonest
  have hend : Progress i r e e' 6 ((Session.start i r e e').run session) :=
    (Session.progress_script .opened rfl).2
  generalize (start (.initiator i r.pub e)).run ours = p at htogether hapart hsame
  generalize (start (.responder r e')).run theirs = q at htogether hapart hsame
  generalize (Session.start i r e e').run session = ended at htogether hend
  have hp : p.handshake.stage = .complete := by
    rw [htogether.initiator]
    cases hend
    rfl
  have hq : q.handshake.stage = .complete := by
    rw [htogether.responder]
    cases hend
    rfl
  have hours := htogether.ours.booked.places_eq (by rw [hp]; decide)
  have htheirs := htogether.theirs.booked.places_eq (by rw [hq]; decide)
  rw [hp, role_of_came htogether.ours.came] at hours
  rw [hq, role_of_came htogether.theirs.came] at htheirs
  obtain ⟨s, hs, hplace⟩ : ∃ s ∈ p.ledger.sealings, s.place = (.temporary 2, 1) :=
    List.mem_map.1 (hours ▸ .tail _ (.head _))
  obtain ⟨s', hs', hplace'⟩ : ∃ s ∈ q.ledger.sealings, s.place = (.temporary 2, 0) :=
    List.mem_map.1 (htheirs ▸ .head _)
  have hs := List.mem_append_left p.sent hs
  have hs' := List.mem_append_left q.sent hs'
  have hname : s.name = s'.name :=
    (congrArg Prod.fst hplace).trans (congrArg Prod.fst hplace').symm
  exact ⟨hjoined, s, hs, s', hs', hname, hsame hjoined s hs s' hs' hname,
    hapart (roles_of_joined hjoined) s hs s' hs'⟩

end Endpoint

end Bolt8
