import Bolt8.Proofs.Handshake.Order
import Bolt8.Proofs.Handshake.Programs
import Bolt8.Proofs.Transport.Places

/-!
# One end of a connection

A handshake and then the channel that it hands out, in one sequence of calls,
with the books of both. All that an end ever seals goes out (`fills_after`), and
lies in one sequence of places, each used once (`nodup_places`).
-/

namespace Bolt8

/-- The key of the responder, to which a handshake is opened. -/
def Setup.responderKey : Setup → PublicKey
  | initiator _ remoteStatic _ => remoteStatic
  | responder identity _ => identity.pub

/-- The half of the transport keys that a role sends with. -/
def Derived.half (d : Derived) : Role → Aead.Key
  | .initiator => d.first
  | .responder => d.second

/-- The key of a name, in a handshake that mixes in these materials. -/
def KeyName.key? (mixed : List Bytes) : KeyName → Option Aead.Key
  | temporary number => temporaryKey EphemeralAct.origin mixed number
  | transport sender epoch =>
    let chainingKey := chain EphemeralAct.origin mixed
    some (schedule ((hkdf chainingKey []).half sender) chainingKey epoch).second

structure Endpoint where
  handshake : Handshake
  ledger : Ledger
  /-- The channel, once the handshake has handed it out. -/
  dispatch : Option Dispatch

namespace Endpoint

inductive Call
  | act (c : Handshake.Call)
  | channel (c : Channel.Call)

def start (setup : Setup) : Endpoint :=
  ⟨.start setup, .start (.opening setup.responderKey), none⟩

/-- The channel that a call on a handshake hands out. -/
def handedOut (h : Handshake) (c : Handshake.Call) : Option Channel :=
  (h.call c).result.toOption.bind Given.channel

def after (e : Endpoint) : Call → Endpoint
  | .act c =>
    ⟨e.handshake.after c, e.handshake.enter c e.ledger,
      ((handedOut e.handshake c).map Dispatch.start).or e.dispatch⟩
  | .channel c => { e with dispatch := e.dispatch.map (·.call e.handshake.role c) }

/-- The end after a sequence of calls. -/
def run (e : Endpoint) (calls : List Call) : Endpoint := calls.foldl after e

theorem run_snoc (e : Endpoint) (calls : List Call) (c : Call) :
    e.run (calls ++ [c]) = (e.run calls).after c := by
  rw [run, List.foldl_append]
  rfl

/-- What the channel has sealed. -/
def sent (e : Endpoint) : List Sealing := (e.dispatch.map Dispatch.sealings).getD []

/-- The chaining key of the handshake. -/
def chainingKey (e : Endpoint) : Digest := chain EphemeralAct.origin e.ledger.mixed

/-- What was sealed altogether. -/
def sealings (e : Endpoint) : List Sealing := e.ledger.sealings ++ e.sent

/-! ## The books of both parts -/

theorem complete_of_handedOut {h : Handshake} {c : Handshake.Call} {channel : Channel}
    (hchannel : handedOut h c = some channel) :
    h.next? c.act = some .complete ∧ (h.after c).stage = .complete := by
  have htook := h.took_call c
  unfold handedOut at hchannel
  unfold Handshake.after
  generalize h.call c = out at htook hchannel ⊢
  cases htook with
  | refused | failed => cases hchannel
  | advanced hnext hstage _ _ hcomplete =>
      have hlast := hcomplete.1 (Option.isSome_iff_exists.2 ⟨channel, hchannel⟩)
      exact ⟨hlast ▸ hnext, hlast ▸ hstage⟩

/-- The channel is the one that the handshake ends in. -/
theorem ofSplit_of_handedOut {h : Handshake} {l : Ledger} {c : Handshake.Call} {channel : Channel}
    (hl : ∀ t, h.transcript? = some t → l.transcript = t)
    (hchannel : handedOut h c = some channel) :
    channel = .ofSplit (h.enter c l).transcript.split h.role := by
  obtain ⟨hnext, -⟩ := complete_of_handedOut hchannel
  obtain ⟨act, input⟩ := c
  cases h with
  | initiator i =>
      obtain ⟨identity, remote, phase⟩ := i
      cases phase with
      | actTwoReceived t e re =>
          obtain rfl : act = .three := by cases act <;> first | rfl | cases hnext
          simp only [handedOut, Handshake.call, Initiator.writeActThree] at hchannel
          cases hwrite : t.writeStatic identity re with
          | error error =>
              rw [hwrite] at hchannel
              cases hchannel
          | ok written =>
              rw [hwrite] at hchannel
              obtain rfl := Option.some.inj hchannel
              rw [← hl t rfl, ← Program.run_writeStatic] at hwrite
              rw [Handshake.enter, Ledger.transcript_record hwrite]
              rfl
      | _ => cases act <;> cases hnext
  | responder r =>
      obtain ⟨identity, phase⟩ := r
      cases phase with
      | actTwoSent t e re =>
          obtain rfl : act = .three := by cases act <;> first | rfl | cases hnext
          simp only [handedOut, Handshake.call, Responder.readActThree] at hchannel
          cases hread : t.readStatic e.secret input with
          | error error =>
              rw [hread] at hchannel
              cases hchannel
          | ok read =>
              rw [hread] at hchannel
              obtain rfl := Option.some.inj hchannel
              rw [← hl t rfl, ← Program.run_readStatic] at hread
              rw [Handshake.enter, Ledger.transcript_record hread]
              rfl
      | _ => cases act <;> cases hnext

/-- An end, at any time. -/
structure Kept (setup : Setup) (e : Endpoint) : Prop where
  came : Handshake.Came setup e.handshake
  booked : e.handshake.Booked e.ledger
  complete : ∀ d, e.dispatch = some d → e.handshake.stage = .complete
  placed : ∀ d, e.dispatch = some d → ∃ n,
    d.Placed setup.role ((hkdf e.chainingKey []).half setup.role) e.chainingKey n
  reachable : ∀ d, e.dispatch = some d → d.channel.Reachable

theorem role_of_came {setup : Setup} {h : Handshake} (hcame : Handshake.Came setup h) :
    h.role = setup.role := by
  cases setup <;> cases h <;> first | rfl | exact hcame.elim

theorem kept_start (setup : Setup) : (start setup).Kept setup where
  came := Handshake.came_start setup
  booked := Handshake.booked_start setup _ (by cases setup <;> rfl)
  complete := nofun
  placed := nofun
  reachable := nofun

theorem after_of_refused {e : Endpoint} {c : Handshake.Call}
    (hnone : e.handshake.next? c.act = none) : e.after (.act c) = e := by
  obtain ⟨hresult, hsame⟩ := Handshake.call_of_refused hnone
  have hnothing : handedOut e.handshake c = none := by simp [handedOut, hresult, Except.toOption]
  simp only [after, hsame, Handshake.enter_of_refused hnone, hnothing, Option.map_none,
    Option.none_or]

/-- An act that is still in turn comes before the channel. -/
theorem dispatch_eq_none {setup : Setup} {e : Endpoint} (he : e.Kept setup) {act : Act}
    {next : Stage} (hnext : e.handshake.next? act = some next) : e.dispatch = none := by
  by_contra hsome
  obtain ⟨d, hd⟩ := Option.ne_none_iff_exists'.1 hsome
  have hcomplete := congrArg Stage.isTerminal (he.complete d hd)
  cases hnext.symm.trans (Stage.after_of_terminal hcomplete _)

/-- A channel is handed out unused. -/
theorem dispatch_act {e : Endpoint} (hnone : e.dispatch = none) {c : Handshake.Call} {d : Dispatch}
    (hd : (e.after (.act c)).dispatch = some d) :
    ∃ channel, handedOut e.handshake c = some channel ∧ d = .start channel := by
  simp only [after, hnone, Option.or_none, Option.map_eq_some_iff] at hd
  obtain ⟨channel, hchannel, rfl⟩ := hd
  exact ⟨channel, hchannel, rfl⟩

theorem kept_act {setup : Setup} {e : Endpoint} (he : e.Kept setup) (c : Handshake.Call) :
    (e.after (.act c)).Kept setup := by
  cases hnext : e.handshake.next? c.act with
  | none =>
      rwa [after_of_refused hnext]
  | some next =>
      have hnone := dispatch_eq_none he hnext
      have hcame := Handshake.came_after he.came c
      have hbooked := Handshake.booked_enter he.came he.booked c
      have hsplit : ∀ {channel}, handedOut e.handshake c = some channel → channel =
          .ofSplit (e.after (.act c)).ledger.transcript.split setup.role := by
        intro channel hchannel
        rw [← role_of_came he.came]
        exact ofSplit_of_handedOut he.booked.transcript hchannel
      refine ⟨hcame, hbooked, ?_, ?_, ?_⟩
      · intro d hd
        obtain ⟨channel, hchannel, rfl⟩ := dispatch_act hnone hd
        exact (complete_of_handedOut hchannel).2
      · intro d hd
        obtain ⟨channel, hchannel, rfl⟩ := dispatch_act hnone hd
        obtain rfl := hsplit hchannel
        have hchained : (e.after (.act c)).ledger.transcript.chainingKey =
            (e.after (.act c)).chainingKey := hbooked.sound.chained
        refine ⟨0, Dispatch.placed_start ?_⟩
        rw [← hchained]
        cases setup.role <;> rfl
      · intro d hd
        obtain ⟨channel, hchannel, rfl⟩ := dispatch_act hnone hd
        obtain rfl := hsplit hchannel
        exact .ofSplit _ _

theorem kept_after {setup : Setup} {e : Endpoint} (he : e.Kept setup) (c : Call) :
    (e.after c).Kept setup := by
  cases c with
  | act c => exact kept_act he c
  | channel c =>
      have hused : ∀ d', (e.after (.channel c)).dispatch = some d' →
          ∃ d, e.dispatch = some d ∧ d' = d.call setup.role c := by
        intro d' hd'
        obtain ⟨d, hd, rfl⟩ := Option.map_eq_some_iff.1 hd'
        exact ⟨d, hd, by rw [role_of_came he.came]⟩
      refine ⟨he.came, he.booked, ?_, ?_, ?_⟩
      · intro d' hd'
        obtain ⟨d, hd, -⟩ := hused d' hd'
        exact he.complete d hd
      · intro d' hd'
        obtain ⟨d, hd, rfl⟩ := hused d' hd'
        obtain ⟨n, hn⟩ := he.placed d hd
        exact Dispatch.placed_call hn c
      · intro d' hd'
        obtain ⟨d, hd, rfl⟩ := hused d' hd'
        exact (he.reachable d hd).after c

theorem kept_run (setup : Setup) (calls : List Call) : ((start setup).run calls).Kept setup := by
  induction calls using List.reverseRecOn with
  | nil => exact kept_start setup
  | append_singleton calls c ih =>
      rw [run_snoc]
      exact kept_after ih c

/-! ## What is sealed goes out -/

/-- The bytes that a call gives out. -/
def written (e : Endpoint) : Call → Option Bytes
  | .act c => e.handshake.written c
  | .channel (.encrypt message) =>
    e.dispatch.bind fun d => (d.channel.encrypt message).result.toOption
  | .channel (.decryptLength _) | .channel (.decryptMessage _) | .channel (.decryptFrame _) => none

theorem fills_call (sender : Role) (d : Dispatch) (message key : Bytes) :
    Fills key (d.channel.encrypt message).result.toOption
      (d.sealedBy sender (.encrypt message)) := by
  cases hresult : (d.channel.encrypt message).result with
  | ok frame =>
      exact ⟨[], .head _, (Dispatch.flatten_sealedBy hresult).symm⟩
  | error error =>
      by_cases hlarge : maxMessageSize < message.length
      · exact if_pos hlarge
      · rw [Channel.encrypt_eq _ (Nat.le_of_not_lt hlarge)] at hresult
        cases hresult

theorem fills_after {setup : Setup} {e : Endpoint} (he : e.Kept setup) (c : Call) :
    ∃ new, (e.after c).sealings = e.sealings ++ new ∧
      Fills setup.ephemeral.pub.compress.val (e.written c) new := by
  cases c with
  | act c =>
      cases hnext : e.handshake.next? c.act with
      | none =>
          refine ⟨[], ?_, ?_⟩
          · rw [after_of_refused hnext, List.append_nil]
          · rw [written, Handshake.written_of_refused hnext]
            rfl
      | some next =>
          obtain ⟨new, hnew, hfills⟩ := Handshake.fills_enter he.came he.booked c
          have hnone := dispatch_eq_none he hnext
          have hsent : (e.after (.act c)).sent = [] := by
            unfold sent
            cases hd : (e.after (.act c)).dispatch with
            | none => rfl
            | some d =>
                obtain ⟨channel, -, rfl⟩ := dispatch_act hnone hd
                rfl
          have hunsent : e.sent = [] := by rw [sent, hnone]; rfl
          refine ⟨new, ?_, hfills⟩
          rw [sealings, sealings, hsent, hunsent, List.append_nil, List.append_nil]
          exact hnew
  | channel c =>
      cases hd : e.dispatch with
      | none =>
          refine ⟨[], ?_, ?_⟩
          · simp only [sealings, sent, after, hd, List.append_nil]
            rfl
          · cases c <;> simp only [written, hd] <;> rfl
      | some d =>
          refine ⟨d.sealedBy e.handshake.role c, ?_, ?_⟩
          · simp only [sealings, sent, after, hd, List.append_assoc]
            rfl
          · cases c with
            | encrypt message =>
                rw [written, hd]
                exact fills_call _ d message _
            | decryptLength | decryptMessage | decryptFrame => rfl

/-! ## No place twice -/

variable {setup : Setup} {e : Endpoint}

theorem roomy_of_booked {h : Handshake} {l : Ledger} (hl : h.Booked l) : l.Roomy := by
  intro counter hcounter
  rcases hl.spent counter hcounter with rfl | rfl <;> decide

theorem mem_places (he : e.Kept setup) {s : Sealing} (hs : s ∈ e.ledger.sealings) :
    ∃ stage, s.place ∈ setup.role.places stage := by
  obtain ⟨stage, -, hplaces⟩ := he.booked.places
  rw [role_of_came he.came] at hplaces
  exact ⟨stage, hplaces ▸ List.mem_map_of_mem hs⟩

/-- The initiator seals in acts 1 and 3, the responder in act 2; the key of act 2
is also the first of act 3, where its counter stands at 1. -/
theorem places_prefix (he : e.Kept setup) :
    e.ledger.sealings.map Sealing.place <+: setup.role.places .complete := by
  obtain ⟨stage, -, hplaces⟩ := he.booked.places
  rw [hplaces, role_of_came he.came]
  cases setup.role <;> cases stage <;> decide

theorem sent_cases (he : e.Kept setup) :
    e.sent = [] ∨ ∃ (d : Dispatch) (n : ℕ), e.sent = d.sealings ∧
      d.Placed setup.role ((hkdf e.chainingKey []).half setup.role) e.chainingKey n := by
  unfold sent
  cases hd : e.dispatch with
  | none => exact .inl rfl
  | some d =>
      obtain ⟨n, hn⟩ := he.placed d hd
      exact .inr ⟨d, n, rfl, hn⟩

theorem before_sent (he : e.Kept setup) : e.sent.Pairwise Sealing.Before := by
  rcases sent_cases he with hnil | ⟨d, n, heq, hn⟩
  · rw [hnil]
    exact .nil
  · rw [heq]
    exact Dispatch.before_of_placed hn

theorem place_of_sent (he : e.Kept setup) {s : Sealing} (hs : s ∈ e.sent) :
    (∃ n, s.place = Dispatch.place setup.role n) ∧ s.name.key? e.ledger.mixed = some s.key := by
  rcases sent_cases he with hnil | ⟨d, n, heq, hn⟩
  · rw [hnil] at hs
    cases hs
  · rw [heq] at hs
    obtain ⟨m, -, hplace⟩ := Dispatch.place_of_placed hn hs
    have hname : s.name = .transport setup.role (m / 1000) := congrArg Prod.fst hplace
    refine ⟨⟨m, hplace⟩, ?_⟩
    rw [hn.keys s hs, hname]
    rfl

theorem key_of_name (he : e.Kept setup) {s : Sealing} (hs : s ∈ e.sealings) :
    s.name.key? e.ledger.mixed = some s.key := by
  rcases List.mem_append.1 hs with hs | hs
  · obtain ⟨number, -, hname, hkey⟩ := he.booked.sound.named s hs
    rwa [hname]
  · exact (place_of_sent he hs).2

theorem temporary_of_mem_places {role : Role} {stage : Stage} {p : KeyName × UInt64}
    (hp : p ∈ role.places stage) : ∃ number, p.1 = .temporary number := by
  cases role <;> cases stage <;> simp [Role.places] at hp <;> grind

theorem places_ne_place {role sender : Role} {stage : Stage} {p : KeyName × UInt64} {n : ℕ}
    (hp : p ∈ role.places stage) (heq : p = Dispatch.place sender n) : False := by
  obtain ⟨number, hname⟩ := temporary_of_mem_places hp
  rw [heq] at hname
  cases hname

/-- The two roles share a key, but not a value of its counter. -/
theorem places_disjoint {stage stage' : Stage} {p : KeyName × UInt64}
    (hp : p ∈ Role.initiator.places stage) (hp' : p ∈ Role.responder.places stage') : False := by
  cases stage <;> cases stage' <;> simp [Role.places] at hp hp' <;> grind

theorem place_ne (he : e.Kept setup) {setup' : Setup} {e' : Endpoint} (he' : e'.Kept setup')
    (hroles : setup.role ≠ setup'.role) {s s' : Sealing} (hs : s ∈ e.sealings)
    (hs' : s' ∈ e'.sealings) : s.place ≠ s'.place := by
  intro heq
  rcases List.mem_append.1 hs with hs | hs <;> rcases List.mem_append.1 hs' with hs' | hs'
  · obtain ⟨stage, hp⟩ := mem_places he hs
    obtain ⟨stage', hp'⟩ := mem_places he' hs'
    rw [heq] at hp
    generalize setup.role = role at hp hroles
    generalize setup'.role = role' at hp' hroles
    cases role <;> cases role'
    · exact hroles rfl
    · exact places_disjoint hp hp'
    · exact places_disjoint hp' hp
    · exact hroles rfl
  · obtain ⟨stage, hp⟩ := mem_places he hs
    obtain ⟨n', hp'⟩ := (place_of_sent he' hs').1
    exact places_ne_place hp (heq.trans hp')
  · obtain ⟨n, hp⟩ := (place_of_sent he hs).1
    obtain ⟨stage', hp'⟩ := mem_places he' hs'
    exact places_ne_place hp' (heq.symm.trans hp)
  · obtain ⟨n, hp⟩ := (place_of_sent he hs).1
    obtain ⟨n', hp'⟩ := (place_of_sent he' hs').1
    have hname := congrArg Prod.fst (hp.symm.trans (heq.trans hp'))
    exact hroles (KeyName.transport.inj hname).1

theorem nodup_places (he : e.Kept setup) : (e.sealings.map Sealing.place).Nodup := by
  have hapart : ∀ {sealings : List Sealing}, sealings.Pairwise Sealing.Before →
      (sealings.map Sealing.place).Nodup := by
    intro sealings h
    rw [List.Nodup, List.pairwise_map]
    exact h.imp Sealing.place_ne_of_before
  rw [sealings, List.map_append, List.nodup_append]
  refine ⟨hapart (he.booked.sound.ordered (roomy_of_booked he.booked)),
    hapart (before_sent he), ?_⟩
  intro p hp q hq
  obtain ⟨s, hs, rfl⟩ := List.mem_map.1 hp
  obtain ⟨s', hs', rfl⟩ := List.mem_map.1 hq
  obtain ⟨stage, hp⟩ := mem_places he hs
  obtain ⟨n, hq⟩ := (place_of_sent he hs').1
  exact fun heq => places_ne_place hp (heq.trans hq)

/-! ## Counters -/

theorem counters_of_atFrame {k : RotatingKey} (hk : k.AtFrame) :
    k.counter.toNat + 1 < UInt64.size ∧ k.advance.counter.toNat + 1 < UInt64.size := by
  have hlt := hk.2
  rw [RotatingKey.toNat_counter_advance hk, UInt64.size]
  omega

end Endpoint

end Bolt8
