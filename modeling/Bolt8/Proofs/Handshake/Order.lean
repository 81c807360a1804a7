import Bolt8.Proofs.Handshake.Calls

/-!
# The acts in order

What a sequence of calls comes to. Calls out of turn might as well not have been
made; the first call in turn that fails is the end of the handshake; what
succeeds are the acts in their order; and the channel is given by the call that
completes them, if that happens at all.
-/

namespace Bolt8

namespace Handshake

/-- A call, and the object as the call finds it. -/
structure Visit where
  found : Handshake
  call : Call

namespace Visit

variable (v : Visit)

def outcome : Outcome Handshake Given := v.found.call v.call

/-- The table allows the call. -/
def inTurn : Bool := (v.found.next? v.call.act).isSome

def succeeded : Bool :=
  match v.outcome.result with
  | .ok _ => true
  | .error _ => false

def channel : Option Channel :=
  match v.outcome.result with
  | .ok given => given.channel
  | .error _ => none

end Visit

def visits (h : Handshake) : List Call → List Visit
  | [] => []
  | c :: calls => ⟨h, c⟩ :: (h.after c).visits calls

/-- The calls that the table allows. -/
def turns (h : Handshake) (calls : List Call) : List Call :=
  ((h.visits calls).filter Visit.inTurn).map Visit.call

/-- No secret is left, and no call gets anywhere ever again. -/
structure Over (h : Handshake) : Prop where
  stage : h.stage = .failed
  transcript : h.transcript? = none
  ephemeral : h.ephemeral? = none
  same : ∀ later, h.run later = h
  refused : ∀ c, (h.call c).result = .error .outOfTurn
  hash : h.handshakeHash = .error .outOfTurn

variable {h : Handshake} {c : Call}

/-! ## One call -/

theorem call_of_refused (hnone : h.next? c.act = none) :
    (h.call c).result = .error .outOfTurn ∧ h.after c = h := by
  unfold after
  have htook := h.took_call c
  generalize h.call c = out at htook ⊢
  cases htook with
  | refused => exact ⟨rfl, rfl⟩
  | failed hsome | advanced hsome => cases hnone.symm.trans hsome

theorem call_of_failed {next : Stage} {error : Error} (hnext : h.next? c.act = some next)
    (hresult : (h.call c).result = .error error) : h.after c = h.abandon := by
  unfold after
  have htook := h.took_call c
  generalize h.call c = out at htook hresult ⊢
  cases htook with
  | refused hnone => cases hnext.symm.trans hnone
  | failed => rfl
  | advanced => cases hresult

/-- A call that succeeds takes the next act, and gives the channel if that is the last. -/
theorem call_of_succeeded {given : Given} (hresult : (h.call c).result = .ok given) :
    h.stage.remaining = c.act :: (h.after c).stage.remaining ∧
      (given.channel.isSome ↔ (h.after c).stage = .complete) := by
  unfold after
  have htook := h.took_call c
  generalize h.call c = out at htook hresult ⊢
  cases htook with
  | refused | failed => cases hresult
  | advanced hnext hstage _ _ hchannel =>
      obtain rfl := Except.ok.inj hresult
      subst hstage
      exact ⟨Stage.remaining_of_after hnext, hchannel⟩

theorem run_of_terminal (hterminal : h.stage.isTerminal) (calls : List Call) :
    h.run calls = h := by
  induction calls with
  | nil => rfl
  | cons c calls ih =>
      have hsame := (call_of_refused (c := c) (Stage.after_of_terminal hterminal _)).2
      rw [run_cons, hsame, ih]

theorem over_abandon (h : Handshake) : h.abandon.Over := by
  have hstage : h.abandon.stage = .failed := by cases h <;> rfl
  have hterminal : h.abandon.stage.isTerminal := by rw [hstage]; rfl
  exact {
    stage := hstage
    transcript := by cases h <;> rfl
    ephemeral := by cases h <;> rfl
    same := run_of_terminal hterminal
    refused := fun c => (call_of_refused (Stage.after_of_terminal hterminal _)).1
    hash := by cases h <;> rfl }

/-- An object with a step to take keeps both static keys when it is given up. -/
theorem abandon_keeps {act : Act} {next : Stage} (hnext : h.next? act = some next) :
    h.abandon.identity = h.identity ∧ h.abandon.remoteStatic = h.remoteStatic := by
  cases h with
  | initiator i => exact ⟨rfl, rfl⟩
  | responder r =>
      obtain ⟨identity, phase⟩ := r
      cases phase with
      | complete remote => cases act <;> cases hnext
      | _ => exact ⟨rfl, rfl⟩

theorem channel_isSome_iff (v : Visit) :
    v.channel.isSome ↔ v.found.stage ≠ .complete ∧ v.outcome.state.stage = .complete := by
  obtain ⟨h, c⟩ := v
  cases hresult : (h.call c).result with
  | ok given =>
      obtain ⟨hremaining, hchannel⟩ := call_of_succeeded hresult
      have hstage : h.stage ≠ .complete := by
        intro hcomplete
        rw [hcomplete] at hremaining
        cases hremaining
      simp only [Visit.channel, Visit.outcome, hresult, hchannel]
      exact ⟨fun hafter => ⟨hstage, hafter⟩, And.right⟩
  | error error =>
      simp only [Visit.channel, Visit.outcome, hresult]
      refine iff_of_false nofun ?_
      rintro ⟨hstage, hafter⟩
      cases hnext : h.next? c.act with
      | none => exact hstage ((call_of_refused hnext).2 ▸ hafter)
      | some next =>
          have hafter : h.abandon.stage = .complete := call_of_failed hnext hresult ▸ hafter
          rw [(over_abandon h).stage] at hafter
          cases hafter

/-! ## All calls -/

theorem mem_visits {calls : List Call} {v : Visit} (hv : v ∈ h.visits calls) :
    ∃ pre post, calls = pre ++ v.call :: post ∧ v.found = h.run pre := by
  induction calls generalizing h with
  | nil => cases hv
  | cons c calls ih =>
      rcases List.mem_cons.1 hv with rfl | hv
      · exact ⟨[], calls, rfl, rfl⟩
      · obtain ⟨pre, post, rfl, hfound⟩ := ih hv
        exact ⟨c :: pre, post, rfl, hfound⟩

/-- What a call leaves in a final stage is there in the end. -/
theorem run_of_visit {calls : List Call} {v : Visit} (hv : v ∈ h.visits calls)
    (hterminal : v.outcome.state.stage.isTerminal) : h.run calls = v.outcome.state := by
  obtain ⟨pre, post, rfl, hfound⟩ := mem_visits hv
  rw [run_append, run_cons, ← hfound]
  exact run_of_terminal hterminal post

theorem visits_turns (h : Handshake) (calls : List Call) :
    h.visits (h.turns calls) = (h.visits calls).filter Visit.inTurn ∧
      h.run (h.turns calls) = h.run calls := by
  induction calls generalizing h with
  | nil => exact ⟨rfl, rfl⟩
  | cons c calls ih =>
      obtain ⟨hvisits, hrun⟩ := ih (h.after c)
      by_cases hturn : (⟨h, c⟩ : Visit).inTurn
      · have hturns : h.turns (c :: calls) = c :: (h.after c).turns calls := by
          simp only [turns, visits, List.filter_cons_of_pos hturn, List.map_cons]
        rw [hturns, visits, visits, List.filter_cons_of_pos hturn, hvisits, run_cons, hrun]
        exact ⟨rfl, rfl⟩
      · have hturns : h.turns (c :: calls) = (h.after c).turns calls := by
          simp only [turns, visits, List.filter_cons_of_neg hturn]
        have hsame : h.after c = h := by
          apply (call_of_refused _).2
          simpa [Visit.inTurn] using hturn
        rw [hturns, visits, List.filter_cons_of_neg hturn, ← hvisits, run_cons, ← hrun, hsame]
        exact ⟨rfl, rfl⟩

theorem succeeded_prefix (h : Handshake) (calls : List Call) :
    ((h.visits calls).filter Visit.succeeded).map (fun v => v.call.act) <+:
      h.stage.remaining := by
  induction calls generalizing h with
  | nil => exact List.nil_prefix
  | cons c calls ih =>
      have hrest := ih (h.after c)
      cases hresult : (h.call c).result with
      | ok given =>
          have hsucceeded : (⟨h, c⟩ : Visit).succeeded := by
            simp [Visit.succeeded, Visit.outcome, hresult]
          rw [visits, List.filter_cons_of_pos hsucceeded, (call_of_succeeded hresult).1]
          exact List.prefix_cons_inj _ |>.2 hrest
      | error error =>
          have hfailed : ¬(⟨h, c⟩ : Visit).succeeded := by
            simp [Visit.succeeded, Visit.outcome, hresult]
          rw [visits, List.filter_cons_of_neg hfailed]
          cases hnext : h.next? c.act with
          | none => rwa [(call_of_refused hnext).2] at hrest ⊢
          | some next =>
              -- nothing remains after a failure
              rw [call_of_failed hnext hresult, (over_abandon h).stage] at hrest
              rw [call_of_failed hnext hresult, List.prefix_nil.1 hrest]
              exact List.nil_prefix

theorem channel_of_terminal {calls : List Call} (hterminal : h.stage.isTerminal) {v : Visit}
    (hv : v ∈ h.visits calls) : v.channel = none := by
  obtain ⟨pre, post, -, hfound⟩ := mem_visits hv
  rw [run_of_terminal hterminal] at hfound
  have hrefused : v.outcome.result = .error .outOfTurn :=
    (call_of_refused (Stage.after_of_terminal (by rwa [hfound]) _)).1
  rw [Visit.channel, hrefused]

theorem length_channels (h : Handshake) (calls : List Call) :
    ((h.visits calls).filterMap Visit.channel).length ≤ 1 := by
  induction calls generalizing h with
  | nil => exact Nat.zero_le 1
  | cons c calls ih =>
      cases hchannel : (⟨h, c⟩ : Visit).channel with
      | none =>
          rw [visits, List.filterMap_cons_none hchannel]
          exact ih (h.after c)
      | some channel =>
          have hcomplete := ((channel_isSome_iff ⟨h, c⟩).1 (by rw [hchannel]; rfl)).2
          have hterminal : (h.after c).stage.isTerminal := congrArg Stage.isTerminal hcomplete
          have hrest : ((h.after c).visits calls).filterMap Visit.channel = [] :=
            List.filterMap_eq_nil_iff.2 fun _ => channel_of_terminal hterminal
          rw [visits, List.filterMap_cons_some hchannel, hrest]
          exact Nat.le_refl 1

theorem in_order (setup : Setup) (calls : List Call) :
    let h := start setup
    let visits := h.visits calls
    (∀ v ∈ visits, v.inTurn = false →
      v.outcome.result = .error .outOfTurn ∧ v.outcome.state = v.found) ∧
    (h.visits (h.turns calls) = visits.filter Visit.inTurn ∧
      h.run (h.turns calls) = h.run calls) ∧
    (∀ v ∈ visits, v.inTurn = true → v.succeeded = false →
      v.outcome.state.Over ∧ h.run calls = v.outcome.state ∧
      v.outcome.state.identity = v.found.identity ∧
      v.outcome.state.remoteStatic = v.found.remoteStatic) ∧
    (visits.filter Visit.succeeded).map (fun v => v.call.act) <+: [.one, .two, .three] ∧
    (visits.filterMap Visit.channel).length ≤ 1 ∧
    (∀ v ∈ visits, v.channel.isSome ↔
      v.found.stage ≠ .complete ∧ v.outcome.state.stage = .complete) ∧
    ((h.run calls).stage = .failed → ∀ v ∈ visits, v.channel = none) := by
  intro h visits
  refine ⟨?_, visits_turns h calls, ?_, ?_, length_channels h calls,
    fun v _ => channel_isSome_iff v, ?_⟩
  · intro v _ hturn
    exact call_of_refused (by simpa [Visit.inTurn] using hturn)
  · intro v hv hturn hfailed
    obtain ⟨next, hnext⟩ := Option.isSome_iff_exists.1 hturn
    cases hresult : (v.found.call v.call).result with
    | ok given => simp [Visit.succeeded, Visit.outcome, hresult] at hfailed
    | error error =>
        have hstate : v.outcome.state = v.found.abandon := call_of_failed hnext hresult
        have hover := over_abandon v.found
        rw [← hstate] at hover
        refine ⟨hover, run_of_visit hv ?_, ?_⟩
        · rw [hover.stage]
          rfl
        · rw [hstate]
          exact abandon_keeps hnext
  · have hremaining : h.stage.remaining = [.one, .two, .three] := by cases setup <;> rfl
    rw [← hremaining]
    exact succeeded_prefix h calls
  · intro hfailed v hv
    by_contra hsome
    have hcomplete := ((channel_isSome_iff v).1 (Option.isSome_iff_ne_none.2 hsome)).2
    rw [run_of_visit hv (congrArg Stage.isTerminal hcomplete), hcomplete] at hfailed
    cases hfailed

/-- Act 2 comes too early, which does not matter, and then empty, which does. -/
theorem over_of_empty_act :
    let i := KeyPair.ofSecret ⟨1, by decide, by decide⟩
    let e := KeyPair.ofSecret ⟨2, by decide, by decide⟩
    let r := KeyPair.ofSecret ⟨3, by decide, by decide⟩
    let h := start (.initiator i r.pub e)
    let calls : List Call := [⟨.two, []⟩, ⟨.one, []⟩, ⟨.two, []⟩]
    (h.call ⟨.two, []⟩).result = .error .outOfTurn ∧
    h.turns calls = [⟨.one, []⟩, ⟨.two, []⟩] ∧
    (h.run calls).Over ∧ (h.run calls).remoteStatic = some r.pub := by
  intro i e r h calls
  clear_value i e r
  have hearly : h.after ⟨.two, []⟩ = h := rfl
  have hone : h.after ⟨.one, []⟩ =
      initiator ⟨i, r.pub, .actOneSent (Initiator.one r.pub e).closing.transcript e⟩ := by
    simp only [h, start, after, call, Initiator.writeActOne_eq]
    rfl
  have hvisits : h.visits calls =
      [⟨h, ⟨.two, []⟩⟩, ⟨h, ⟨.one, []⟩⟩, ⟨h.after ⟨.one, []⟩, ⟨.two, []⟩⟩] := by
    simp only [calls, visits, hearly]
  have hfirst : ⟨h, ⟨.two, []⟩⟩ ∈ h.visits calls := by simp [hvisits]
  have hlast : ⟨h.after ⟨.one, []⟩, ⟨.two, []⟩⟩ ∈ h.visits calls := by simp [hvisits]
  obtain ⟨hrefused, -, hfailed, -⟩ := in_order (.initiator i r.pub e) calls
  obtain ⟨hover, hrun, -, hremote⟩ :=
    hfailed _ hlast (by rw [hone]; rfl) (by rw [hone]; rfl)
  refine ⟨(hrefused _ hfirst rfl).1, ?_, hrun ▸ hover, ?_⟩
  · rw [turns, hvisits, hone]
    rfl
  · rw [hrun, hremote, hone]
    rfl

end Handshake

end Bolt8
