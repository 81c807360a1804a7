import Bolt8.Proofs.Handshake.Session
import Bolt8.Proofs.Transport.Frame

/-!
# What the two ends agree on

Whatever is called in an honest session, each call in sequence succeeds; both
ends hold one transcript after act 1 and after act 2, and act 3 opens a channel
with two mirrored ends. `script` is the shortest such session.
-/

namespace Bolt8.Session

variable {i r e e' : KeyPair}

/-! ## A session that completes -/

/-- The call that is due, with the act that was written. -/
def next (s : Session) : Call :=
  match s.initiator.stage, s.responder.stage with
  | .initialized, _ => .writeActOne
  | .actOneSent, .initialized => .readActOne (s.actOne.getD [])
  | .actOneSent, .actOneReceived => .writeActTwo
  | .actOneSent, _ => .readActTwo (s.actTwo.getD [])
  | .actTwoReceived, _ => .writeActThree
  | _, _ => .readActThree ((s.actThree.map Prod.fst).getD [])

/-- The next `n` calls. -/
def script : Nat → Session → List Call
  | 0, _ => []
  | n + 1, s => s.next :: script n (s.after s.next)

theorem due_next {n : Nat} {s : Session} (hs : Progress i r e e' n s) (hn : n < 6) :
    s.Due s.next ∧ s.Delivers s.next := by
  cases hs with
  | opened | oneRead | twoRead =>
      exact ⟨rfl, trivial⟩
  | oneWritten | twoWritten =>
      exact ⟨rfl, rfl⟩
  | threeWritten =>
      exact ⟨rfl, _, rfl⟩
  | threeRead =>
      omega

/-- From any point of an honest session the remaining steps can be taken. -/
theorem progress_script {m n : Nat} {s : Session} (hs : Progress i r e e' m s)
    (hmn : m + n = 6) :
    s.Honest (script n s) ∧ Progress i r e e' 6 (s.run (script n s)) := by
  induction n generalizing m s with
  | zero =>
      obtain rfl : m = 6 := hmn
      exact ⟨always_nil, hs⟩
  | succ n ih =>
      obtain ⟨hdue, hnext⟩ := due_next hs (by omega)
      obtain ⟨hhonest, hend⟩ := ih (progress_call hs hdue hnext).2 (by omega)
      exact ⟨always_cons.2 ⟨fun _ => hnext, hhonest⟩, hend⟩

theorem honest_script (i r e e' : KeyPair) :
    (start i r e e').Honest (script 6 (start i r e e')) :=
  (progress_script .opened rfl).1

theorem complete_script (i r e e' : KeyPair) :
    ((start i r e e').run (script 6 (start i r e e'))).responder.stage = .complete := by
  generalize hs : (start i r e e').run (script 6 (start i r e e')) = s
  have hend : Progress i r e e' 6 s := hs ▸ (progress_script .opened rfl).2
  cases hend
  rfl

/-! ## Agreement -/

/-- Both ends hold the same hash, chaining key, temporary key and counter. -/
def InStep (s : Session) : Prop :=
  ∃ t : Transcript, s.initiator.phase.transcript? = some t ∧
    s.responder.phase.transcript? = some t

/-- Both ends are complete, the responder knows the key `identity`, and the
channels handed out are mirrored and bound to one handshake. -/
def Agreed (s : Session) (identity : PublicKey) : Prop :=
  s.initiator.stage = .complete ∧ s.responder.stage = .complete ∧
    ∃ act ours theirs hash,
      s.actThree = some (act, ours) ∧ s.accepted = some (theirs, identity) ∧
        ours.Mirrored theirs ∧
        ours.handshakeHash = some hash ∧ theirs.handshakeHash = some hash

theorem honest_agreement (i r e e' : KeyPair) (calls : List Call)
    (h : (start i r e e').Honest calls) :
    let s := (start i r e e').run calls
    Always after (fun s c => s.Due c → (s.call c).result = .ok ()) (start i r e e') calls ∧
    (s.responder.stage = .actOneReceived → s.InStep) ∧
    (s.initiator.stage = .actTwoReceived → s.InStep) ∧
    (s.responder.stage = .complete → s.Agreed i.pub) := by
  intro s
  refine ⟨always_of_invariant (fun _ _ => progress_after) ?_ ⟨0, .opened⟩ h, ?_⟩
  · rintro s c ⟨n, hs⟩ hc hdue
    exact (progress_call hs hdue (hc hdue)).1
  · obtain ⟨n, hs⟩ : ∃ n, Progress i r e e' n s := progress_run h
    clear_value s
    cases hs with
    | oneRead =>
        exact ⟨fun _ => ⟨_, rfl, rfl⟩, nofun, nofun⟩
    | twoRead =>
        exact ⟨nofun, fun _ => ⟨_, rfl, rfl⟩, nofun⟩
    | threeRead =>
        exact ⟨nofun, nofun, fun _ =>
          ⟨rfl, rfl, _, _, _, _, rfl, rfl, Channel.mirrored_ofSplit _, rfl, rfl⟩⟩
    | _ =>
        exact ⟨nofun, nofun, nofun⟩

theorem agreed_of_script :
    let i := KeyPair.ofSecret ⟨1, by decide, by decide⟩
    let s := start i (.ofSecret ⟨2, by decide, by decide⟩) (.ofSecret ⟨3, by decide, by decide⟩)
      (.ofSecret ⟨4, by decide, by decide⟩)
    s.Honest (script 6 s) ∧ (s.run (script 6 s)).Agreed i.pub := by
  intro i s
  have h : s.Honest (script 6 s) := honest_script _ _ _ _
  exact ⟨h, (honest_agreement _ _ _ _ _ h).2.2.2 (complete_script ..)⟩

end Bolt8.Session
