import Bolt8.Proofs.Transport.Schedule

/-!
# The lines of a channel

A channel tells of a rotation after the fact, by the counter that stands at zero
again. At the end of a frame that is so only if the frame was the last of its
epoch. So a call leaves a line exactly when it has brought a key to another epoch
(`logs_turns`), and in a run the lines of each direction count its epochs from
one on (`epochs_run`).
-/

namespace Bolt8

open RotatingKey

/-! ## The end of a frame -/

namespace RotatingKey

variable {k : RotatingKey}

theorem epoch_advance_advance (h : k.AtFrame) :
    (k.advance.advance.counter = 0 ∧ k.advance.advance.epoch = k.epoch + 1) ∨
      (k.advance.advance.counter ≠ 0 ∧ k.advance.advance.epoch = k.epoch) := by
  rw [advance_eq h, advance]
  dsimp only
  split
  · exact .inl ⟨rfl, rfl⟩
  · refine .inr ⟨?_, rfl⟩
    intro hzero
    have hcounter := congrArg UInt64.toNat hzero
    rw [UInt64.toNat_add, UInt64.toNat_add] at hcounter
    have := h.2
    simp at hcounter
    omega

/-- The counter is back at zero exactly when the frame has led to another epoch. -/
theorem rotation_eq (h : k.AtFrame) (direction : Direction) :
    k.advance.advance.rotation direction =
      if k.advance.advance.epoch = k.epoch then []
      else [.rotated direction k.advance.advance.epoch] := by
  unfold rotation
  rcases epoch_advance_advance h with ⟨hzero, hepoch⟩ | ⟨hzero, hepoch⟩
  · have hmoved : k.advance.advance.epoch ≠ k.epoch := by simp [hepoch]
    rw [if_pos hzero, if_neg hmoved]
  · rw [if_neg hzero, if_pos hepoch]

end RotatingKey

/-! ## One call -/

namespace Channel

/-- The key of one direction. -/
def keyFor (c : Channel) : Direction → RotatingKey
  | .sending => c.sending
  | .receiving => c.receiving

/-- The direction in which a call can move a key on. -/
def Call.direction? : Call → Option Direction
  | .encrypt _ => some .sending
  | .decryptMessage _ | .decryptFrame _ => some .receiving
  | .decryptLength _ => none

def loggedBy (c : Channel) : Call → List Event
  | .encrypt message => (c.encrypt message).log
  | .decryptLength sealed => (c.decryptLength sealed).log
  | .decryptMessage sealed => (c.decryptMessage sealed).log
  | .decryptFrame input => (c.decryptFrame input).log

/-- The line that a rotation in the call calls for, if there was one. -/
def turned (c : Channel) (d : Call) (direction : Direction) : List Event :=
  let epoch := ((c.after d).keyFor direction).epoch
  if epoch = (c.keyFor direction).epoch then [] else [.rotated direction epoch]

variable {c : Channel} {d : Call} {direction : Direction}

/-- What a call can do to the keys, and the line that it leaves with it. -/
inductive Moves (c : Channel) (d : Call) : Prop
  | still :
      (∀ direction, (c.after d).keyFor direction = c.keyFor direction) → c.loggedBy d = [] →
      Moves c d
  | frame {direction : Direction} :
      d.direction? = some direction →
      (c.after d).keyFor direction = (c.keyFor direction).advance.advance →
      (∀ other, other ≠ direction → (c.after d).keyFor other = c.keyFor other) →
      c.loggedBy d = ((c.after d).keyFor direction).rotation direction →
      Moves c d

theorem moves_encrypt (c : Channel) (message : Bytes) : c.Moves (.encrypt message) := by
  by_cases hlarge : maxMessageSize < message.length
  · apply Moves.still
    · intro direction
      rw [after, encrypt, if_pos hlarge]
    · rw [loggedBy, encrypt, if_pos hlarge]
  · have hout := encrypt_eq c (Nat.le_of_not_lt hlarge)
    apply @Moves.frame c _ .sending rfl
    · rw [after, hout]
      dsimp only [keyFor]
    · intro other hother
      cases other with
      | sending => exact absurd rfl hother
      | receiving =>
          rw [after, hout]
          dsimp only [keyFor]
    · rw [loggedBy, after, hout]
      dsimp only [keyFor]

theorem moves_of_commit {d : Call} (hdirection : d.direction? = some .receiving)
    (hafter : c.after d = c.commit)
    (hlog : c.loggedBy d = c.commit.receiving.rotation .receiving) : c.Moves d := by
  apply Moves.frame hdirection
  · rw [hafter]
    rfl
  · intro other hother
    cases other with
    | sending =>
        rw [hafter]
        rfl
    | receiving => exact absurd rfl hother
  · rw [hlog, hafter]
    dsimp only [keyFor]

theorem moves (c : Channel) (d : Call) : c.Moves d := by
  cases d with
  | encrypt message => exact moves_encrypt c message
  | decryptLength sealed =>
      apply Moves.still
      · intro direction
        simp only [after, decryptLength]
        cases c.announced sealed <;> cases direction <;> rfl
      · simp only [loggedBy, decryptLength]
        cases c.announced sealed <;> rfl
  | decryptMessage sealed =>
      have hattempt := attempt_decryptMessage c sealed
      generalize hout : c.decryptMessage sealed = out at hattempt
      have hafter : c.after (.decryptMessage sealed) = out.state := congrArg Outcome.state hout
      have hlog : c.loggedBy (.decryptMessage sealed) = out.log := congrArg Outcome.log hout
      cases hattempt with
      | early | misfit | forged => exact .still (fun _ => by rw [hafter]) hlog
      | received =>
          dsimp only at hafter hlog
          exact moves_of_commit rfl hafter hlog
  | decryptFrame input =>
      have hattempt := attempt_decryptFrame c input
      generalize hout : c.decryptFrame input = out at hattempt
      have hafter : c.after (.decryptFrame input) = out.state := congrArg Outcome.state hout
      have hlog : c.loggedBy (.decryptFrame input) = out.log := congrArg Outcome.log hout
      cases hattempt with
      | busy | short | forgedLength | incomplete | forgedBody =>
          exact .still (fun _ => by rw [hafter]) hlog
      | whole =>
          dsimp only at hafter hlog
          exact moves_of_commit rfl hafter hlog

theorem turned_of_same (h : (c.after d).keyFor direction = c.keyFor direction) :
    c.turned d direction = [] := by
  rw [turned, h]
  exact if_pos rfl

theorem turned_of_frame (hkey : (c.keyFor direction).AtFrame)
    (h : (c.after d).keyFor direction = (c.keyFor direction).advance.advance) :
    c.turned d direction = ((c.after d).keyFor direction).rotation direction := by
  rw [turned, h]
  exact (rotation_eq hkey direction).symm

/-- The line of a call is the one that its direction calls for. -/
theorem loggedBy_eq (hkeys : ∀ direction, (c.keyFor direction).AtFrame) (d : Call) :
    c.loggedBy d = match d.direction? with
      | some direction => c.turned d direction
      | none => [] := by
  cases moves c d with
  | still hsame hlog =>
      rw [hlog]
      cases d.direction? with
      | none => rfl
      | some direction => exact (turned_of_same (hsame direction)).symm
  | @frame direction hdirection hnext hother hlog =>
      rw [hlog, hdirection]
      exact (turned_of_frame (hkeys direction) hnext).symm

/-- A call leaves a key in its epoch, or brings it to the next. -/
theorem epoch_after (hkeys : ∀ direction, (c.keyFor direction).AtFrame) (d : Call)
    (direction : Direction) :
    ((c.after d).keyFor direction).epoch = (c.keyFor direction).epoch ∨
      ((c.after d).keyFor direction).epoch = (c.keyFor direction).epoch + 1 := by
  cases moves c d with
  | still hsame => exact .inl (congrArg RotatingKey.epoch (hsame direction))
  | @frame moved _ hnext hother =>
      by_cases hmoved : direction = moved
      · subst hmoved
        rw [hnext]
        exact (epoch_advance_advance (hkeys direction)).symm.imp And.right And.right
      · exact .inl (congrArg RotatingKey.epoch (hother direction hmoved))

end Channel

/-! ## All calls -/

/-- The epochs that a log names for one direction, in order. -/
def epochs (direction : Direction) (log : List Event) : List UInt64 :=
  log.filterMap fun
    | .rotated moved epoch => if moved = direction then some epoch else none
    | .advanced .. | .refused .. | .failed .. => none

theorem epochs_append (direction : Direction) (log later : List Event) :
    epochs direction (log ++ later) = epochs direction log ++ epochs direction later :=
  List.filterMap_append

theorem Channel.epochs_loggedBy {c : Channel} (hkeys : ∀ direction, (c.keyFor direction).AtFrame)
    (d : Call) (direction : Direction) :
    epochs direction (c.loggedBy d) =
      let epoch := ((c.after d).keyFor direction).epoch
      if epoch = (c.keyFor direction).epoch then [] else [epoch] := by
  dsimp only
  cases moves c d with
  | still hsame hlog =>
      rw [hlog, hsame, if_pos rfl]
      rfl
  | @frame moved _ hnext hother hlog =>
      rw [hlog]
      by_cases hmoved : moved = direction
      · subst hmoved
        rw [hnext, rotation_eq (hkeys moved)]
        split
        · rfl
        · simp [epochs]
      · rw [hother direction (Ne.symm hmoved), if_pos rfl, RotatingKey.rotation]
        split
        · simp [epochs, hmoved]
        · rfl

namespace Usage

variable {key : Direction → Aead.Key} {chainingKey : Digest} {c : Channel} {u : Usage}

/-- The messages that have gone through in one direction, a frame to each. -/
def frames (u : Usage) : Direction → List Bytes
  | .sending => u.sent
  | .receiving => u.accepted

theorem frames_start (c : Channel) (direction : Direction) : (start c).frames direction = [] := by
  cases direction <;> rfl

def logged (u : Usage) : List Channel.Call → List Event
  | [] => []
  | d :: calls => u.channel.loggedBy d ++ (u.call d).logged calls

theorem logged_snoc (u : Usage) (calls : List Channel.Call) (d : Channel.Call) :
    u.logged (calls ++ [d]) = u.logged calls ++ (u.run calls).channel.loggedBy d := by
  induction calls generalizing u with
  | nil => exact List.append_nil _
  | cons d' calls ih =>
      rw [List.cons_append, logged, ih, logged, List.append_assoc]
      rfl

theorem length_frames_call (u : Usage) (d : Channel.Call) (direction : Direction) :
    ((u.call d).frames direction).length = (u.frames direction).length ∨
      ((u.call d).frames direction).length = (u.frames direction).length + 1 := by
  have hdoes := Channel.does_use u.channel d
  unfold call
  generalize u.channel.use d = out at hdoes ⊢
  cases direction with
  | sending =>
      rw [frames, frames, List.length_append]
      cases hdoes with
      | send => exact .inr rfl
      | receive | neither => exact .inl rfl
  | receiving =>
      rw [frames, frames, List.length_append]
      cases hdoes with
      | receive => exact .inr rfl
      | send | neither => exact .inl rfl

theorem keyFor_run (hstart : ∀ direction, c.keyFor direction = .start (key direction) chainingKey)
    (calls : List Channel.Call) (direction : Direction) :
    let u := (start c).run calls
    u.channel.keyFor direction =
      scheduled (key direction) chainingKey (u.frames direction).length := by
  induction calls using List.reverseRecOn with
  | nil =>
      intro u
      rw [show u.frames direction = [] from frames_start c direction]
      exact (hstart direction).trans scheduled_zero.symm
  | append_singleton calls d ih =>
      rw [run_snoc]
      cases direction with
      | sending => exact sending_call ih d
      | receiving => exact receiving_call ih d

theorem epochs_next {n n' : ℕ} (h : n' = n ∨ n' = n + 1) :
    (List.range n').map (fun epoch => UInt64.ofNat (epoch + 1)) =
      (List.range n).map (fun epoch => UInt64.ofNat (epoch + 1)) ++
        if UInt64.ofNat n' = .ofNat n then [] else [.ofNat n'] := by
  rcases h with rfl | rfl
  · rw [if_pos rfl, List.append_nil]
  · have hmoved : UInt64.ofNat (n + 1) ≠ .ofNat n := by simp [UInt64.ofNat_add]
    rw [if_neg hmoved, List.range_succ, List.map_append, List.map_singleton]

/-- A line for each 500 frames. -/
theorem epochs_run (hstart : ∀ direction, c.keyFor direction = .start (key direction) chainingKey)
    (calls : List Channel.Call) (direction : Direction) :
    epochs direction ((start c).logged calls) =
      (List.range ((((start c).run calls).frames direction).length / 500)).map
        fun epoch => .ofNat (epoch + 1) := by
  induction calls using List.reverseRecOn with
  | nil =>
      rw [show (start c).run [] = start c from rfl, frames_start]
      rfl
  | append_singleton calls d ih =>
      have hkeys := keyFor_run hstart calls
      have hlater := keyFor_run hstart (calls ++ [d]) direction
      have hframes := length_frames_call ((start c).run calls) d direction
      rw [logged_snoc, epochs_append, ih]
      rw [run_snoc] at hlater ⊢
      generalize (start c).run calls = u at hkeys hlater hframes ⊢
      have hatFrame : ∀ direction, (u.channel.keyFor direction).AtFrame := by
        intro direction
        rw [hkeys]
        exact atFrame_scheduled _
      have hbefore : (u.channel.keyFor direction).epoch = _ :=
        congrArg RotatingKey.epoch (hkeys direction)
      have hafter : ((u.channel.after d).keyFor direction).epoch = _ :=
        congrArg RotatingKey.epoch hlater
      rw [Channel.epochs_loggedBy hatFrame]
      dsimp only
      rw [hbefore, hafter]
      refine (epochs_next ?_).symm
      omega

/-- While the numbers of the epochs last, they are the numbers from one on. -/
theorem toNat_epochs_run
    (hstart : ∀ direction, c.keyFor direction = .start (key direction) chainingKey)
    (calls : List Channel.Call) (direction : Direction)
    (hepochs : (((start c).run calls).frames direction).length / 500 < UInt64.size) :
    (epochs direction ((start c).logged calls)).map UInt64.toNat =
      List.range' 1 ((((start c).run calls).frames direction).length / 500) := by
  rw [epochs_run hstart, List.map_map, List.range'_eq_map_range]
  apply List.map_congr_left
  intro epoch hmem
  have hlt := List.mem_range.1 hmem
  rw [Function.comp_apply, UInt64.toNat_ofNat_of_lt' (by omega), Nat.add_comm]

end Usage

end Bolt8
