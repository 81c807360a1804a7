import Bolt8.Proofs.Handshake.Order
import Bolt8.Proofs.Transport.Rotations

/-!
# What the log tells

A handshake leaves one line for each call. A reader who has only the texts of
these lines, and looks at no more than the fourth and the fifth word, still knows
the stage after each call (`stage_run`). With the lines of a channel, which count
the epochs of its keys, the log is a full account of what has happened
(`log_accounts`).
-/

namespace Bolt8

/-! ## The words of a line -/

def words (line : String) : List String := (line.toList.splitOn ' ').map String.ofList

theorem ne_blank {word : String} (h : ' ' ∉ word.toList) :
    ∀ x ∈ word.toList, (x == ' ') = false := by
  intro x hx
  rw [beq_eq_false_iff_ne]
  rintro rfl
  exact h hx

theorem words_of_word {word : String} (h : ' ' ∉ word.toList) : words word = [word] := by
  rw [words, List.splitOn_eq_splitOnP, List.splitOnP_eq_singleton (ne_blank h),
    List.map_singleton, String.ofList_toList]

theorem words_append {word : String} (h : ' ' ∉ word.toList) (text : String) :
    words (word ++ " " ++ text) = word :: words text := by
  have hlist : (word ++ " " ++ text).toList = word.toList ++ ' ' :: text.toList := by simp
  rw [words, hlist, List.splitOn_eq_splitOnP,
    List.splitOnP_append_cons_of_forall_mem (ne_blank h) ' ' rfl, List.map_cons,
    String.ofList_toList]
  rfl

theorem Role.blank_not_mem (role : Role) : ' ' ∉ (role.name ++ ":").toList := by
  cases role <;> decide

theorem Step.blank_not_mem (step : Step) : ' ' ∉ step.name.toList := by
  obtain act | act := step <;> cases act <;> decide

theorem Stage.blank_not_mem (stage : Stage) : ' ' ∉ stage.name.toList := by
  cases stage <;> decide

theorem Direction.blank_not_mem (direction : Direction) : ' ' ∉ direction.name.toList := by
  cases direction <;> decide

namespace Event

theorem words_advanced (role : Role) (before after : Stage) :
    words (line (.advanced role before after)) =
      ["DEBUG", role.name ++ ":", before.name, "->", after.name] := by
  have hline : line (.advanced role before after) =
      "DEBUG" ++ " " ++ (role.name ++ ":" ++ " " ++ (before.name ++ " " ++
        ("->" ++ " " ++ after.name))) := by
    apply String.toList_inj.1
    simp [line, toString]
  rw [hline, words_append (by decide), words_append role.blank_not_mem,
    words_append before.blank_not_mem, words_append (by decide), words_of_word after.blank_not_mem]

theorem words_refused (role : Role) (step : Step) (stage : Stage) :
    words (line (.refused role step stage)) =
      ["DEBUG", role.name ++ ":", step.name, "not", "allowed", "in", stage.name] := by
  have hline : line (.refused role step stage) =
      "DEBUG" ++ " " ++ (role.name ++ ":" ++ " " ++ (step.name ++ " " ++
        ("not" ++ " " ++ ("allowed" ++ " " ++ ("in" ++ " " ++ stage.name))))) := by
    apply String.toList_inj.1
    simp [line, toString]
  rw [hline, words_append (by decide), words_append role.blank_not_mem,
    words_append step.blank_not_mem, words_append (by decide), words_append (by decide),
    words_append (by decide), words_of_word stage.blank_not_mem]

theorem words_failed (role : Role) (step : Step) (error : Error) :
    words (line (.failed role step error)) =
      "DEBUG" :: (role.name ++ ":") :: "handshake" :: "failed" :: "during" ::
        words (step.name ++ ": " ++ error.message) := by
  have hline : line (.failed role step error) =
      "DEBUG" ++ " " ++ (role.name ++ ":" ++ " " ++ ("handshake" ++ " " ++
        ("failed" ++ " " ++ ("during" ++ " " ++ (step.name ++ ": " ++ error.message))))) := by
    apply String.toList_inj.1
    simp [line, toString]
  rw [hline, words_append (by decide), words_append role.blank_not_mem, words_append (by decide),
    words_append (by decide), words_append (by decide)]

theorem words_rotated (direction : Direction) (epoch : UInt64) :
    words (line (.rotated direction epoch)) =
      "TRACE" :: direction.name :: "key" :: "rotated" :: "to" :: "epoch" ::
        words (toString epoch.toNat) := by
  have hline : line (.rotated direction epoch) =
      "TRACE" ++ " " ++ (direction.name ++ " " ++ ("key" ++ " " ++ ("rotated" ++ " " ++
        ("to" ++ " " ++ ("epoch" ++ " " ++ toString epoch.toNat))))) := by
    change "TRACE " ++ direction.name ++ " key rotated to epoch " ++ toString epoch.toNat = _
    apply String.toList_inj.1
    simp
  rw [hline, words_append (by decide), words_append direction.blank_not_mem,
    words_append (by decide), words_append (by decide), words_append (by decide),
    words_append (by decide)]

/-- The stage to which an event has led. -/
def stage? : Event → Option Stage
  | .advanced _ _ after => some after
  | .failed .. => some .failed
  | .refused .. | .rotated .. => none

end Event

/-! ## Reading the stage off -/

def Stage.ofName? (name : String) : Option Stage :=
  [initialized, actOneSent, actOneReceived, actTwoSent, actTwoReceived, complete, failed].find?
    (·.name == name)

theorem Stage.ofName?_name (stage : Stage) : ofName? stage.name = some stage := by
  cases stage <;> decide

/-- The stage that a line tells: what stands behind an arrow, or failure. -/
def told? (line : String) : Option Stage :=
  match (words line).drop 3 with
  | "->" :: name :: _ => Stage.ofName? name
  | "failed" :: _ => some .failed
  | _ => none

theorem told?_line (e : Event) : told? e.line = e.stage? := by
  unfold told?
  cases e with
  | advanced role before after =>
      rw [Event.words_advanced]
      exact Stage.ofName?_name after
  | refused role step stage =>
      rw [Event.words_refused]
      rfl
  | failed role step error =>
      rw [Event.words_failed]
      rfl
  | rotated direction epoch =>
      rw [Event.words_rotated]
      rfl

/-- The stage of a handshake, for a reader of all its lines. -/
def Stage.readOff (lines : List String) : Stage :=
  lines.foldl (fun stage line => (told? line).getD stage) .initialized

/-- The stage to which the events of a log lead. -/
def Stage.follow (stage : Stage) (log : List Event) : Stage :=
  log.foldl (fun stage e => e.stage?.getD stage) stage

theorem Stage.readOff_lines (log : List Event) :
    readOff (log.map Event.line) = follow .initialized log := by
  rw [readOff, follow, List.foldl_map]
  simp only [told?_line]

/-! ## The lines of a handshake -/

namespace Handshake

/-- The call has left one line, a true account of how it went: that it led to
another stage, that the table does not allow it, or with which error it failed. -/
def Visit.Accounted (v : Visit) : Prop :=
  let step := v.found.role.step v.call.act
  ∃ e, v.outcome.log = [e] ∧ (words e.line).head? = some "DEBUG" ∧
    (e = .advanced v.found.role v.found.stage v.outcome.state.stage ↔ v.succeeded = true) ∧
    (e = .refused v.found.role step v.found.stage ↔ v.inTurn = false) ∧
    ∀ error, e = .failed v.found.role step error ↔
      v.inTurn = true ∧ v.outcome.result = .error error

theorem accounted (v : Visit) : v.Accounted := by
  obtain ⟨h, c⟩ := v
  have htook := h.took_call c
  simp only [Visit.Accounted, Visit.outcome, Visit.succeeded, Visit.inTurn]
  generalize h.call c = out at htook ⊢
  cases htook with
  | refused hnone =>
      refine ⟨_, rfl, ?_, ?_, ?_, ?_⟩
      · rw [Event.words_refused]
        rfl
      · simp
      · simp [hnone]
      · simp [hnone]
  | failed hnext =>
      refine ⟨_, rfl, ?_, ?_, ?_, ?_⟩
      · rw [Event.words_failed]
        rfl
      · simp
      · simp [hnext]
      · simp [hnext]
  | advanced hnext hstage =>
      refine ⟨_, rfl, ?_, ?_, ?_, ?_⟩
      · rw [Event.words_advanced]
        rfl
      · simp [hstage]
      · simp [hnext]
      · simp

def logged (h : Handshake) (calls : List Call) : List Event :=
  (h.visits calls).flatMap fun v => v.outcome.log

theorem logged_cons (h : Handshake) (c : Call) (calls : List Call) :
    h.logged (c :: calls) = (h.call c).log ++ (h.after c).logged calls :=
  List.flatMap_cons

/-- The one line of a call leads to the stage after it, from the one before. -/
theorem follow_call (h : Handshake) (c : Call) :
    ∃ e, (h.call c).log = [e] ∧ (h.after c).stage = Stage.follow h.stage [e] ∧
      ∀ role old new, e = .advanced role old new → old = h.stage := by
  unfold after
  have htook := h.took_call c
  generalize h.call c = out at htook ⊢
  cases htook with
  | refused => exact ⟨_, rfl, rfl, nofun⟩
  | failed => exact ⟨_, rfl, (over_abandon h).stage, nofun⟩
  | advanced _ hstage =>
      refine ⟨_, rfl, hstage, ?_⟩
      intro role old new heq
      exact (Event.advanced.inj heq).2.1.symm

theorem stage_run (h : Handshake) (calls : List Call) :
    (h.run calls).stage = Stage.follow h.stage (h.logged calls) := by
  induction calls generalizing h with
  | nil => rfl
  | cons c calls ih =>
      obtain ⟨e, hlog, hstage, -⟩ := follow_call h c
      rw [run_cons, ih, logged_cons, hlog, hstage, Stage.follow, Stage.follow, Stage.follow,
        List.foldl_append]

/-- A line that names an old stage names the one to which the lines before it lead. -/
theorem old_eq_follow {h : Handshake} {calls : List Call} {before later : List Event}
    {role : Role} {old new : Stage}
    (hlogged : h.logged calls = before ++ .advanced role old new :: later) :
    old = Stage.follow h.stage before := by
  induction calls generalizing h before with
  | nil => simp [logged, visits] at hlogged
  | cons c calls ih =>
      obtain ⟨e, hlog, hstage, hold⟩ := follow_call h c
      rw [logged_cons, hlog, List.singleton_append] at hlogged
      cases before with
      | nil => exact hold role old new (List.cons.inj hlogged).1
      | cons e' before =>
          obtain ⟨rfl, hrest⟩ := List.cons.inj hlogged
          rw [ih hrest, hstage]
          rfl

end Handshake

/-! ## The account -/

/-- The log is a true account. From the lines of a handshake its stage can be read
off after every call. A line of a channel comes exactly when a key has been brought
to another epoch, and in a run of calls the lines of one direction name the epochs
one by one, one for each 500 frames. -/
theorem log_accounts :
    (∀ (setup : Setup) (calls : List Handshake.Call),
      let h := Handshake.start setup
      (∀ v ∈ h.visits calls, v.Accounted) ∧
      (∀ before role old new later, h.logged calls = before ++ .advanced role old new :: later →
        old = Stage.readOff (before.map Event.line)) ∧
      (h.run calls).stage = Stage.readOff ((h.logged calls).map Event.line)) ∧
    (∀ c : Channel, c.Reachable →
      (∀ message, (c.encrypt message).log = c.turned (.encrypt message) .sending) ∧
      (∀ sealed, (c.decryptMessage sealed).log = c.turned (.decryptMessage sealed) .receiving) ∧
      (∀ input, (c.decryptFrame input).log = c.turned (.decryptFrame input) .receiving) ∧
      (∀ sealed, (c.decryptLength sealed).log = []) ∧
      ∀ d direction,
        ((c.after d).keyFor direction).epoch = (c.keyFor direction).epoch ∨
          ((c.after d).keyFor direction).epoch = (c.keyFor direction).epoch + 1) ∧
    ∀ (c : Channel) (sending receiving : Aead.Key) (chainingKey : Digest),
      c.sending = .start sending chainingKey → c.receiving = .start receiving chainingKey →
      ∀ (calls : List Channel.Call) (direction : Direction),
      let u := Usage.start c
      let told := epochs direction (u.logged calls)
      let n := ((u.run calls).frames direction).length / 500
      ((u.run calls).channel.keyFor direction).epoch = .ofNat n ∧
      told = (List.range n).map (fun epoch => .ofNat (epoch + 1)) ∧
      (n < UInt64.size → told.map UInt64.toNat = List.range' 1 n) := by
  refine ⟨?_, ?_, ?_⟩
  · intro setup calls h
    have hstart : h.stage = .initialized := by cases setup <;> rfl
    refine ⟨fun v _ => Handshake.accounted v, ?_, ?_⟩
    · intro before role old new later hlogged
      rw [Stage.readOff_lines, ← hstart]
      exact Handshake.old_eq_follow hlogged
    · rw [Stage.readOff_lines, ← hstart]
      exact Handshake.stage_run h calls
  · intro c hc
    obtain ⟨hsending, hreceiving⟩ := Channel.atFrame_of_reachable hc
    have hkeys : ∀ direction, (c.keyFor direction).AtFrame := by
      intro direction
      cases direction with
      | sending => exact hsending
      | receiving => exact hreceiving
    exact ⟨fun message => Channel.loggedBy_eq hkeys (.encrypt message),
      fun sealed => Channel.loggedBy_eq hkeys (.decryptMessage sealed),
      fun input => Channel.loggedBy_eq hkeys (.decryptFrame input),
      fun sealed => Channel.loggedBy_eq hkeys (.decryptLength sealed),
      Channel.epoch_after hkeys⟩
  · intro c sending receiving chainingKey hsending hreceiving calls direction
    have hstart : ∀ direction,
        c.keyFor direction = .start (c.keyFor direction).key chainingKey := by
      intro direction
      cases direction with
      | sending =>
          rw [Channel.keyFor, hsending]
          rfl
      | receiving =>
          rw [Channel.keyFor, hreceiving]
          rfl
    exact ⟨congrArg RotatingKey.epoch (Usage.keyFor_run hstart calls direction),
      Usage.epochs_run hstart calls direction, Usage.toNat_epochs_run hstart calls direction⟩

theorem Usage.sent_run_encrypt (u : Usage) {messages : List Bytes}
    (hfit : ∀ message ∈ messages, message.length ≤ maxMessageSize) :
    (u.run (messages.map .encrypt)).sent = u.sent ++ messages := by
  induction messages generalizing u with
  | nil => exact (List.append_nil _).symm
  | cons message messages ih =>
      obtain ⟨hfirst, hrest⟩ := List.forall_mem_cons.1 hfit
      have hsent : (u.call (.encrypt message)).sent = u.sent ++ [message] := by
        rw [call, Channel.use, Channel.sentBy, Channel.encrypt_eq _ hfirst]
      rw [List.map_cons, run, List.foldl_cons, ← run, ih _ hrest, hsent, List.append_assoc]
      rfl

theorem log_accounts_for_thousand_messages :
    let c : Channel :=
      .ofKeys ⟨List.replicate 32 1, rfl⟩ ⟨List.replicate 32 2, rfl⟩ ⟨List.replicate 32 7, rfl⟩
    let calls := (List.replicate 1000 []).map Channel.Call.encrypt
    (c.encrypt []).log = c.turned (.encrypt []) .sending ∧
      (epochs .sending ((Usage.start c).logged calls)).map UInt64.toNat = [1, 2] := by
  intro c calls
  have hc : c.Reachable := .ofKeys _ _ _
  have hsent : ((Usage.start c).run calls).sent = List.replicate 1000 [] := by
    apply Usage.sent_run_encrypt
    intro message hmem
    rw [List.eq_of_mem_replicate hmem]
    exact Nat.zero_le _
  have hframes : (((Usage.start c).run calls).frames .sending).length / 500 = 2 := by
    rw [Usage.frames, hsent, List.length_replicate]
  obtain ⟨-, hcalls, hruns⟩ := log_accounts
  obtain ⟨-, -, hnumbers⟩ := hruns c _ _ _ rfl rfl calls .sending
  have hlast : (((Usage.start c).run calls).frames .sending).length / 500 < UInt64.size := by
    rw [hframes]
    decide
  have hepochs := hnumbers hlast
  rw [hframes] at hepochs
  exact ⟨(hcalls c hc).1 [], hepochs⟩

end Bolt8
