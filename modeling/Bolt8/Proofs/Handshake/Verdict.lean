import Bolt8.Proofs.Handshake.Exchange

/-!
# Which acts are accepted

The verdict on an act, said of its bytes alone: size, version, key and tag, in
this order, and for act 3 the sealed key before the key itself. Every input has
exactly one verdict, whatever was called before (`verdicts`).
-/

namespace Bolt8

open Curve.Point (ofCompressed?)

/-! ## The rules -/

/-- Size and version come first, and only an act that passes is looked into. -/
inductive Judged {α : Type} (act : Act) (size : ℕ) (inside : Bytes → Except Error α → Prop)
    (input : Bytes) : Except Error α → Prop
  | wrongSize :
      input.length ≠ size →
      Judged act size inside input (.error (.actSize act size input.length))
  | wrongVersion {version} :
      input.length = size → input[0]? = some version → version ≠ 0 →
      Judged act size inside input (.error (.actVersion act version))
  | inside {verdict} :
      input.length = size → input[0]? = some 0 → inside input verdict →
      Judged act size inside input verdict

/-- Act 1 or 2, read with the secret key `own` at this hash and chaining key. -/
inductive EphemeralVerdict (hash chainingKey : Digest) (own : SecretKey) (input : Bytes) :
    Except Error Unit → Prop
  | malformed :
      ofCompressed? (input.extract 1 34) = none →
      EphemeralVerdict hash chainingKey own input (.error .malformedKey)
  | forged {remote} :
      ofCompressed? (input.extract 1 34) = some remote →
      input.extract 34 50 ≠
        (EphemeralAct.mk hash chainingKey (input.extract 1 34) (own.agree remote)).closing.tag →
      EphemeralVerdict hash chainingKey own input (.error .notAuthentic)
  | genuine {remote} :
      ofCompressed? (input.extract 1 34) = some remote →
      input.extract 34 50 =
        (EphemeralAct.mk hash chainingKey (input.extract 1 34) (own.agree remote)).closing.tag →
      EphemeralVerdict hash chainingKey own input (.ok ())

/-- Act 3, read with the secret key `own` where its key is sealed under `sealing`;
what is accepted is that key. -/
inductive StaticVerdict (hash chainingKey : Digest) (sealing : Aead.Key) (own : SecretKey)
    (input : Bytes) : Except Error PublicKey → Prop
  | unsealed :
      (∀ identity, Aead.encrypt sealing 1 hash.val identity ≠ input.extract 1 50) →
      StaticVerdict hash chainingKey sealing own input (.error .notAuthentic)
  | malformed {identity} :
      Aead.encrypt sealing 1 hash.val identity = input.extract 1 50 →
      ofCompressed? identity = none →
      StaticVerdict hash chainingKey sealing own input (.error .malformedKey)
  | forged {identity remote} :
      Aead.encrypt sealing 1 hash.val identity = input.extract 1 50 →
      ofCompressed? identity = some remote →
      input.extract 50 66 ≠
        (StaticAct.mk hash chainingKey sealing identity (own.agree remote)).closing.tag →
      StaticVerdict hash chainingKey sealing own input (.error .notAuthentic)
  | genuine {identity remote} :
      Aead.encrypt sealing 1 hash.val identity = input.extract 1 50 →
      ofCompressed? identity = some remote →
      input.extract 50 66 =
        (StaticAct.mk hash chainingKey sealing identity (own.agree remote)).closing.tag →
      StaticVerdict hash chainingKey sealing own input (.ok remote)

/-! ## One verdict for each act -/

theorem Judged.unique {α : Type} {act : Act} {size : ℕ} {inside : Bytes → Except Error α → Prop}
    {input : Bytes} {v w : Except Error α}
    (hinside : ∀ {v w}, inside input v → inside input w → v = w)
    (hv : Judged act size inside input v) (hw : Judged act size inside input w) : v = w := by
  cases hv with
  | wrongSize hne =>
      cases hw with
      | wrongSize => rfl
      | wrongVersion heq | inside heq => exact absurd heq hne
  | wrongVersion heq hget hversion =>
      cases hw with
      | wrongSize hne => exact absurd heq hne
      | wrongVersion _ hget' =>
          obtain rfl := Option.some.inj (hget.symm.trans hget')
          rfl
      | inside _ hzero => exact absurd (Option.some.inj (hget.symm.trans hzero)) hversion
  | inside heq hzero hv =>
      cases hw with
      | wrongSize hne => exact absurd heq hne
      | wrongVersion _ hget hversion =>
          exact absurd (Option.some.inj (hget.symm.trans hzero)) hversion
      | inside _ _ hw => exact hinside hv hw

theorem EphemeralVerdict.unique {hash chainingKey : Digest} {own : SecretKey} {input : Bytes}
    {v w : Except Error Unit} (hv : EphemeralVerdict hash chainingKey own input v)
    (hw : EphemeralVerdict hash chainingKey own input w) : v = w := by
  cases hv <;> cases hw <;> grind

theorem StaticVerdict.unique {hash chainingKey : Digest} {sealing : Aead.Key} {own : SecretKey}
    {input : Bytes} {v w : Except Error PublicKey}
    (hv : StaticVerdict hash chainingKey sealing own input v)
    (hw : StaticVerdict hash chainingKey sealing own input w) : v = w := by
  have hinj : ∀ identity identity', Aead.encrypt sealing 1 hash.val identity = input.extract 1 50 →
      Aead.encrypt sealing 1 hash.val identity' = input.extract 1 50 → identity = identity' := by
    intro identity identity' h h'
    exact Aead.encrypt_inj (h.trans h'.symm)
  cases hv <;> cases hw <;> grind

/-! ## Reading gives the verdict -/

theorem Act.content_of_wrongSize {act : Act} {input : Bytes} (h : input.length ≠ act.size) :
    act.content input = .error (.actSize act act.size input.length) := by
  unfold Act.content
  rw [if_pos h]

theorem Act.content_of_wrongVersion {act : Act} {version : UInt8} {content : Bytes}
    (hsize : content.length + 1 = act.size) (hversion : version ≠ handshakeVersion) :
    act.content (version :: content) = .error (.actVersion act version) := by
  unfold Act.content
  rw [if_neg (show ¬(version :: content).length ≠ act.size from not_not.2 hsize)]
  exact if_pos hversion

/-- A reader that passes on what is wrong with size or version is judged by what
it does inside the act. -/
theorem Judged.of_content {α : Type} {act : Act} {size : ℕ}
    {inside : Bytes → Except Error α → Prop} {input : Bytes} {read : Except Error α}
    (hsize : act.size = size) (hpos : 0 < size)
    (houtside : ∀ error, act.content input = .error error → read = .error error)
    (hinside : ∀ content, input = 0 :: content → act.content input = .ok content →
      inside input read) :
    Judged act size inside input read := by
  subst hsize
  by_cases hlength : input.length = act.size
  · cases input with
    | nil => exact absurd hlength hpos.ne
    | cons version content =>
        by_cases hversion : version = 0
        · subst hversion
          exact .inside hlength rfl (hinside content rfl (Act.content_cons hlength))
        · rw [houtside _ (Act.content_of_wrongVersion hlength hversion)]
          exact .wrongVersion hlength rfl hversion
  · rw [houtside _ (Act.content_of_wrongSize hlength)]
    exact .wrongSize hlength

/-- The two parts of an act after its version byte. -/
theorem extract_cons (version : UInt8) {content : Bytes} {size : ℕ} (n : ℕ)
    (h : content.length + 1 = size) :
    (version :: content).extract 1 (n + 1) = content.take n ∧
      (version :: content).extract (n + 1) size = content.drop n := by
  refine ⟨rfl, ?_⟩
  rw [List.extract_eq_take_drop, List.drop_succ_cons]
  apply List.take_of_length_le
  rw [List.length_drop]
  omega

namespace Transcript

variable (t : Transcript) (own : SecretKey) (input : Bytes)

theorem judged_readEphemeral {act : Act} (hsize : act.size = 50) :
    Judged act 50 (EphemeralVerdict t.hash t.chainingKey own) input
      ((t.readEphemeral act own input).map fun _ => ()) := by
  apply Judged.of_content hsize (by decide)
  · intro error herror
    simp only [readEphemeral, herror]
    rfl
  · rintro content rfl hcontent
    have hlength : content.length + 1 = 50 := (Act.content_eq_ok_iff.1 hcontent).2.trans hsize
    obtain ⟨hkey, htag⟩ := extract_cons 0 33 hlength
    rw [readEphemeral_eq t hsize own hcontent, ← hkey, ← htag]
    cases hread : ofCompressed? ((0 :: content).extract 1 34) with
    | none => exact .malformed hread
    | some remote =>
        by_cases hproof : (0 :: content).extract 34 50 =
            (t.ephemeralAct ((0 :: content).extract 1 34) (own.agree remote)).closing.tag
        · simp only [if_pos hproof]
          exact .genuine hread hproof
        · simp only [if_neg hproof]
          exact .forged hread hproof

theorem judged_readStatic {sealing : Aead.Key} (h : t.temp = ⟨some sealing, 1⟩) :
    Judged .three 66 (StaticVerdict t.hash t.chainingKey sealing own) input
      ((t.readStatic own input).map Prod.fst) := by
  apply Judged.of_content rfl (by decide)
  · intro error herror
    simp only [readStatic, herror]
    rfl
  · rintro content rfl hcontent
    have hlength : content.length + 1 = 66 := (Act.content_eq_ok_iff.1 hcontent).2
    obtain ⟨hsealed, htag⟩ := extract_cons 0 49 hlength
    rw [readStatic_eq h own hcontent, ← hsealed, ← htag]
    cases hopen : Aead.decrypt sealing 1 t.hash.val ((0 :: content).extract 1 50) with
    | none =>
        apply StaticVerdict.unsealed
        intro identity hseal
        rw [← hseal, Aead.decrypt_encrypt] at hopen
        cases hopen
    | some identity =>
        have hseal := Aead.encrypt_of_decrypt hopen
        dsimp only
        cases hread : ofCompressed? identity with
        | none => exact .malformed hseal hread
        | some remote =>
            by_cases hproof : (0 :: content).extract 50 66 =
                (t.staticAct sealing identity (own.agree remote)).closing.tag
            · simp only [if_pos hproof]
              exact .genuine hseal hread hproof
            · simp only [if_neg hproof]
              exact .forged hseal hread hproof

end Transcript

/-! ## One call on a party -/

theorem Party.result_settle {σ α β : Type} [Party σ] (party : σ) (step : Step)
    (read : Except Error β) (f : β → α × σ) :
    (settle party step (read >>= fun b => pure (f b))).result = read.map fun b => (f b).1 := by
  cases read <;> rfl

theorem Judged.eq_iff {α : Type} {act : Act} {size : ℕ} {inside : Bytes → Except Error α → Prop}
    {input : Bytes} {read : Except Error α}
    (hread : Judged act size inside input read)
    (hinside : ∀ {v w}, inside input v → inside input w → v = w) (v : Except Error α) :
    read = v ↔ Judged act size inside input v := by
  constructor
  · rintro rfl
    exact hread
  · exact hread.unique hinside

variable {t : Transcript}

theorem Initiator.readActTwo_verdict (i : KeyPair) (remote : PublicKey) (e : KeyPair)
    (input : Bytes) (v : Except Error Unit) :
    (readActTwo ⟨i, remote, .actOneSent t e⟩ input).result = v ↔
      Judged .two 50 (EphemeralVerdict t.hash t.chainingKey e.secret) input v := by
  have hresult := Party.result_settle (⟨i, remote, .actOneSent t e⟩ : Initiator) (.read .two)
    (t.readEphemeral .two e.secret input)
    fun read => ((), ⟨i, remote, .actTwoReceived read.2 e read.1⟩)
  rw [readActTwo, hresult]
  exact (t.judged_readEphemeral e.secret input rfl).eq_iff EphemeralVerdict.unique v

theorem Responder.readActOne_verdict (r e : KeyPair) (input : Bytes) (v : Except Error Unit) :
    (readActOne ⟨r, .initialized t e⟩ input).result = v ↔
      Judged .one 50 (EphemeralVerdict t.hash t.chainingKey r.secret) input v := by
  have hresult := Party.result_settle (⟨r, .initialized t e⟩ : Responder) (.read .one)
    (t.readEphemeral .one r.secret input)
    fun read => ((), ⟨r, .actOneReceived read.2 e read.1⟩)
  rw [readActOne, hresult]
  exact (t.judged_readEphemeral r.secret input rfl).eq_iff EphemeralVerdict.unique v

theorem Responder.readActThree_verdict {sealing : Aead.Key} (h : t.temp = ⟨some sealing, 1⟩)
    (r e : KeyPair) (re : PublicKey) (input : Bytes) (v : Except Error PublicKey) :
    (readActThree ⟨r, .actTwoSent t e re⟩ input).result.map Prod.snd = v ↔
      Judged .three 66 (StaticVerdict t.hash t.chainingKey sealing e.secret) input v := by
  have hresult := Party.result_settle (⟨r, .actTwoSent t e re⟩ : Responder) (.read .three)
    (t.readStatic e.secret input)
    fun read => ((Channel.ofSplit read.2.split .responder, read.1), ⟨r, .complete read.1⟩)
  rw [readActThree, hresult]
  have hmap : ((t.readStatic e.secret input).map fun read =>
      (Channel.ofSplit read.2.split .responder, read.1)).map Prod.snd =
      (t.readStatic e.secret input).map Prod.fst := by
    cases t.readStatic e.secret input <;> rfl
  rw [hmap]
  exact (t.judged_readStatic e.secret input h).eq_iff StaticVerdict.unique v

/-! ## After any calls -/

namespace Exchange

theorem verdicts (i : KeyPair) (remote : PublicKey) (e r e' : KeyPair) (calls : List Call)
    (input : Bytes) :
    let s := (start i remote e r e').run calls
    (s.responder.stage = .initialized → ∃ t, s.responder.phase.transcript? = some t ∧
      ∀ v, (s.responder.readActOne input).result = v ↔
        Judged .one 50 (EphemeralVerdict t.hash t.chainingKey r.secret) input v) ∧
    (s.initiator.stage = .actOneSent → ∃ t, s.initiator.phase.transcript? = some t ∧
      ∀ v, (s.initiator.readActTwo input).result = v ↔
        Judged .two 50 (EphemeralVerdict t.hash t.chainingKey e.secret) input v) ∧
    (s.responder.stage = .actTwoSent → ∃ t sealing,
      s.responder.phase.transcript? = some t ∧ t.temp = ⟨some sealing, 1⟩ ∧
      ∀ v, (s.responder.readActThree input).result.map Prod.snd = v ↔
        Judged .three 66 (StaticVerdict t.hash t.chainingKey sealing e'.secret) input v) := by
  intro s
  obtain ⟨hi, hr⟩ : s.Course i remote e r e' := course_run i remote e r e' calls
  clear_value s
  obtain ⟨⟨p, q, _, _, _, _⟩, _, _, _⟩ := s
  simp only [initiator, responder] at hi hr ⊢
  refine ⟨?_, ?_, ?_⟩
  · intro hstage
    cases hr with
    | opened => exact ⟨_, rfl, Responder.readActOne_verdict r e' input⟩
    | _ => cases hstage
  · intro hstage
    cases hi with
    | oneWritten => exact ⟨_, rfl, Initiator.readActTwo_verdict i remote e input⟩
    | _ => cases hstage
  · intro hstage
    cases hr with
    | twoWritten => exact ⟨_, _, rfl, rfl, Responder.readActThree_verdict rfl r e' _ input⟩
    | _ => cases hstage

theorem verdicts_of_zeros :
    let i := KeyPair.ofSecret ⟨1, by decide, by decide⟩
    let e := KeyPair.ofSecret ⟨2, by decide, by decide⟩
    let r := KeyPair.ofSecret ⟨3, by decide, by decide⟩
    let e' := KeyPair.ofSecret ⟨4, by decide, by decide⟩
    let zeros := List.replicate 50 0
    let s := (start i r.pub e r e').run []
    let s' := (start i r.pub e r e').run (greeting e r)
    (s.responder.stage = .initialized ∧
      (s.responder.readActOne zeros).result = .error .malformedKey) ∧
    (s'.initiator.stage = .actOneSent ∧
      (s'.initiator.readActTwo zeros).result = .error .malformedKey) ∧
    s'.responder.stage = .actTwoSent ∧
      (s'.responder.readActThree zeros).result.map Prod.snd = .error (.actSize .three 66 50) := by
  intro i e r e' zeros s s'
  clear_value i e r e'
  have hs' : s' = _ := run_greeting i e r e'
  have hkey : ofCompressed? (zeros.extract 1 34) = none := by decide
  have hone : s.responder.stage = .initialized := rfl
  have htwo : s'.initiator.stage = .actOneSent := by rw [hs']; rfl
  have hthree : s'.responder.stage = .actTwoSent := by rw [hs']; rfl
  obtain ⟨_, -, hverdict⟩ := (verdicts i r.pub e r e' [] zeros).1 hone
  obtain ⟨_, -, hverdict'⟩ := (verdicts i r.pub e r e' (greeting e r) zeros).2.1 htwo
  obtain ⟨_, _, -, -, hverdict''⟩ := (verdicts i r.pub e r e' (greeting e r) zeros).2.2 hthree
  refine ⟨⟨hone, ?_⟩, ⟨htwo, ?_⟩, hthree, ?_⟩
  · exact (hverdict _).2 (.inside rfl rfl (.malformed hkey))
  · exact (hverdict' _).2 (.inside rfl rfl (.malformed hkey))
  · exact (hverdict'' _).2 (.wrongSize (by decide))

end Exchange

end Bolt8
