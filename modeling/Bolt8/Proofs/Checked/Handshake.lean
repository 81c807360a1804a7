import Bolt8.Proofs.Checked.Transcript
import Bolt8.Proofs.Handshake.Programs

/-!
# The handshake in bounds

Each act is put together in a buffer of its size, and taken apart by index once
its size is known. Of every object that calls can lead to, a call with any bytes
gives what it gives without the limits (`call_eq`).
-/

namespace Bolt8

namespace Checked

/-! ## The acts -/

/-- Size first, then version. -/
def checkHeader (act : Act) (input : Bytes) : Attempt Unit := do
  if input.length ≠ act.size then throw (.actSize act act.size input.length)
  let version ← get input 0
  if version ≠ handshakeVersion then throw (.actVersion act version)

/-- Version, key and tag in a buffer of this size; the tag begins at `split`. -/
def assemble (size split : ℕ) (key tag : Bytes) : Checked Bytes := do
  let act ← set (zeros size) 0 handshakeVersion
  let act ← copy act 1 split key
  copy act split size tag

def writeEphemeral (t : Transcript) (ephemeral : KeyPair) (remote : PublicKey) :
    Attempt (Bytes × Transcript) := do
  let key := ephemeral.pub.compress.val
  let t ← mixShared (t.mixHash key) ephemeral.secret remote
  let (tag, t) ← encryptAndHash t []
  let act ← assemble Act.one.size (1 + Curve.compressedSize) key tag
  return (act, t)

def readEphemeral (t : Transcript) (act : Act) (own : SecretKey) (input : Bytes) :
    Attempt (PublicKey × Transcript) := do
  checkHeader act input
  let key ← slice input 1 (1 + Curve.compressedSize)
  let remote ← Attempt.of (PublicKey.read key)
  let t ← mixShared (t.mixHash key) own remote
  let tag ← slice input (1 + Curve.compressedSize) input.length
  let (_, t) ← decryptAndHash t tag
  return (remote, t)

def writeStatic (t : Transcript) (identity : KeyPair) (remote : PublicKey) :
    Attempt (Bytes × Transcript) := do
  let (sealed, t) ← encryptAndHash t identity.pub.compress.val
  let t ← mixShared t identity.secret remote
  let (tag, t) ← encryptAndHash t []
  let act ← assemble Act.three.size (1 + Curve.compressedSize + Aead.tagSize) sealed tag
  return (act, t)

def readStatic (t : Transcript) (own : SecretKey) (input : Bytes) :
    Attempt (PublicKey × Transcript) := do
  checkHeader .three input
  let content ← slice input 1 input.length
  let (sealed, tag) ← splitAt content (Curve.compressedSize + Aead.tagSize)
  let (key, t) ← decryptAndHash t sealed
  let remote ← Attempt.of (PublicKey.read key)
  let t ← mixShared t own remote
  let (_, t) ← decryptAndHash t tag
  return (remote, t)

theorem checkHeader_eq (act : Act) (input : Bytes) :
    checkHeader act input = .of ((act.content input).map fun _ => ()) := by
  unfold checkHeader Act.content
  by_cases hsize : input.length = act.size
  · cases input with
    | nil => cases act <;> cases hsize
    | cons version content =>
        simp only [hsize, ne_eq, not_true_eq_false, if_false]
        by_cases hversion : version = handshakeVersion
        · simp only [hversion, not_true_eq_false, if_false]
          rfl
        · rw [if_pos hversion]
          show (if version ≠ handshakeVersion then _ else _ : Attempt Unit) = _
          rw [if_pos hversion]
          rfl
  · simp only [hsize, ne_eq, not_false_eq_true, if_true]
    rfl

theorem assemble_eq {size split : ℕ} {key tag : Bytes} (hkey : 1 + key.length = split)
    (htag : split + tag.length = size) :
    assemble size split key tag = .ok (handshakeVersion :: key ++ tag) := by
  have hversion : set (zeros size) 0 handshakeVersion =
      .ok ([handshakeVersion] ++ zeros key.length ++ zeros tag.length) := by
    rw [← htag, ← hkey, zeros_add, zeros_add]
    rfl
  have hfirst : copy ([handshakeVersion] ++ zeros key.length ++ zeros tag.length) 1 split key =
      .ok ([handshakeVersion] ++ key ++ zeros tag.length) :=
    copy_append (p := [handshakeVersion]) rfl hkey (length_zeros _) _
  have hsecond : copy ([handshakeVersion] ++ key ++ zeros tag.length) split size tag =
      .ok ([handshakeVersion] ++ key ++ tag) := by
    have h := copy_append (p := [handshakeVersion] ++ key) ((Nat.add_comm ..).trans hkey) htag
      (length_zeros _) []
    rwa [List.append_nil, List.append_nil] at h
  simp only [assemble, hversion, ok_bind, hfirst, hsecond]
  rfl

/-- The temporary key that a secret has just given has not been used. -/
theorem roomy_mixShared (t : Transcript) (own : SecretKey) (remote : PublicKey) :
    (t.mixShared own remote).temp.counter.toNat + 1 < UInt64.size := by
  show 0 + 1 < UInt64.size
  decide

/-- The tag that closes an act. -/
theorem encryptAndHash_mixShared (t : Transcript) (own : SecretKey) (remote : PublicKey) :
    encryptAndHash (t.mixShared own remote) [] =
      .of ((t.mixShared own remote).encryptAndHash []) :=
  encryptAndHash_eq (roomy_mixShared ..) (by decide)

theorem writeEphemeral_eq (t : Transcript) (ephemeral : KeyPair) (remote : PublicKey) :
    writeEphemeral t ephemeral remote = .of (t.writeEphemeral ephemeral remote) := by
  have hkey : ephemeral.pub.compress.val.length = Curve.compressedSize :=
    ephemeral.pub.compress.property
  simp only [writeEphemeral, Transcript.writeEphemeral, mixShared_eq, Attempt.lift_bind,
    encryptAndHash_mixShared]
  cases hseal : ((t.mixHash ephemeral.pub.compress.val).mixShared ephemeral.secret
      remote).encryptAndHash [] with
  | error error => rfl
  | ok sealed =>
      obtain ⟨tag, t'⟩ := sealed
      have htag : tag.length = Aead.tagSize := Transcript.length_of_encryptAndHash hseal
      have hassemble : assemble Act.one.size (1 + Curve.compressedSize)
          ephemeral.pub.compress.val tag = .ok _ :=
        assemble_eq (congrArg (1 + ·) hkey) (congrArg (1 + Curve.compressedSize + ·) htag)
      simp only [Attempt.of_ok_bind, hassemble]
      rfl

/-- An act of the right size and version, taken apart. -/
theorem slice_content {act : Act} {input content : Bytes} (h : act.content input = .ok content)
    {n : ℕ} (hn : 1 + n ≤ act.size) :
    slice input 1 (1 + n) = .ok (content.take n) ∧
      slice input (1 + n) input.length = .ok (content.drop n) := by
  obtain ⟨rfl, hsize⟩ := Act.content_eq_ok_iff.1 h
  have hlength : (content.take n).length = n := List.length_take_of_le (by omega)
  constructor
  · have hslice := slice_append (p := [handshakeVersion]) (q := content.take n) rfl
      (congrArg (1 + ·) hlength) (content.drop n)
    rwa [List.append_assoc, List.take_append_drop] at hslice
  · have hstop : 1 + n + (content.drop n).length = (handshakeVersion :: content).length := by
      rw [List.length_drop, List.length_cons]
      omega
    have hslice := slice_append (p := handshakeVersion :: content.take n) (q := content.drop n)
      ((congrArg (· + 1) hlength).trans (Nat.add_comm ..)) hstop []
    rwa [List.append_nil, List.cons_append, List.take_append_drop] at hslice

theorem readEphemeral_eq (t : Transcript) {act : Act} (hact : act.size = 50) (own : SecretKey)
    (input : Bytes) :
    readEphemeral t act own input = .of (t.readEphemeral act own input) := by
  simp only [readEphemeral, checkHeader_eq, Transcript.readEphemeral]
  cases hcontent : act.content input with
  | error error => rfl
  | ok content =>
      have hkeyFits : 1 + Curve.compressedSize ≤ act.size := by
        rw [hact]
        decide
      obtain ⟨hkey, htag⟩ := slice_content hcontent hkeyFits
      simp only [Except.map, Attempt.of_ok_bind, hkey, htag, Attempt.lift_bind, ok_bind]
      cases PublicKey.read (content.take Curve.compressedSize) with
      | error error => rfl
      | ok remote =>
          simp only [Attempt.of_ok_bind, mixShared_eq, Attempt.lift_bind, ok_bind,
            decryptAndHash_eq (roomy_mixShared ..)]
          cases Transcript.decryptAndHash _ (content.drop Curve.compressedSize) <;> rfl

theorem writeStatic_eq {t : Transcript} (hroom : t.temp.counter.toNat + 1 < UInt64.size)
    (identity : KeyPair) (remote : PublicKey) :
    writeStatic t identity remote = .of (t.writeStatic identity remote) := by
  have hkey : identity.pub.compress.val.length = Curve.compressedSize :=
    identity.pub.compress.property
  have hsmall : identity.pub.compress.val.length < 2 ^ 63 := by
    rw [hkey]
    decide
  simp only [writeStatic, Transcript.writeStatic, encryptAndHash_eq hroom hsmall]
  cases hidentity : t.encryptAndHash identity.pub.compress.val with
  | error error => rfl
  | ok sealed =>
      obtain ⟨sealed, t'⟩ := sealed
      simp only [Attempt.of_ok_bind, ok_bind, mixShared_eq, Attempt.lift_bind,
        encryptAndHash_mixShared]
      cases hproof : (t'.mixShared identity.secret remote).encryptAndHash [] with
      | error error => rfl
      | ok closed =>
          obtain ⟨tag, t''⟩ := closed
          have hsealed : sealed.length = Curve.compressedSize + Aead.tagSize :=
            (Transcript.length_of_encryptAndHash hidentity).trans (congrArg (· + Aead.tagSize) hkey)
          have htag : tag.length = Aead.tagSize := Transcript.length_of_encryptAndHash hproof
          have hassemble : assemble Act.three.size (1 + Curve.compressedSize + Aead.tagSize)
              sealed tag = .ok _ :=
            assemble_eq (congrArg (1 + ·) hsealed) (congrArg (50 + ·) htag)
          simp only [Attempt.of_ok_bind, hassemble]
          rfl

theorem readStatic_eq {t : Transcript} (hroom : t.temp.counter.toNat + 1 < UInt64.size)
    (own : SecretKey) (input : Bytes) :
    readStatic t own input = .of (t.readStatic own input) := by
  simp only [readStatic, checkHeader_eq, Transcript.readStatic]
  cases hcontent : Act.three.content input with
  | error error => rfl
  | ok content =>
      obtain ⟨rfl, hsize⟩ := Act.content_eq_ok_iff.1 hcontent
      have hslice : slice (handshakeVersion :: content) 1 (handshakeVersion :: content).length =
          .ok content := (slice_content hcontent (n := 0) (by decide)).2
      have hsplit : Curve.compressedSize + Aead.tagSize ≤ content.length := by
        have : content.length + 1 = 66 := hsize
        have : Curve.compressedSize + Aead.tagSize = 49 := rfl
        omega
      simp only [Except.map, Attempt.of_ok_bind, Attempt.lift_bind, ok_bind, hslice,
        splitAt_eq hsplit, decryptAndHash_eq hroom]
      cases t.decryptAndHash (content.take (Curve.compressedSize + Aead.tagSize)) with
      | error error => rfl
      | ok opened =>
          obtain ⟨key, t'⟩ := opened
          simp only [Attempt.of_ok_bind, ok_bind]
          cases PublicKey.read key with
          | error error => rfl
          | ok remote =>
              simp only [Attempt.of_ok_bind, mixShared_eq, Attempt.lift_bind, ok_bind,
                decryptAndHash_eq (roomy_mixShared ..)]
              cases Transcript.decryptAndHash _
                (content.drop (Curve.compressedSize + Aead.tagSize)) <;> rfl

/-! ## The calls -/

def split (t : Transcript) : Checked TransportKeys := do
  let d ← derive t.chainingKey []
  return ⟨t.hash, t.chainingKey, d.first, d.second⟩

def settle {σ α : Type} [Party σ] (party : σ) (step : Step) (run : Attempt (α × σ)) :
    Checked (Outcome σ α) := do
  let result ← run.run
  return Party.settle party step result

def writeActOne (i : Initiator) : Checked (Outcome Initiator Bytes) :=
  match i.phase with
  | .initialized t e => settle i (.write .one) do
    let (act, t) ← writeEphemeral t e i.remoteStatic
    return (act, { i with phase := .actOneSent t e })
  | _ => return Party.refuse i (.write .one)

def readActTwo (i : Initiator) (input : Bytes) : Checked (Outcome Initiator Unit) :=
  match i.phase with
  | .actOneSent t e => settle i (.read .two) do
    let (remote, t) ← readEphemeral t .two e.secret input
    return ((), { i with phase := .actTwoReceived t e remote })
  | _ => return Party.refuse i (.read .two)

def writeActThree (i : Initiator) : Checked (Outcome Initiator (Bytes × Channel)) :=
  match i.phase with
  | .actTwoReceived t _ remote => settle i (.write .three) do
    let (act, t) ← writeStatic t i.identity remote
    let keys ← split t
    return ((act, .ofSplit keys .initiator), { i with phase := .complete })
  | _ => return Party.refuse i (.write .three)

def readActOne (r : Responder) (input : Bytes) : Checked (Outcome Responder Unit) :=
  match r.phase with
  | .initialized t e => settle r (.read .one) do
    let (remote, t) ← readEphemeral t .one r.identity.secret input
    return ((), { r with phase := .actOneReceived t e remote })
  | _ => return Party.refuse r (.read .one)

def writeActTwo (r : Responder) : Checked (Outcome Responder Bytes) :=
  match r.phase with
  | .actOneReceived t e remote => settle r (.write .two) do
    let (act, t) ← writeEphemeral t e remote
    return (act, { r with phase := .actTwoSent t e remote })
  | _ => return Party.refuse r (.write .two)

def readActThree (r : Responder) (input : Bytes) :
    Checked (Outcome Responder (Channel × PublicKey)) :=
  match r.phase with
  | .actTwoSent t e _ => settle r (.read .three) do
    let (remote, t) ← readStatic t e.secret input
    let keys ← split t
    return ((.ofSplit keys .responder, remote), { r with phase := .complete remote })
  | _ => return Party.refuse r (.read .three)

def openHandshake : Setup → Checked Handshake
  | .initiator identity remoteStatic ephemeral => do
    let t ← opening remoteStatic
    return .initiator ⟨identity, remoteStatic, .initialized t ephemeral⟩
  | .responder identity ephemeral => do
    let t ← opening identity.pub
    return .responder ⟨identity, .initialized t ephemeral⟩

def call : Handshake → Handshake.Call → Checked (Outcome Handshake Given)
  | .initiator i, ⟨.one, _⟩ => do
    let out ← writeActOne i
    return out.map .initiator fun act => ⟨some act, none, none⟩
  | .initiator i, ⟨.two, input⟩ => do
    let out ← readActTwo i input
    return out.map .initiator fun _ => ⟨none, none, none⟩
  | .initiator i, ⟨.three, _⟩ => do
    let out ← writeActThree i
    return out.map .initiator fun (act, channel) => ⟨some act, some channel, none⟩
  | .responder r, ⟨.one, input⟩ => do
    let out ← readActOne r input
    return out.map .responder fun _ => ⟨none, none, none⟩
  | .responder r, ⟨.two, _⟩ => do
    let out ← writeActTwo r
    return out.map .responder fun act => ⟨some act, none, none⟩
  | .responder r, ⟨.three, input⟩ => do
    let out ← readActThree r input
    return out.map .responder fun (channel, proved) => ⟨none, some channel, some proved⟩

theorem split_eq (t : Transcript) : split t = .ok t.split := by
  rw [split, derive_eq]
  rfl

theorem writeActOne_eq (i : Initiator) : writeActOne i = .ok i.writeActOne := by
  obtain ⟨identity, remote, phase⟩ := i
  cases phase with
  | initialized t e =>
      simp only [writeActOne, writeEphemeral_eq, Initiator.writeActOne]
      cases t.writeEphemeral e remote <;> rfl
  | _ => rfl

theorem readActTwo_eq (i : Initiator) (input : Bytes) :
    readActTwo i input = .ok (i.readActTwo input) := by
  obtain ⟨identity, remote, phase⟩ := i
  cases phase with
  | actOneSent t e =>
      have hsize : Act.two.size = 50 := rfl
      simp only [readActTwo, readEphemeral_eq t hsize, Initiator.readActTwo]
      cases t.readEphemeral .two e.secret input <;> rfl
  | _ => rfl

theorem writeActThree_eq {i : Initiator}
    (hroom : ∀ t e re, i.phase = .actTwoReceived t e re → t.temp.counter.toNat + 1 < UInt64.size) :
    writeActThree i = .ok i.writeActThree := by
  obtain ⟨identity, remote, phase⟩ := i
  cases phase with
  | actTwoReceived t e re =>
      simp only [writeActThree, writeStatic_eq (hroom t e re rfl), Initiator.writeActThree]
      cases t.writeStatic identity re with
      | error error => rfl
      | ok written =>
          simp only [Attempt.of_ok_bind, split_eq]
          rfl
  | _ => rfl

theorem readActOne_eq (r : Responder) (input : Bytes) :
    readActOne r input = .ok (r.readActOne input) := by
  obtain ⟨identity, phase⟩ := r
  cases phase with
  | initialized t e =>
      have hsize : Act.one.size = 50 := rfl
      simp only [readActOne, readEphemeral_eq t hsize, Responder.readActOne]
      cases t.readEphemeral .one identity.secret input <;> rfl
  | _ => rfl

theorem writeActTwo_eq (r : Responder) : writeActTwo r = .ok r.writeActTwo := by
  obtain ⟨identity, phase⟩ := r
  cases phase with
  | actOneReceived t e re =>
      simp only [writeActTwo, writeEphemeral_eq, Responder.writeActTwo]
      cases t.writeEphemeral e re <;> rfl
  | _ => rfl

theorem readActThree_eq {r : Responder}
    (hroom : ∀ t e re, r.phase = .actTwoSent t e re → t.temp.counter.toNat + 1 < UInt64.size)
    (input : Bytes) : readActThree r input = .ok (r.readActThree input) := by
  obtain ⟨identity, phase⟩ := r
  cases phase with
  | actTwoSent t e re =>
      simp only [readActThree, readStatic_eq (hroom t e re rfl), Responder.readActThree]
      cases t.readStatic e.secret input with
      | error error => rfl
      | ok read =>
          simp only [Attempt.of_ok_bind, split_eq]
          rfl
  | _ => rfl

theorem openHandshake_eq (setup : Setup) : openHandshake setup = .ok (.start setup) := by
  cases setup <;> simp only [openHandshake, opening_eq] <;> rfl

/-- Of all the counters, only that of act 2 is in use when an act begins. -/
theorem call_eq {setup : Setup} {h : Handshake} (hcame : Handshake.Came setup h)
    (c : Handshake.Call) : call h c = .ok (h.call c) := by
  have hone : ∀ t, (h.stage = .actTwoReceived ∨ h.stage = .actTwoSent) → h.transcript? = some t →
      t.temp.counter.toNat + 1 < UInt64.size := by
    intro t hstage ht
    obtain ⟨key, htemp⟩ := Handshake.temp_of_came hcame hstage ht
    rw [htemp]
    show 1 + 1 < UInt64.size
    decide
  obtain ⟨act, input⟩ := c
  cases h with
  | initiator i =>
      cases act with
      | one => simp only [call, writeActOne_eq, Handshake.call]; rfl
      | two => simp only [call, readActTwo_eq, Handshake.call]; rfl
      | three =>
          have hroom : ∀ t e re, i.phase = .actTwoReceived t e re →
              t.temp.counter.toNat + 1 < UInt64.size := by
            intro t e re hphase
            refine hone t (.inl ?_) ?_
            · exact congrArg Initiator.Phase.stage hphase
            · exact congrArg Initiator.Phase.transcript? hphase
          simp only [call, writeActThree_eq hroom, Handshake.call]
          rfl
  | responder r =>
      cases act with
      | one => simp only [call, readActOne_eq, Handshake.call]; rfl
      | two => simp only [call, writeActTwo_eq, Handshake.call]; rfl
      | three =>
          have hroom : ∀ t e re, r.phase = .actTwoSent t e re →
              t.temp.counter.toNat + 1 < UInt64.size := by
            intro t e re hphase
            refine hone t (.inr ?_) ?_
            · exact congrArg Responder.Phase.stage hphase
            · exact congrArg Responder.Phase.transcript? hphase
          simp only [call, readActThree_eq hroom, Handshake.call]
          rfl

/-! ## The sizes of the acts -/

theorem length_ephemeralAct {a : EphemeralAct} (h : a.key.length = Curve.compressedSize) :
    a.bytes.length = 50 := by
  rw [EphemeralAct.bytes, List.cons_append, List.length_cons, List.length_append, h,
    Transcript.length_tag]
  rfl

theorem length_staticAct {a : StaticAct} (h : a.identity.length = Curve.compressedSize) :
    a.bytes.length = 66 := by
  rw [StaticAct.bytes, List.cons_append, List.length_cons, List.length_append, StaticAct.sealed,
    Aead.length_encrypt, h, Transcript.length_tag]
  rfl

theorem length_of_written {setup : Setup} {h : Handshake} (hcame : Handshake.Came setup h)
    {c : Handshake.Call} {bytes : Bytes} (hwritten : h.written c = some bytes) :
    bytes.length = c.act.size := by
  have hrefused : h.next? c.act ≠ none := by
    intro hnone
    cases (Handshake.written_of_refused hnone).symm.trans hwritten
  have hread : h.role.step c.act ≠ .read c.act := by
    intro hread
    cases (Handshake.written_of_read hread).symm.trans hwritten
  obtain ⟨act, input⟩ := c
  cases setup <;> cases h
  · obtain ⟨one, two, three, hcame⟩ := hcame
    cases hcame with
    | opened =>
        cases act with
        | one =>
            rw [Handshake.written, Handshake.call, Initiator.writeActOne_eq] at hwritten
            obtain rfl := Option.some.inj hwritten
            exact length_ephemeralAct (KeyPair.pub _).compress.property
        | two | three => exact absurd rfl hrefused
    | oneWritten =>
        cases act with
        | two => exact absurd rfl hread
        | one | three => exact absurd rfl hrefused
    | twoRead =>
        cases act with
        | three =>
            rw [Handshake.written, Handshake.call, Initiator.writeActThree_eq] at hwritten
            obtain rfl := Option.some.inj hwritten
            exact length_staticAct (KeyPair.pub _).compress.property
        | one | two => exact absurd rfl hrefused
    | threeWritten | failed => cases act <;> exact absurd rfl hrefused
  · exact hcame.elim
  · exact hcame.elim
  · obtain ⟨one, two, three, proved, hcame⟩ := hcame
    cases hcame with
    | opened =>
        cases act with
        | one => exact absurd rfl hread
        | two | three => exact absurd rfl hrefused
    | oneRead =>
        cases act with
        | two =>
            rw [Handshake.written, Handshake.call, Responder.writeActTwo_eq] at hwritten
            obtain rfl := Option.some.inj hwritten
            exact length_ephemeralAct (KeyPair.pub _).compress.property
        | one | three => exact absurd rfl hrefused
    | twoWritten =>
        cases act with
        | three => exact absurd rfl hread
        | one | two => exact absurd rfl hrefused
    | threeRead | failedFirst | failedLast => cases act <;> exact absurd rfl hrefused

end Checked

end Bolt8
