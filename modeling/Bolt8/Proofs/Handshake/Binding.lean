import Bolt8.Proofs.Curve.Encoding
import Bolt8.Proofs.Handshake.Exchange
import Bolt8.Proofs.Transport.Frame

/-!
# What the handshake hash binds

Every hash of a transcript is a digest of the hash before it and one more text.
Unless two different inputs of these digests collide, equal hashes have been
made of the same texts; and from the texts all that was not mixed in follows,
the version bytes, the shared secrets and with them the transport keys.
-/

namespace Bolt8

open Curve.Point (ofCompressed?)

/-! ## Chains of digests -/

namespace Digest

/-- The hash after these texts. -/
def mixed (h : Digest) (texts : List Bytes) : Digest :=
  texts.foldl (fun h text => sha256 (h.val ++ text)) h

/-- What was digested on the way. -/
def inputs (h : Digest) : List Bytes → List Bytes
  | [] => []
  | text :: texts => (h.val ++ text) :: (sha256 (h.val ++ text)).inputs texts

theorem mixed_nil (h : Digest) : h.mixed [] = h := rfl

theorem mixed_append (h : Digest) (texts later : List Bytes) :
    h.mixed (texts ++ later) = (h.mixed texts).mixed later :=
  List.foldl_append

/-- At no place of two chains do different inputs have one digest. -/
def CollisionFree (xs ys : List Bytes) : Prop :=
  ∀ p ∈ xs.zip ys, sha256 p.1 = sha256 p.2 → p.1 = p.2

theorem collisionFree_self (xs : List Bytes) : CollisionFree xs xs := by
  intro p hp _
  obtain ⟨n, hn, rfl⟩ := List.mem_iff_getElem.1 hp
  rw [List.getElem_zip]

theorem mixed_inj {h h' : Digest} {texts texts' : List Bytes}
    (hlength : texts.length = texts'.length)
    (hfree : CollisionFree (h.inputs texts) (h'.inputs texts'))
    (heq : h.mixed texts = h'.mixed texts') : h = h' ∧ texts = texts' := by
  induction texts generalizing h h' texts' with
  | nil =>
      obtain rfl := List.length_eq_zero_iff.1 hlength.symm
      exact ⟨heq, rfl⟩
  | cons text texts ih =>
      cases texts' with
      | nil => exact nomatch hlength
      | cons text' texts' =>
          have hlater : CollisionFree ((sha256 (h.val ++ text)).inputs texts)
              ((sha256 (h'.val ++ text')).inputs texts') := by
            intro p hp
            exact hfree p (List.mem_cons_of_mem _ hp)
          obtain ⟨hdigest, rfl⟩ := ih (Nat.succ.inj hlength) hlater heq
          have hinput : h.val ++ text = h'.val ++ text' :=
            hfree (_, _) List.mem_cons_self hdigest
          -- the hash stands in front, always 32 bytes long
          obtain ⟨hval, rfl⟩ := List.append_inj hinput (h.property.trans h'.property.symm)
          exact ⟨Subtype.ext hval, rfl⟩

end Digest

/-! ## What a party mixes in -/

/-- What an act puts into the hash, the version byte left out. -/
def Act.texts (act : Act) (bytes : Bytes) : List Bytes :=
  [bytes.extract 1 (act.size - Aead.tagSize), bytes.drop (act.size - Aead.tagSize)]

theorem Act.texts_cons {act : Act} {key tag : Bytes}
    (h : key.length + 1 = act.size - Aead.tagSize) :
    act.texts (0 :: key ++ tag) = [key, tag] := by
  rw [texts, ← h, List.drop_left' (by rw [List.length_cons])]
  rw [List.extract_eq_take_drop, List.cons_append, List.drop_succ_cons, List.drop_zero,
    Nat.add_sub_cancel, List.take_left]

theorem EphemeralAct.texts_bytes (act : Act) (hsize : act.size = 50) {a : EphemeralAct}
    {re : PublicKey} (h : ofCompressed? a.key = some re) :
    act.texts a.bytes = [a.key, a.closing.tag] := by
  apply Act.texts_cons
  rw [hsize, Curve.Point.length_of_ofCompressed? h]
  rfl

theorem StaticAct.texts_bytes {a : StaticAct} {rs : PublicKey}
    (h : ofCompressed? a.identity = some rs) :
    Act.three.texts a.bytes = [a.sealed, a.closing.tag] := by
  apply Act.texts_cons
  rw [sealed, Aead.length_encrypt, Curve.Point.length_of_ofCompressed? h]
  rfl

/-- All that goes into the hash after the protocol's name. -/
def Transcript.texts (responder : PublicKey) (one two three : Option Bytes) : List Bytes :=
  [prologue, responder.compress.val] ++ one.elim [] Act.one.texts ++ two.elim [] Act.two.texts ++
    three.elim [] Act.three.texts

theorem StaticAct.identity_eq_of_sealed {a : EphemeralAct} {identity identity' : Bytes}
    {secret secret' : SharedSecret}
    (h : (a.last identity secret).sealed = (a.last identity' secret').sealed) :
    identity = identity' :=
  Aead.encrypt_inj h

theorem Transcript.texts_eq {responder re re' rs : PublicKey} {a b : EphemeralAct} {c : StaticAct}
    (ha : ofCompressed? a.key = some re) (hb : ofCompressed? b.key = some re')
    (hc : ofCompressed? c.identity = some rs) :
    texts responder (some a.bytes) (some b.bytes) (some c.bytes) =
      [prologue, responder.compress.val, a.key, a.closing.tag, b.key, b.closing.tag, c.sealed,
        c.closing.tag] := by
  simp only [texts, Option.elim_some, EphemeralAct.texts_bytes .one rfl ha,
    EphemeralAct.texts_bytes .two rfl hb, StaticAct.texts_bytes hc]
  rfl

/-- Equal hashes over three acts each are over equal texts. -/
theorem Transcript.texts_eq_of_mixed {responder responder' : PublicKey}
    {one two three one' two' three' : Bytes} {h : Digest}
    (hfree : Digest.CollisionFree
      (h.inputs (texts responder (some one) (some two) (some three)))
      (h.inputs (texts responder' (some one') (some two') (some three'))))
    (heq : h.mixed (texts responder (some one) (some two) (some three)) =
      h.mixed (texts responder' (some one') (some two') (some three'))) :
    texts responder (some one) (some two) (some three) =
      texts responder' (some one') (some two') (some three') := by
  have hlength : (texts responder (some one) (some two) (some three)).length =
      (texts responder' (some one') (some two') (some three')).length := rfl
  exact (Digest.mixed_inj hlength hfree heq).2

/-! ## The hash of a party -/

section mixed

variable {responder re re' rs : PublicKey} {a b : EphemeralAct} {c : StaticAct}

theorem Digest.mixed_texts (one two three : Option Bytes) :
    EphemeralAct.origin.mixed (Transcript.texts responder one two three) =
      (((EphemeralAct.opening responder).mixed (one.elim [] Act.one.texts)).mixed
        (two.elim [] Act.two.texts)).mixed (three.elim [] Act.three.texts) := by
  simp only [Transcript.texts, mixed_append]
  rfl

theorem EphemeralAct.after_eq_mixed (act : Act) (hsize : act.size = 50)
    (h : ofCompressed? a.key = some re) :
    a.closing.after = a.hash.mixed (act.texts a.bytes) := by
  rw [texts_bytes act hsize h]
  rfl

theorem EphemeralAct.after_one (ha : a.hash = opening responder)
    (hkey : ofCompressed? a.key = some re) :
    a.closing.after = origin.mixed (Transcript.texts responder (some a.bytes) none none) := by
  simp only [Digest.mixed_texts, Option.elim_some, Option.elim_none, Digest.mixed_nil]
  rw [after_eq_mixed .one rfl hkey, ha]

theorem EphemeralAct.after_two (ha : a.hash = opening responder)
    (hkey : ofCompressed? a.key = some re) (hb : b.hash = a.closing.after)
    (hkey' : ofCompressed? b.key = some re') :
    b.closing.after =
      origin.mixed (Transcript.texts responder (some a.bytes) (some b.bytes) none) := by
  rw [after_eq_mixed .two rfl hkey', hb, after_one ha hkey]
  simp only [Digest.mixed_texts, Option.elim_some, Option.elim_none, Digest.mixed_nil]

theorem StaticAct.after_three (ha : a.hash = EphemeralAct.opening responder)
    (hkey : ofCompressed? a.key = some re) (hb : b.hash = a.closing.after)
    (hkey' : ofCompressed? b.key = some re') (hc : c.hash = b.closing.after)
    (hidentity : ofCompressed? c.identity = some rs) :
    c.closing.after = EphemeralAct.origin.mixed
      (Transcript.texts responder (some a.bytes) (some b.bytes) (some c.bytes)) := by
  have hafter : c.closing.after = c.hash.mixed (Act.three.texts c.bytes) := by
    rw [texts_bytes hidentity]
    rfl
  rw [hafter, hc, EphemeralAct.after_two ha hkey hb hkey']
  simp only [Digest.mixed_texts, Option.elim_some, Option.elim_none, Digest.mixed_nil]

end mixed

namespace Initiates

variable {i e : KeyPair} {remote : PublicKey} {p : Initiator} {one two : Option Bytes}
variable {three : Option (Bytes × Channel)}

/-- The running hash, and in the end that of the channel, is over these texts. -/
theorem hash (h : Initiates i remote e p one two three) :
    let digest := EphemeralAct.origin.mixed (Transcript.texts remote one two (three.map Prod.fst))
    (∀ t, p.phase.transcript? = some t → t.hash = digest) ∧
      ∀ act channel, three = some (act, channel) → channel.handshakeHash = some digest := by
  cases h with
  | opened =>
      refine ⟨?_, nofun⟩
      rintro t ⟨⟩
      rw [Transcript.opening_eq]
      exact (Digest.mixed_texts none none none).symm
  | oneWritten =>
      refine ⟨?_, nofun⟩
      rintro t ⟨⟩
      exact EphemeralAct.after_one rfl (Exchange.ofCompressed?_pub e)
  | twoRead hkey =>
      refine ⟨?_, nofun⟩
      rintro t ⟨⟩
      exact EphemeralAct.after_two rfl (Exchange.ofCompressed?_pub e) rfl hkey
  | threeWritten hkey =>
      refine ⟨nofun, ?_⟩
      rintro act channel ⟨⟩
      exact congrArg some (StaticAct.after_three rfl (Exchange.ofCompressed?_pub e) rfl hkey rfl
        (Exchange.ofCompressed?_pub i))
  | failed => exact ⟨nofun, nofun⟩

end Initiates

namespace Responds

variable {r e : KeyPair} {p : Responder} {one two three : Option Bytes}
variable {accepted : Option (Channel × PublicKey)}

theorem hash (h : Responds r e p one two three accepted) :
    let digest := EphemeralAct.origin.mixed (Transcript.texts r.pub one two three)
    (∀ t, p.phase.transcript? = some t → t.hash = digest) ∧
      ∀ channel identity, accepted = some (channel, identity) →
        channel.handshakeHash = some digest := by
  cases h with
  | opened =>
      refine ⟨?_, nofun⟩
      rintro t ⟨⟩
      rw [Transcript.opening_eq]
      exact (Digest.mixed_texts none none none).symm
  | oneRead hkey =>
      refine ⟨?_, nofun⟩
      rintro t ⟨⟩
      exact EphemeralAct.after_one rfl hkey
  | twoWritten hkey =>
      refine ⟨?_, nofun⟩
      rintro t ⟨⟩
      exact EphemeralAct.after_two rfl hkey rfl (Exchange.ofCompressed?_pub e)
  | threeRead hkey hidentity =>
      refine ⟨nofun, ?_⟩
      rintro channel identity ⟨⟩
      exact congrArg some
        (StaticAct.after_three rfl hkey rfl (Exchange.ofCompressed?_pub e) rfl hidentity)
  | failedFirst | failedLast => exact ⟨nofun, nofun⟩

end Responds

/-! ## Two ends with one hash -/

namespace Exchange

/-- The texts that a party has mixed into its hash so far. -/
def texts (s : Exchange) : Role → List Bytes
  | .initiator =>
    Transcript.texts s.initiator.remoteStatic s.session.actOne s.twoRead
      (s.session.actThree.map Prod.fst)
  | .responder =>
    Transcript.texts s.responder.identity.pub s.oneRead s.session.actTwo s.threeRead

/-- All that a party has digested to mix them in. -/
def digested (s : Exchange) (role : Role) : List Bytes :=
  EphemeralAct.origin.inputs (s.texts role)

/-- One handshake, at both its ends: the acts were read as they were written,
each party knows the other's static key, and the channels are mirrored. -/
structure Bound (s : Exchange) (ours theirs : Channel) : Prop where
  one : ∃ act, s.session.actOne = some act ∧ s.oneRead = some act
  two : ∃ act, s.session.actTwo = some act ∧ s.twoRead = some act
  three : ∃ act, s.session.actThree = some (act, ours) ∧ s.threeRead = some act
  remoteStatic : s.initiator.remoteStatic = s.responder.identity.pub
  accepted : s.session.accepted = some (theirs, s.initiator.identity.pub)
  known : s.responder.remoteStatic = some s.initiator.identity.pub
  mirrored : ours.Mirrored theirs

/-- Parties that have mixed in the same texts have each other's keys. -/
theorem keys_of_texts {i e r e' : KeyPair} {remote re re' rs : PublicKey}
    {key key' identity : Bytes} (hremote : remote.OnCurve)
    (hkey : ofCompressed? key = some re) (hkey' : ofCompressed? key' = some re')
    (hidentity : ofCompressed? identity = some rs)
    (htexts : Transcript.texts remote (some (Initiator.one remote e).bytes)
        (some (Initiator.two remote e key re).bytes)
        (some (Initiator.three i remote e key re).bytes) =
      Transcript.texts r.pub (some (Responder.one r key' re').bytes)
        (some (Responder.two r e' key' re').bytes)
        (some (Responder.three r e' key' re' identity rs).bytes)) :
    remote = r.pub ∧ (key = e'.pub.compress.val ∧ re = e'.pub) ∧
      (key' = e.pub.compress.val ∧ re' = e.pub) ∧ identity = i.pub.compress.val ∧ rs = i.pub := by
  rw [Transcript.texts_eq (a := Initiator.one remote e) (ofCompressed?_pub e) hkey
    (ofCompressed?_pub i)] at htexts
  rw [Transcript.texts_eq (a := Responder.one r key' re') hkey' (ofCompressed?_pub e')
    hidentity] at htexts
  simp only [List.cons.injEq] at htexts
  obtain ⟨-, hstatic, hour, -, htheir, -, hsealed, -⟩ := htexts
  have hpub : remote = r.pub := by
    have hparse := Curve.Point.ofCompressed?_compress hremote
    rw [hstatic] at hparse
    exact Option.some.inj (hparse.symm.trans (ofCompressed?_pub r))
  subst hpub
  obtain rfl : e.pub.compress.val = key' := hour
  obtain rfl : key = e'.pub.compress.val := htheir
  obtain rfl : e.pub = re' := Option.some.inj ((ofCompressed?_pub e).symm.trans hkey')
  obtain rfl : e'.pub = re := Option.some.inj ((ofCompressed?_pub e').symm.trans hkey)
  -- the temporary keys are equal by now, so what they seal is equal too
  obtain rfl : i.pub.compress.val = identity := by
    rw [Initiator.three, Responder.three, two_comm] at hsealed
    exact StaticAct.identity_eq_of_sealed hsealed
  refine ⟨rfl, ⟨rfl, rfl⟩, ⟨rfl, rfl⟩, rfl, ?_⟩
  exact Option.some.inj (hidentity.symm.trans (ofCompressed?_pub i))

theorem mirrored_channel (a : StaticAct) :
    (a.channel .initiator).Mirrored (a.channel .responder) := by
  rw [← StaticAct.ofSplit_transcript, ← StaticAct.ofSplit_transcript]
  exact Channel.mirrored_ofSplit _

theorem bound_of_equal_hashes (i : KeyPair) (remote : PublicKey) (e r e' : KeyPair)
    (hremote : remote.OnCurve) (calls : List Call) :
    let s := (start i remote e r e').run calls
    s.initiator.stage = .complete → s.responder.stage = .complete →
    Digest.CollisionFree (s.digested .initiator) (s.digested .responder) →
    ∃ ours theirs, (∃ act, s.session.actThree = some (act, ours)) ∧
      (∃ identity, s.session.accepted = some (theirs, identity)) ∧
      (ours.handshakeHash = theirs.handshakeHash → s.Bound ours theirs) := by
  intro s hour htheir hfree
  obtain ⟨hi, hr⟩ : s.Course i remote e r e' := course_run i remote e r e' calls
  have hhash := hi.hash.2
  have hhash' := hr.hash.2
  clear_value s
  obtain ⟨⟨p, q, actOne, actTwo, actThree, accepted⟩, oneRead, twoRead, threeRead⟩ := s
  simp only [initiator, responder, digested, texts] at *
  cases hi with
  | @threeWritten key re hkey =>
      cases hr with
      | @threeRead key' re' identity rs hkey' hidentity =>
          refine ⟨_, _, ⟨_, rfl⟩, ⟨_, rfl⟩, ?_⟩
          intro heq
          have hdigest := Option.some.inj ((hhash _ _ rfl).symm.trans (heq.trans (hhash' _ _ rfl)))
          have htexts := Transcript.texts_eq_of_mixed hfree hdigest
          obtain ⟨rfl, ⟨rfl, rfl⟩, ⟨rfl, rfl⟩, rfl, rfl⟩ :=
            keys_of_texts hremote hkey hkey' hidentity htexts
          rw [one_comm, two_comm, three_comm]
          exact ⟨⟨_, rfl, rfl⟩, ⟨_, rfl, rfl⟩, ⟨_, rfl, rfl⟩, rfl, rfl, rfl, mirrored_channel _⟩
      | _ => cases htheir
  | _ => cases hour

theorem bound_of_delivery :
    let i := KeyPair.ofSecret ⟨1, by decide, by decide⟩
    let e := KeyPair.ofSecret ⟨2, by decide, by decide⟩
    let r := KeyPair.ofSecret ⟨3, by decide, by decide⟩
    let e' := KeyPair.ofSecret ⟨4, by decide, by decide⟩
    let s := (start i r.pub e r e').run (greeting e r ++ introduction i e r e')
    r.pub.OnCurve ∧ s.initiator.stage = .complete ∧ s.responder.stage = .complete ∧
      Digest.CollisionFree (s.digested .initiator) (s.digested .responder) ∧
      ∃ ours theirs, ours.handshakeHash = theirs.handshakeHash ∧ s.Bound ours theirs := by
  intro i e r e' s
  clear_value i e r e'
  have hcurve : r.pub.OnCurve := r.pub_eq ▸ r.secret.onCurve_publicKey
  have hs : s = _ := run_introduction i e r e'
  have hour : s.initiator.stage = .complete := by rw [hs]; rfl
  have htheir : s.responder.stage = .complete := by rw [hs]; rfl
  have htexts : s.texts .initiator = s.texts .responder := by rw [hs]; rfl
  have hfree : Digest.CollisionFree (s.digested .initiator) (s.digested .responder) := by
    rw [digested, digested, htexts]
    exact Digest.collisionFree_self _
  refine ⟨hcurve, hour, htheir, hfree, ?_⟩
  obtain ⟨ours, theirs, ⟨act, hthree⟩, ⟨identity, haccepted⟩, hbound⟩ :=
    bound_of_equal_hashes i r.pub e r e' hcurve (greeting e r ++ introduction i e r e')
      hour htheir hfree
  have hhash : ours.handshakeHash = theirs.handshakeHash := by
    change s.session.actThree = _ at hthree
    change s.session.accepted = _ at haccepted
    rw [hs] at hthree haccepted
    obtain ⟨-, rfl⟩ := Prod.mk.inj (Option.some.inj hthree)
    obtain ⟨rfl, -⟩ := Prod.mk.inj (Option.some.inj haccepted)
    rfl
  exact ⟨ours, theirs, hhash, hbound hhash⟩

end Exchange

end Bolt8
