import Bolt8.Proofs.Aead.Opening
import Bolt8.Proofs.Ledger
import Bolt8.Proofs.Run

/-!
# Two transcripts, one script

A script asks the same of two transcripts: both mix in the same, and what one of
them seals the other opens. Calls that fail may come in between, on either one
alone. The transcripts then stay equal, whichever seals: both count the texts
passed since the last key, under the hash so far, and mix in the sealed text
(`alike_throughout`).
-/

namespace Bolt8

/-! ## Calls in place

A call changes a transcript bit by bit, and whatever it has changed stays when it
fails after that. That a failed call has changed nothing is therefore proved. -/

/-- A computation that changes a state, and may fail with the state as it then is. -/
abbrev InPlace (σ α : Type) := ExceptT Error (StateM σ) α

namespace InPlace

variable {σ α β : Type} {x : InPlace σ α} {f : α → InPlace σ β} {s s' : σ}

theorem run_bind_of_ok {a : α} (h : x.run s = (.ok a, s')) : (x >>= f).run s = (f a).run s' := by
  show ExceptT.bindCont f (x.run s).1 (x.run s).2 = _
  rw [h]
  rfl

theorem run_bind_of_error {e : Error} (h : x.run s = (.error e, s')) :
    (x >>= f).run s = (.error e, s') := by
  show ExceptT.bindCont f (x.run s).1 (x.run s).2 = _
  rw [h]
  rfl

theorem run_get (s : σ) : (get : InPlace σ σ).run s = (.ok s, s) := rfl

end InPlace

namespace TempKey

def encryptInPlace (data plain : Bytes) : InPlace TempKey Bytes := do
  match (← get).key with
  | none => throw .outOfTurn
  | some key =>
    let sealed := Aead.encrypt key (← get).counter data plain
    modify advance
    return sealed

/-- What is found is handed out, and counts as a use. -/
def handOut : Option Bytes → InPlace TempKey Bytes
  | none => throw .notAuthentic
  | some plain => do
    modify advance
    return plain

def decryptInPlace (data sealed : Bytes) : InPlace TempKey Bytes := do
  match (← get).key with
  | none => throw .outOfTurn
  | some key => handOut (Aead.decrypt key (← get).counter data sealed)

end TempKey

namespace Transcript

/-- A call on the temporary key, which stays part of the transcript. -/
def onTemp {α : Type} (call : InPlace TempKey α) : InPlace Transcript α := fun t =>
  let (result, temp) := call.run t.temp
  (result, { t with temp })

def Op.inPlace : Op → InPlace Transcript Bytes
  | .mixHash data => do
    modify (·.mixHash data)
    return []
  | .mixKey material => do
    modify (·.mixKey material)
    return []
  | .encrypt plain => do
    let sealed ← onTemp (TempKey.encryptInPlace (← get).hash.val plain)
    modify (·.mixHash sealed)
    return sealed
  | .decrypt sealed => do
    let plain ← onTemp (TempKey.decryptInPlace (← get).hash.val sealed)
    modify (·.mixHash sealed)
    return plain

/-- What a call gives, and the transcript as it leaves it. -/
def call (t : Transcript) (op : Op) : Except Error Bytes × Transcript := op.inPlace.run t

/-- A call that succeeds does what was asked; one that fails has changed nothing. -/
theorem call_cases (t : Transcript) (op : Op) :
    (∃ answer t', t.perform op = .ok (answer, t') ∧ t.call op = (.ok answer, t')) ∨
    ∃ e, t.perform op = .error e ∧ t.call op = (.error e, t) := by
  obtain ⟨⟨key, counter⟩, chainingKey, hash⟩ := t
  cases op with
  | mixHash | mixKey => exact .inl ⟨_, _, rfl, rfl⟩
  | encrypt plain =>
      cases key with
      | none => exact .inr ⟨_, rfl, rfl⟩
      | some key => exact .inl ⟨_, _, rfl, rfl⟩
  | decrypt sealed =>
      cases key with
      | none => exact .inr ⟨_, rfl, rfl⟩
      | some key =>
          -- What is opened is named, so that the call can be read up to there.
          have hcall : ∀ opened, Aead.decrypt key counter hash.val sealed = opened →
              call ⟨⟨some key, counter⟩, chainingKey, hash⟩ (.decrypt sealed) =
                (onTemp (TempKey.handOut opened) >>= fun plain => do
                  modify (·.mixHash sealed)
                  return plain : InPlace Transcript Bytes).run
                  ⟨⟨some key, counter⟩, chainingKey, hash⟩ := by
            rintro _ rfl
            rfl
          cases hopen : Aead.decrypt key counter hash.val sealed with
          | none =>
              refine .inr ⟨.notAuthentic, ?_, hcall _ hopen⟩
              simp only [perform, decryptAndHash, TempKey.decrypt, hopen]
              rfl
          | some plain =>
              refine .inl ⟨plain, _, ?_, hcall _ hopen⟩
              simp only [perform, decryptAndHash, TempKey.decrypt, hopen]
              rfl

variable {t t' : Transcript} {op : Op} {key : Aead.Key} {answer : Bytes} {e : Error}

theorem call_of_ok (h : t.perform op = .ok (answer, t')) : t.call op = (.ok answer, t') := by
  rcases t.call_cases op with ⟨_, _, hperform, hcall⟩ | ⟨_, hperform, -⟩
  · rw [h] at hperform
    obtain ⟨rfl, rfl⟩ := Prod.mk.inj (Except.ok.inj hperform)
    exact hcall
  · rw [h] at hperform
    cases hperform

theorem call_of_error (h : t.perform op = .error e) : t.call op = (.error e, t) := by
  rcases t.call_cases op with ⟨_, _, hperform, -⟩ | ⟨_, hperform, hcall⟩
  · rw [h] at hperform
    cases hperform
  · rw [h] at hperform
    cases hperform
    exact hcall

theorem unchanged_of_error (h : (t.call op).1 = .error e) : (t.call op).2 = t := by
  rcases t.call_cases op with ⟨_, _, -, hcall⟩ | ⟨_, -, hcall⟩
  · rw [hcall] at h
    cases h
  · rw [hcall]

theorem call_of_no_key (h : t.temp.key = none) (text : Bytes) :
    t.call (.encrypt text) = (.error .outOfTurn, t) ∧
      t.call (.decrypt text) = (.error .outOfTurn, t) := by
  obtain ⟨⟨_, counter⟩, chainingKey, hash⟩ := t
  cases h
  exact ⟨rfl, rfl⟩

theorem call_of_not_opened {sealed : Bytes} (h : t.temp.key = some key)
    (hopen : Aead.decrypt key t.temp.counter t.hash.val sealed = none) :
    t.call (.decrypt sealed) = (.error .notAuthentic, t) := by
  refine call_of_error ?_
  simp only [perform, decryptAndHash, TempKey.decrypt, h, hopen]
  rfl

/-- Sealing a text and opening what comes of it lead to the same transcript. -/
theorem call_of_key (h : t.temp.key = some key) (plain : Bytes) :
    let sealed := Aead.encrypt key t.temp.counter t.hash.val plain
    let next : Transcript := ⟨t.temp.advance, t.chainingKey, sha256 (t.hash.val ++ sealed)⟩
    t.call (.encrypt plain) = (.ok sealed, next) ∧
      t.call (.decrypt sealed) = (.ok plain, next) := by
  intro sealed next
  have hseals : t.encryptAndHash plain = .ok (sealed, next) := encryptAndHash_eq h plain
  exact ⟨call_of_ok hseals, call_of_ok (decryptAndHash_of_encryptAndHash hseals)⟩

end Transcript

/-! ## Two transcripts -/

inductive Side
  | left
  | right
  deriving DecidableEq

def Side.other : Side → Side
  | .left => .right
  | .right => .left

/-- Two transcripts, what was mixed into both for each key, and how many texts have
been passed from one to the other since the last. -/
structure Twins where
  left : Transcript
  right : Transcript
  mixed : List Bytes
  passed : ℕ

namespace Twins

open Transcript (Op)

/-- What a script asks: of both the same, of one to seal a text and of the other to
open it, or of one alone. -/
inductive Step
  | mixKey (material : Bytes)
  | mixHash (data : Bytes)
  | pass (sealer : Side) (plain : Bytes)
  | alone (side : Side) (op : Op)

def start (name : String) (prologue : Bytes) : Twins :=
  ⟨.start name prologue, .start name prologue, [], 0⟩

def swap (s : Twins) : Twins := { s with left := s.right, right := s.left }

def get (s : Twins) : Side → Transcript
  | .left => s.left
  | .right => s.right

/-- A text that the left one seals; when it cannot, there is nothing to be opened. -/
def passFromLeft (s : Twins) (plain : Bytes) : Twins :=
  match s.left.call (.encrypt plain) with
  | (.ok sealed, left) =>
    { s with left, right := (s.right.call (.decrypt sealed)).2, passed := s.passed + 1 }
  | (.error _, left) => { s with left }

def after (s : Twins) : Step → Twins
  | .mixKey material =>
    ⟨(s.left.call (.mixKey material)).2, (s.right.call (.mixKey material)).2,
      s.mixed ++ [material], 0⟩
  | .mixHash data =>
    { s with
      left := (s.left.call (.mixHash data)).2
      right := (s.right.call (.mixHash data)).2 }
  | .pass .left plain => s.passFromLeft plain
  | .pass .right plain => (s.swap.passFromLeft plain).swap
  | .alone .left op => { s with left := (s.left.call op).2 }
  | .alone .right op => { s with right := (s.right.call op).2 }

def run (s : Twins) (script : List Step) : Twins := script.foldl after s

/-- What is asked of one alone fails. -/
def Fair (s : Twins) : Step → Prop
  | .alone side op => ∃ e, ((s.get side).call op).1 = .error e
  | .mixKey _ | .mixHash _ | .pass _ _ => True

/-- The two are one transcript, with the key of all that was mixed in, and a counter
that tells the texts passed under it. -/
structure Alike (origin : Digest) (s : Twins) : Prop where
  same : s.right = s.left
  chained : s.left.chainingKey = chain origin s.mixed
  keyed : s.left.temp.key = temporaryKey origin s.mixed s.mixed.length
  counted : s.left.temp.counter = .ofNat s.passed

variable {origin : Digest} {s : Twins}

theorem alike_start (name : String) (prologue : Bytes) :
    Alike (Transcript.start name prologue).chainingKey (start name prologue) :=
  ⟨rfl, rfl, rfl, rfl⟩

theorem alike_swap (h : s.Alike origin) : s.swap.Alike origin := by
  obtain ⟨same, chained, keyed, counted⟩ := h
  refine ⟨same.symm, ?_, ?_, ?_⟩ <;> rw [swap, same]
  exacts [chained, keyed, counted]

theorem alike_passFromLeft (h : s.Alike origin) (plain : Bytes) :
    (s.passFromLeft plain).Alike origin := by
  cases hkey : s.left.temp.key with
  | none =>
      rw [passFromLeft, (Transcript.call_of_no_key hkey plain).1]
      exact h
  | some key =>
      obtain ⟨hseals, hopens⟩ := Transcript.call_of_key hkey plain
      rw [passFromLeft, hseals]
      simp only [h.same, hopens]
      refine ⟨rfl, h.chained, h.keyed, ?_⟩
      rw [UInt64.ofNat_add, ← h.counted]
      rfl

theorem alike_after (h : s.Alike origin) {step : Step} (hfair : s.Fair step) :
    (s.after step).Alike origin := by
  cases step with
  | mixKey material =>
      refine ⟨?_, ?_, ?_, rfl⟩
      · rw [after, h.same]
      · rw [after, chain_snoc, ← h.chained]
        rfl
      · rw [after, temporaryKey_last, ← h.chained]
        rfl
  | mixHash data =>
      refine ⟨?_, h.chained, h.keyed, h.counted⟩
      rw [after, h.same]
  | pass sealer plain =>
      cases sealer with
      | left => exact alike_passFromLeft h plain
      -- the same, with the two exchanged before and after
      | right => exact alike_swap (alike_passFromLeft (alike_swap h) plain)
  | alone side op =>
      obtain ⟨e, herror⟩ := hfair
      cases side with
      | left =>
          have hleft : (s.left.call op).2 = s.left := Transcript.unchanged_of_error herror
          rw [after, hleft]
          exact h
      | right =>
          have hright : (s.right.call op).2 = s.right := Transcript.unchanged_of_error herror
          rw [after, hright]
          exact h

theorem alike_run (name : String) (prologue : Bytes) {script : List Step}
    (h : Always after Fair (start name prologue) script) :
    ((start name prologue).run script).Alike (Transcript.start name prologue).chainingKey :=
  invariant_run (fun _ _ hs hfair => alike_after hs hfair) (alike_start name prologue) h

theorem Alike.get_eq (h : s.Alike origin) (side : Side) : s.get side = s.left := by
  cases side with
  | left => rfl
  | right => exact h.same

/-- Before anything is mixed in for a key, nothing is sealed or opened. -/
theorem Alike.call_of_nothing_mixed (h : s.Alike origin) (hmixed : s.mixed = []) (side : Side)
    (text : Bytes) :
    (s.get side).call (.encrypt text) = (.error .outOfTurn, s.get side) ∧
      (s.get side).call (.decrypt text) = (.error .outOfTurn, s.get side) := by
  refine Transcript.call_of_no_key ?_ text
  rw [h.get_eq, h.keyed, hmixed]
  rfl

theorem Alike.exists_key (h : s.Alike origin) (hmixed : s.mixed ≠ []) :
    ∃ key, s.left.temp.key = some key := by
  obtain hnil | ⟨earlier, material, hlast⟩ := List.eq_nil_or_concat s.mixed
  · exact absurd hnil hmixed
  · rw [h.keyed, hlast, List.concat_eq_append, temporaryKey_last]
    exact ⟨_, rfl⟩

/-- Whoever seals a text, the other one opens it, and both have mixed in what was
sealed. -/
theorem Alike.call_of_key (h : s.Alike origin) {key : Aead.Key}
    (hkey : s.left.temp.key = some key) (sealer : Side) (plain : Bytes) :
    let sealed := Aead.encrypt key (.ofNat s.passed) s.left.hash.val plain
    let next : Transcript := ⟨⟨some key, .ofNat (s.passed + 1)⟩, s.left.chainingKey,
      sha256 (s.left.hash.val ++ sealed)⟩
    (s.get sealer).call (.encrypt plain) = (.ok sealed, next) ∧
      (s.get sealer.other).call (.decrypt sealed) = (.ok plain, next) := by
  have hnext : s.left.temp.advance = ⟨some key, .ofNat (s.passed + 1)⟩ := by
    rw [TempKey.advance, hkey, h.counted, UInt64.ofNat_add]
    rfl
  rw [h.get_eq, h.get_eq, ← hnext, ← h.counted]
  exact Transcript.call_of_key hkey plain

/-- Two transcripts from one start, under any script in which the calls on one alone
fail. Then they are one transcript, before the first key they can do nothing, after
it what one seals the other opens, under the counter of the texts passed since and the
hash so far; and they split into the same keys. -/
theorem alike_throughout (name : String) (prologue : Bytes) (script : List Step)
    (hfair : Always after Fair (start name prologue) script) :
    let s := (start name prologue).run script
    s.Alike (Transcript.start name prologue).chainingKey ∧
    (s.passed < UInt64.size → s.left.temp.counter.toNat = s.passed) ∧
    (s.mixed = [] → ∀ side text,
      (s.get side).call (.encrypt text) = (.error .outOfTurn, s.get side) ∧
      (s.get side).call (.decrypt text) = (.error .outOfTurn, s.get side)) ∧
    (s.mixed ≠ [] → ∃ key, s.left.temp.key = some key ∧ ∀ sealer plain,
      let sealed := Aead.encrypt key (.ofNat s.passed) s.left.hash.val plain
      let next : Transcript := ⟨⟨some key, .ofNat (s.passed + 1)⟩, s.left.chainingKey,
        sha256 (s.left.hash.val ++ sealed)⟩
      (s.get sealer).call (.encrypt plain) = (.ok sealed, next) ∧
      (s.get sealer.other).call (.decrypt sealed) = (.ok plain, next)) ∧
    (∀ side op e, ((s.get side).call op).1 = .error e → ((s.get side).call op).2 = s.get side) ∧
    s.right.split = s.left.split ∧
    s.left.split = ⟨s.left.hash, s.left.chainingKey, (hkdf s.left.chainingKey []).first,
      (hkdf s.left.chainingKey []).second⟩ := by
  intro s
  have hs : s.Alike (Transcript.start name prologue).chainingKey := alike_run name prologue hfair
  refine ⟨hs, ?_, hs.call_of_nothing_mixed, ?_, ?_, ?_, rfl⟩
  · intro hlt
    rw [hs.counted, UInt64.toNat_ofNat_of_lt' hlt]
  · intro hmixed
    obtain ⟨key, hkey⟩ := hs.exists_key hmixed
    exact ⟨key, hkey, hs.call_of_key hkey⟩
  · intro side op e herror
    exact Transcript.unchanged_of_error herror
  · rw [hs.same]

/-- Texts in both directions, a call too early, and one that is given no sealed text. -/
theorem alike_after_two_texts :
    let script : List Step := [.alone .left (.encrypt []), .mixKey [1], .mixHash [2],
      .pass .left [104, 105], .alone .right (.decrypt [0]), .pass .right []]
    let s := (start protocolName prologue).run script
    Always after Fair (start protocolName prologue) script ∧
      s.right = s.left ∧ s.right.split = s.left.split := by
  intro script s
  have hshort : ∀ t : Transcript, ∃ e, (t.call (.decrypt [0])).1 = .error e := by
    intro t
    cases hkey : t.temp.key with
    | none => exact ⟨.outOfTurn, by rw [(Transcript.call_of_no_key hkey [0]).2]⟩
    | some key => exact ⟨.notAuthentic, by rw [Transcript.call_of_not_opened hkey
        (Aead.decrypt_of_short key _ _ (by decide))]⟩
  have hfair : Always after Fair (start protocolName prologue) script := by
    simp only [script, always_cons]
    exact ⟨⟨.outOfTurn, rfl⟩, trivial, trivial, trivial, hshort _, trivial, always_nil⟩
  obtain ⟨hs, -, -, -, -, hsplit, -⟩ := alike_throughout protocolName prologue script hfair
  exact ⟨hfair, hs.same, hsplit⟩

end Twins

end Bolt8
