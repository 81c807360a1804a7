import Bolt8.Proofs.Transcript
import Mathlib.Data.List.Pairwise

/-!
# The books of a transcript

A program asks a transcript for one thing after the other and may go by its
answers. The ledger beside it books the material of each key mixed in, each
text sealed, and each counter value used up. Whatever the program, a key is told
by its number and its counter only grows, so nothing is ever sealed at a place
that was used before, as long as no counter comes to its end (`sound_record`).
-/

namespace Bolt8

/-! ## Keys by their names -/

/-- A key by its origin: the number of the key in a handshake, or the number of
rotations before it in the direction of `sender`. -/
inductive KeyName
  | temporary (number : ℕ)
  | transport (sender : Role) (epoch : ℕ)
  deriving DecidableEq

/-- The number in a name. -/
def KeyName.index : KeyName → ℕ
  | temporary number => number
  | transport _ epoch => epoch

/-- The chaining key after these materials. -/
def chain (origin : Digest) (mixed : List Bytes) : Digest :=
  mixed.foldl (fun chainingKey material => (hkdf chainingKey material).first) origin

/-- The key that the material of this number gives; there is none of number 0. -/
def temporaryKey (origin : Digest) (mixed : List Bytes) : ℕ → Option Aead.Key
  | 0 => none
  | number + 1 =>
    mixed[number]?.map fun material => (hkdf (chain origin (mixed.take number)) material).second

theorem chain_snoc (origin : Digest) (mixed : List Bytes) (material : Bytes) :
    chain origin (mixed ++ [material]) = (hkdf (chain origin mixed) material).first := by
  rw [chain, List.foldl_append]
  rfl

/-- Later materials do not change earlier keys. -/
theorem temporaryKey_append {origin : Digest} {mixed : List Bytes} {number : ℕ}
    (h : number ≤ mixed.length) (later : List Bytes) :
    temporaryKey origin (mixed ++ later) number = temporaryKey origin mixed number := by
  cases number with
  | zero => rfl
  | succ number =>
      simp only [temporaryKey, List.getElem?_append_left h, List.take_append_of_le_length
        (Nat.le_of_succ_le h)]

theorem le_length_of_temporaryKey {origin : Digest} {mixed : List Bytes} {number : ℕ}
    {key : Aead.Key} (h : temporaryKey origin mixed number = some key) :
    number ≤ mixed.length := by
  cases number with
  | zero => cases h
  | succ number =>
      obtain ⟨material, hmaterial, -⟩ := Option.map_eq_some_iff.1 h
      exact (List.getElem?_eq_some_iff.1 hmaterial).1

/-- Materials with a common beginning give the same keys as far as they go. -/
theorem temporaryKey_mono {origin : Digest} {mixed mixed' : List Bytes} {number : ℕ}
    {key : Aead.Key} (h : mixed <+: mixed') (hkey : temporaryKey origin mixed number = some key) :
    temporaryKey origin mixed' number = some key := by
  obtain ⟨later, rfl⟩ := h
  rw [temporaryKey_append (le_length_of_temporaryKey hkey), hkey]

theorem temporaryKey_last (origin : Digest) (mixed : List Bytes) (material : Bytes) :
    temporaryKey origin (mixed ++ [material]) (mixed ++ [material]).length =
      some (hkdf (chain origin mixed) material).second := by
  simp [temporaryKey]

/-! ## Sealed texts -/

/-- A use of a key to seal. -/
structure Sealing where
  name : KeyName
  key : Aead.Key
  counter : UInt64
  data : Bytes
  plain : Bytes
  deriving DecidableEq

namespace Sealing

def bytes (s : Sealing) : Bytes := Aead.encrypt s.key s.counter s.data s.plain

/-- What no two sealings may have in common. -/
def place (s : Sealing) : KeyName × UInt64 := (s.name, s.counter)

/-- Under an earlier key, or with an earlier value of the same counter. -/
def Before (s s' : Sealing) : Prop :=
  s.name.index < s'.name.index ∨ s.name.index = s'.name.index ∧ s.counter < s'.counter

theorem place_ne_of_before {s s' : Sealing} (h : s.Before s') : s.place ≠ s'.place := by
  intro heq
  obtain ⟨hname, hcounter⟩ := Prod.mk.inj heq
  rcases h with hlt | ⟨-, hlt⟩
  · exact absurd (congrArg KeyName.index hname) (Nat.ne_of_lt hlt)
  · exact absurd hcounter (UInt64.ne_of_lt hlt)

end Sealing

/-! ## Programs -/

namespace Transcript

/-- What can be asked of a transcript. -/
inductive Op
  | mixHash (data : Bytes)
  | mixKey (material : Bytes)
  | encrypt (plain : Bytes)
  | decrypt (sealed : Bytes)

theorem temp_of_encryptAndHash {t t' : Transcript} {plain sealed : Bytes}
    (h : t.encryptAndHash plain = .ok (sealed, t')) :
    t'.temp = t.temp.advance ∧ t'.chainingKey = t.chainingKey := by
  obtain ⟨key, hkey⟩ := exists_key_of_encryptAndHash h
  rw [encryptAndHash_eq hkey] at h
  obtain ⟨-, rfl⟩ := Prod.mk.inj (Except.ok.inj h)
  exact ⟨rfl, rfl⟩

theorem temp_of_decryptAndHash {t t' : Transcript} {plain sealed : Bytes}
    (h : t.decryptAndHash sealed = .ok (plain, t')) :
    t'.temp = t.temp.advance ∧ t'.chainingKey = t.chainingKey := by
  obtain ⟨⟨_, temp⟩, hdecrypt, heq⟩ := bind_eq_ok.1 h
  obtain ⟨-, rfl⟩ := Prod.mk.inj (Except.ok.inj heq)
  refine ⟨?_, rfl⟩
  unfold TempKey.decrypt at hdecrypt
  split at hdecrypt
  · cases hdecrypt
  · split at hdecrypt
    · cases hdecrypt
    · exact (Prod.mk.inj (Except.ok.inj hdecrypt)).2.symm

/-- The answer, and the transcript after it. -/
def perform (t : Transcript) : Op → Except Error (Bytes × Transcript)
  | .mixHash data => .ok ([], t.mixHash data)
  | .mixKey material => .ok ([], t.mixKey material)
  | .encrypt plain => t.encryptAndHash plain
  | .decrypt sealed => t.decryptAndHash sealed

end Transcript

open Transcript (Op)

/-- A use of a transcript, by a party that may go by each answer. -/
inductive Program (α : Type)
  | done (result : Except Error α)
  | ask (op : Op) (next : Bytes → Program α)

/-- What the party gets, and the transcript after it. -/
def Program.run {α : Type} : Program α → Transcript → Except Error (α × Transcript)
  | done result, t => result.map fun a => (a, t)
  | ask op next, t => do
    let (answer, t) ← t.perform op
    (next answer).run t

/-! ## Ledgers -/

structure Ledger where
  transcript : Transcript
  /-- What was mixed in for each key. -/
  mixed : List Bytes
  sealings : List Sealing
  /-- Each counter value to which one was added. -/
  spent : List UInt64

namespace Ledger

def start (t : Transcript) : Ledger := ⟨t, [], [], []⟩

/-- Nothing is sealed without a key. -/
def sealedBy (l : Ledger) : Op → List Sealing
  | .encrypt plain =>
    l.transcript.temp.key.toList.map fun key =>
      ⟨.temporary l.mixed.length, key, l.transcript.temp.counter, l.transcript.hash.val, plain⟩
  | .mixHash _ | .mixKey _ | .decrypt _ => []

/-- The books after something that was asked has been done. -/
def book (l : Ledger) (op : Op) (t : Transcript) : Ledger :=
  match op with
  | .mixHash _ => { l with transcript := t }
  | .mixKey material => { l with transcript := t, mixed := l.mixed ++ [material] }
  | .encrypt _ | .decrypt _ =>
    { l with
      transcript := t, sealings := l.sealings ++ l.sealedBy op
      spent := l.spent ++ [l.transcript.temp.counter] }

/-- The ledger at the end of a program, or where it fails. -/
def record {α : Type} (l : Ledger) : Program α → Ledger
  | .done _ => l
  | .ask op next =>
    match l.transcript.perform op with
    | .error _ => l
    | .ok (answer, t) => (l.book op t).record (next answer)

/-- No counter that was used up was the last there is. -/
def Roomy (l : Ledger) : Prop := ∀ counter ∈ l.spent, counter.toNat + 1 < UInt64.size

/-- The books are in order: keys are what their names say, and places in sequence. -/
structure Sound (origin : Digest) (l : Ledger) : Prop where
  chained : l.transcript.chainingKey = chain origin l.mixed
  keyed : l.transcript.temp.key = temporaryKey origin l.mixed l.mixed.length
  named : ∀ s ∈ l.sealings, ∃ number ≤ l.mixed.length,
    s.name = .temporary number ∧ temporaryKey origin l.mixed number = some s.key
  ordered : l.Roomy → l.sealings.Pairwise Sealing.Before
  /-- The next place is behind all of these. -/
  below : l.Roomy → ∀ s ∈ l.sealings, s.name.index < l.mixed.length ∨
    s.name.index = l.mixed.length ∧ s.counter < l.transcript.temp.counter

theorem lt_add_one_of_roomy {counter : UInt64} (h : counter.toNat + 1 < UInt64.size) :
    counter < counter + 1 := by
  rw [UInt64.lt_iff_toNat_lt, toNat_add_one h]
  exact Nat.lt_succ_self _

variable {origin : Digest} {l : Ledger} {t : Transcript} {answer : Bytes}

theorem sound_mixKey (h : l.Sound origin) (material : Bytes) :
    (l.book (.mixKey material) (l.transcript.mixKey material)).Sound origin where
  chained := by
    rw [book, chain_snoc, ← h.chained]
    rfl
  keyed := by
    rw [book, temporaryKey_last, ← h.chained]
    rfl
  named := by
    intro s hs
    obtain ⟨number, hle, hname, hkey⟩ := h.named s hs
    refine ⟨number, ?_, hname, (temporaryKey_append hle [material]).trans hkey⟩
    simp only [book, List.length_append]
    omega
  ordered := h.ordered
  below := by
    intro _ s hs
    obtain ⟨number, hle, hname, -⟩ := h.named s hs
    refine .inl ?_
    simp only [hname, KeyName.index, book, List.length_append, List.length_singleton]
    omega

theorem sealedBy_cases (l : Ledger) (op : Op) :
    l.sealedBy op = [] ∨ ∃ s, l.sealedBy op = [s] ∧ s.name = .temporary l.mixed.length ∧
      l.transcript.temp.key = some s.key ∧ s.counter = l.transcript.temp.counter := by
  cases op with
  | encrypt plain =>
      cases hkey : l.transcript.temp.key with
      | none => exact .inl (by simp [sealedBy, hkey])
      | some key => exact .inr ⟨_, by simp [sealedBy, hkey]; rfl, rfl, rfl, rfl⟩
  | mixHash | mixKey | decrypt => exact .inl rfl

/-- One use of the key in force, to seal or to open. -/
theorem sound_use (h : l.Sound origin) (op : Op) (htemp : t.temp = l.transcript.temp.advance)
    (hchaining : t.chainingKey = l.transcript.chainingKey) :
    Sound origin
      { l with
        transcript := t, sealings := l.sealings ++ l.sealedBy op
        spent := l.spent ++ [l.transcript.temp.counter] } := by
  have hroomy : (∀ counter ∈ l.spent ++ [l.transcript.temp.counter],
      counter.toNat + 1 < UInt64.size) →
      l.Roomy ∧ l.transcript.temp.counter < t.temp.counter := by
    intro hspent
    refine ⟨fun counter hcounter => hspent counter (List.mem_append_left _ hcounter), ?_⟩
    rw [htemp]
    exact lt_add_one_of_roomy (hspent _ (List.mem_append_right _ (List.mem_singleton_self _)))
  refine ⟨hchaining.trans h.chained, ?_, ?_, ?_, ?_⟩
  · show t.temp.key = _
    rw [htemp]
    exact h.keyed
  · intro s hs
    rcases List.mem_append.1 hs with hs | hs
    · exact h.named s hs
    · rcases l.sealedBy_cases op with hnil | ⟨s', heq, hname, hkey, -⟩
      · rw [hnil] at hs
        cases hs
      · rw [heq, List.mem_singleton] at hs
        subst hs
        exact ⟨_, Nat.le_refl _, hname, h.keyed.symm.trans hkey⟩
  · intro hspent
    have hbelow := h.below (hroomy hspent).1
    have hordered := h.ordered (hroomy hspent).1
    rcases l.sealedBy_cases op with hnil | ⟨s', heq, hname, -, hcounter⟩
    · rw [hnil, List.append_nil]
      exact hordered
    · rw [heq]
      refine List.pairwise_append.2 ⟨hordered, List.pairwise_singleton _ _, ?_⟩
      intro s hs s'' hs''
      obtain rfl := List.mem_singleton.1 hs''
      rw [Sealing.Before, hname, hcounter]
      exact hbelow s hs
  · intro hspent s hs
    obtain ⟨hold, hlt⟩ := hroomy hspent
    rcases List.mem_append.1 hs with hs | hs
    · exact (h.below hold s hs).imp_right (And.imp_right fun hs => UInt64.lt_trans hs hlt)
    · rcases l.sealedBy_cases op with hnil | ⟨s', heq, hname, -, hcounter⟩
      · rw [hnil] at hs
        cases hs
      · rw [heq, List.mem_singleton] at hs
        subst hs
        rw [hname, hcounter]
        exact .inr ⟨rfl, hlt⟩

theorem sound_book (h : l.Sound origin) {op : Op}
    (hperform : l.transcript.perform op = .ok (answer, t)) : (l.book op t).Sound origin := by
  cases op with
  | mixHash data =>
      obtain ⟨-, rfl⟩ := Prod.mk.inj (Except.ok.inj hperform)
      exact ⟨h.chained, h.keyed, h.named, h.ordered, h.below⟩
  | mixKey material =>
      obtain ⟨-, rfl⟩ := Prod.mk.inj (Except.ok.inj hperform)
      exact sound_mixKey h material
  | encrypt plain =>
      obtain ⟨htemp, hchaining⟩ := Transcript.temp_of_encryptAndHash hperform
      exact sound_use h (.encrypt plain) htemp hchaining
  | decrypt sealed =>
      obtain ⟨htemp, hchaining⟩ := Transcript.temp_of_decryptAndHash hperform
      exact sound_use h (.decrypt sealed) htemp hchaining

/-- Whatever a program asks. -/
theorem sound_record {α : Type} (h : l.Sound origin) (p : Program α) :
    (l.record p).Sound origin := by
  induction p generalizing l with
  | done => exact h
  | ask op next ih =>
      rw [record]
      split
      · exact h
      · rename_i answer t hperform
        exact ih answer (sound_book h hperform)

/-- The ledger follows the transcript. -/
theorem transcript_record {α : Type} {p : Program α} {a : α}
    (hrun : p.run l.transcript = .ok (a, t)) : (l.record p).transcript = t := by
  induction p generalizing l with
  | done result =>
      cases result with
      | error => cases hrun
      | ok => exact (Prod.mk.inj (Except.ok.inj hrun)).2
  | ask op next ih =>
      obtain ⟨⟨answer, t'⟩, hperform, hrun⟩ := bind_eq_ok.1 hrun
      have hbook : (l.book op t').transcript = t' := by cases op <;> rfl
      simp only [record, hperform]
      exact ih answer (by rwa [hbook])

end Ledger

end Bolt8
