import Bolt8.Key

/-!
# Drawing a secret key

Randomness is an endless stream of bytes. A draw takes 32 of them; blocks that
are no secret key are thrown away and the next ones taken. On a stream that
holds a key at all this ends, with the first block that is one.
-/

namespace Bolt8

/-- An endless source of bytes. -/
abbrev ByteStream := Nat → UInt8

namespace ByteStream

def drop (n : Nat) (s : ByteStream) : ByteStream := fun i => s (n + i)

/-- Block number `j` of 32 bytes. -/
def block (s : ByteStream) (j : Nat) : FixedBytes 32 :=
  ⟨List.ofFn fun i : Fin 32 => s (32 * j + i), by simp⟩

/-- The secret key that block `j` is, if it is one. -/
def key? (s : ByteStream) (j : Nat) : Option SecretKey := SecretKey.ofBytes? (s.block j)

/-- Some block of the stream is a secret key. -/
def Productive (s : ByteStream) : Prop := ∃ j, (s.key? j).isSome

/-- The given bytes, then the byte 1 for ever. -/
def ofBytes (bs : Bytes) : ByteStream := fun i => bs.getD i 1

end ByteStream

/-- A drawn key pair, the number of blocks it took, and the stream after them. -/
structure Draw where
  pair : KeyPair
  blocks : Nat
  rest : ByteStream

namespace Draw

/-- The search from block `i` on, when none before it is a key. -/
def firstFrom (s : ByteStream) (h : s.Productive) (i : Nat)
    (before : ∀ k < i, (s.key? k).isSome = false) : Draw :=
  match found : s.key? i with
  | some k => ⟨.ofSecret k, i + 1, s.drop (32 * (i + 1))⟩
  | none =>
    firstFrom s h (i + 1) fun k hk => by
      rcases Nat.lt_succ_iff_lt_or_eq.1 hk with hk | rfl
      · exact before k hk
      · simp [found]
termination_by h.choose - i
decreasing_by
  have key := h.choose_spec
  have : i ≤ h.choose := Nat.le_of_not_lt fun lt => by simp [before _ lt] at key
  have : i ≠ h.choose := fun eq => by simp [← eq, found] at key
  omega

/-- The first key of a stream. -/
def first (s : ByteStream) (h : s.Productive) : Draw :=
  firstFrom s h 0 (by simp)

end Draw

/-! ## Scripted streams -/

namespace ByteStream

/-- Past the given bytes every block is the same key. -/
theorem key?_ofBytes_past (bs : Bytes) (j : Nat) (h : bs.length ≤ 32 * j) :
    ((ofBytes bs).key? j).isSome := by
  have ones : (ofBytes bs).block j = ⟨List.replicate 32 1, by simp⟩ := by
    refine Subtype.ext (List.ext_getElem (by simp [block]) fun i _ _ => ?_)
    simp only [block, ofBytes, List.getElem_ofFn, List.getElem_replicate,
      List.getD_eq_getElem?_getD]
    rw [List.getElem?_eq_none (by omega)]
    rfl
  rw [key?, ones]
  decide +kernel

theorem productive_ofBytes (bs : Bytes) : (ofBytes bs).Productive :=
  ⟨bs.length, key?_ofBytes_past bs _ (by omega)⟩

end ByteStream

end Bolt8
