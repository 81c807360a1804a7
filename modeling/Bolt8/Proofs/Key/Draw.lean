import Bolt8.Key.Draw
import Bolt8.Proofs.Bytes
import Mathlib.Data.Nat.Find

/-!
# The key that is drawn

A block of the stream is a key when its number is in range, and that key is
written as the block again. `Yields` is the loop of draws with nothing known of
the stream ahead; the search is what it comes to. So the first block in range
decides alone, and behind it the stream has not been touched (`draws_first_key`).
-/

namespace Bolt8

/-! ## A block and its key -/

/-- The number that the bytes write is a secret key. -/
def FixedBytes.InRange (bs : FixedBytes 32) : Prop :=
  0 < Bytes.toNatBE bs.val ∧ Bytes.toNatBE bs.val < Curve.order

instance (bs : FixedBytes 32) : Decidable bs.InRange :=
  inferInstanceAs (Decidable (_ ∧ _))

namespace SecretKey

variable {bs : FixedBytes 32} {k : SecretKey}

theorem toBytes_of_ofBytes? (h : ofBytes? bs = some k) : k.toBytes = bs := by
  obtain ⟨bytes, hsize⟩ := bs
  unfold ofBytes? at h
  split at h
  · obtain rfl := Option.some.inj h
    have hbytes := Bytes.ofNatBE_toNatBE bytes
    rw [hsize] at hbytes
    exact Subtype.ext hbytes
  · cases h

theorem isSome_ofBytes?_iff : (ofBytes? bs).isSome ↔ bs.InRange := by
  unfold ofBytes? FixedBytes.InRange
  split
  · rename_i hrange
    exact iff_of_true rfl hrange
  · rename_i hrange
    exact iff_of_false Bool.false_ne_true hrange

theorem ofBytes?_eq_none_iff : ofBytes? bs = none ↔ ¬ bs.InRange := by
  rw [← isSome_ofBytes?_iff, Option.not_isSome_iff_eq_none]

end SecretKey

/-! ## The loop of draws -/

namespace ByteStream

variable {s rest : ByteStream} {k : SecretKey} {i j n : ℕ}

theorem drop_drop (s : ByteStream) (m n : ℕ) : (s.drop m).drop n = s.drop (m + n) :=
  funext fun i => congrArg s (Nat.add_assoc m n i).symm

theorem block_drop (s : ByteStream) (n j : ℕ) : (s.drop (32 * n)).block j = s.block (n + j) := by
  have hbyte : ∀ i : Fin 32, s (32 * n + (32 * j + i)) = s (32 * (n + j) + i) := by
    intro i
    rw [Nat.mul_add, Nat.add_assoc]
  exact Subtype.ext (congrArg List.ofFn (funext hbyte))

/-- Draws from the stream until a block is a key: the key, the number of draws,
and the stream that is left. -/
inductive Yields : ByteStream → SecretKey → ℕ → ByteStream → Prop
  | taken {s : ByteStream} {k : SecretKey} :
      SecretKey.ofBytes? (s.block 0) = some k → Yields s k 1 (s.drop 32)
  | redrawn {s : ByteStream} {k : SecretKey} {n : ℕ} {rest : ByteStream} :
      SecretKey.ofBytes? (s.block 0) = none → Yields (s.drop 32) k n rest →
      Yields s k (n + 1) rest

theorem exists_least_key (h : (s.key? j).isSome) :
    ∃ i ≤ j, ∃ k, s.key? i = some k ∧ ∀ m < i, s.key? m = none := by
  have hsome : ∃ i, (s.key? i).isSome := ⟨j, h⟩
  obtain ⟨k, hkey⟩ := Option.isSome_iff_exists.1 (Nat.find_spec hsome)
  refine ⟨Nat.find hsome, Nat.find_min' hsome h, k, hkey, fun m hm => ?_⟩
  exact Option.not_isSome_iff_eq_none.1 (Nat.find_min hsome hm)

/-- A block that is no key costs a draw, and leaves nothing behind. -/
theorem yields_of_key (hkey : s.key? j = some k) (hbefore : ∀ i < j, s.key? i = none) :
    s.Yields k (j + 1) (s.drop (32 * (j + 1))) := by
  induction j generalizing s with
  | zero => exact .taken hkey
  | succ j ih =>
      have hblock : ∀ i, (s.drop 32).key? i = s.key? (i + 1) := by
        intro i
        rw [key?, key?, Nat.add_comm i 1]
        exact congrArg SecretKey.ofBytes? (block_drop s 1 i)
      have hrest := ih (s := s.drop 32) (by rw [hblock, hkey]) fun i hi => by
        rw [hblock, hbefore (i + 1) (Nat.succ_lt_succ hi)]
      rw [drop_drop, Nat.add_comm 32, ← Nat.mul_succ] at hrest
      exact .redrawn (hbefore 0 (Nat.succ_pos j)) hrest

theorem Yields.unique {k' : SecretKey} {n' : ℕ} {rest' : ByteStream} (h : s.Yields k n rest)
    (h' : s.Yields k' n' rest') : k' = k ∧ n' = n ∧ rest' = rest := by
  induction h generalizing n' with
  | taken hkey =>
      cases h' with
      | taken hkey' => exact ⟨Option.some.inj (hkey'.symm.trans hkey), rfl, rfl⟩
      | redrawn hnone => cases hkey.symm.trans hnone
  | redrawn hnone _ ih =>
      cases h' with
      | taken hkey' => cases hkey'.symm.trans hnone
      | redrawn _ hrest' =>
          obtain ⟨rfl, rfl, rfl⟩ := ih hrest'
          exact ⟨rfl, rfl, rfl⟩

end ByteStream

/-! ## The search -/

namespace Draw

open ByteStream

variable {s : ByteStream} {k : SecretKey} {i j : ℕ}

theorem firstFrom_eq (h : s.Productive) (hkey : s.key? j = some k)
    (hleast : ∀ m < j, s.key? m = none) (hle : i ≤ j)
    (before : ∀ m < i, (s.key? m).isSome = false) :
    firstFrom s h i before = ⟨.ofSecret k, j + 1, s.drop (32 * (j + 1))⟩ := by
  -- the search goes up, so the induction is on how far it has still to go
  induction hleft : j - i generalizing i with
  | zero =>
      obtain rfl : i = j := by omega
      rw [firstFrom]
      split
      · rename_i k' hfound
        obtain rfl := Option.some.inj (hkey.symm.trans hfound)
        rfl
      · rename_i hnone
        cases hkey.symm.trans hnone
  | succ left ih =>
      rw [firstFrom]
      split
      · rename_i k' hfound
        cases hfound.symm.trans (hleast i (by omega))
      · exact ih (by omega) _ (by omega)

theorem first_eq (h : s.Productive) (hkey : s.key? j = some k)
    (hleast : ∀ m < j, s.key? m = none) :
    first s h = ⟨.ofSecret k, j + 1, s.drop (32 * (j + 1))⟩ :=
  firstFrom_eq h hkey hleast (Nat.zero_le j) _

/-- The loop ends with what the search finds, and with nothing else. -/
theorem yields_iff (h : s.Productive) (k : SecretKey) (n : ℕ) (rest : ByteStream) :
    s.Yields k n rest ↔
      k = (first s h).pair.secret ∧ n = (first s h).blocks ∧ rest = (first s h).rest := by
  obtain ⟨i, k', hkey, hleast⟩ : ∃ i k', s.key? i = some k' ∧ ∀ m < i, s.key? m = none := by
    obtain ⟨j, hj⟩ := h
    obtain ⟨i, -, hfirst⟩ := exists_least_key hj
    exact ⟨i, hfirst⟩
  have hyields := yields_of_key hkey hleast
  rw [first_eq h hkey hleast]
  constructor
  · exact hyields.unique
  · rintro ⟨rfl, rfl, rfl⟩
    exact hyields

theorem blocks_first_le (h : s.Productive) (hj : (s.key? j).isSome) :
    (first s h).blocks ≤ j + 1 := by
  obtain ⟨i, hle, k, hkey, hleast⟩ := exists_least_key hj
  rw [first_eq h hkey hleast]
  exact Nat.succ_le_succ hle

/-- The first block in range is the key, written back as it was drawn; so many
draws are made, and the next ones begin behind it. On the given bytes with the
byte 1 for ever after them this always ends, at the latest with the first block
that lies behind the given bytes. -/
theorem draws_first_key :
    (∀ (s : ByteStream) (j : ℕ), (s.block j).InRange → (∀ i < j, ¬ (s.block i).InRange) →
      ∃ h : s.Productive,
        let d := first s h
        (∀ k n rest, s.Yields k n rest ↔ k = d.pair.secret ∧ n = d.blocks ∧ rest = d.rest) ∧
        d.blocks = j + 1 ∧
        KeyPair.ofBytes? (s.block j) = some d.pair ∧
        d.pair.secret.toBytes = s.block j ∧
        (∀ i, d.rest i = s (32 * (j + 1) + i)) ∧
        ∀ i, d.rest.block i = s.block (j + 1 + i)) ∧
    ∀ script : Bytes,
      let d := first (.ofBytes script) (productive_ofBytes script)
      (∀ k n rest, (ofBytes script).Yields k n rest ↔
        k = d.pair.secret ∧ n = d.blocks ∧ rest = d.rest) ∧
      d.blocks ≤ (script.length + 31) / 32 + 1 := by
  constructor
  · intro s j hrange hleast
    have hsome : (s.key? j).isSome := SecretKey.isSome_ofBytes?_iff.2 hrange
    have hnone : ∀ i < j, s.key? i = none := fun i hi =>
      SecretKey.ofBytes?_eq_none_iff.2 (hleast i hi)
    obtain ⟨k, hkey⟩ := Option.isSome_iff_exists.1 hsome
    refine ⟨⟨j, hsome⟩, ?_⟩
    intro d
    have hd : d = ⟨.ofSecret k, j + 1, s.drop (32 * (j + 1))⟩ := first_eq _ hkey hnone
    refine ⟨yields_iff _, ?_⟩
    rw [hd]
    refine ⟨rfl, ?_, SecretKey.toBytes_of_ofBytes? hkey, fun i => rfl, block_drop s (j + 1)⟩
    exact congrArg (Option.map KeyPair.ofSecret) hkey
  · intro script d
    refine ⟨yields_iff _, blocks_first_le _ ?_⟩
    exact key?_ofBytes_past script _ (by omega)

/-- A block of zeros, then a key whose first byte alone is given. -/
theorem draws_second_block :
    let s : ByteStream := .ofBytes (List.replicate 32 0 ++ [2])
    (s.block 1).InRange ∧ (∀ i < 1, ¬ (s.block i).InRange) ∧
      ∃ h : s.Productive, (first s h).blocks = 2 ∧
        (first s h).pair.secret.toBytes.val = 2 :: List.replicate 31 1 := by
  intro s
  have hrange : (s.block 1).InRange := by decide
  have hleast : ∀ i < 1, ¬ (s.block i).InRange := by decide
  have hblock : (s.block 1).val = 2 :: List.replicate 31 1 := by decide
  obtain ⟨h, -, hblocks, -, hbytes, -, -⟩ := draws_first_key.1 s 1 hrange hleast
  exact ⟨hrange, hleast, h, hblocks, by rw [hbytes, hblock]⟩

end Draw

end Bolt8
