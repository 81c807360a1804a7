import Bolt8.Bytes
import Mathlib.Algebra.Ring.Nat

/-!
# Numbers and key streams as bytes

A number that fits is read back from its bytes, bytes are written back from
their number, and a key stream long enough cancels itself.
-/

namespace Bolt8

/-- A counter that is not the last. -/
theorem toNat_add_one {a : UInt64} (h : a.toNat + 1 < UInt64.size) :
    (a + 1).toNat = a.toNat + 1 := by
  rw [UInt64.toNat_add]
  exact Nat.mod_eq_of_lt h

namespace Bytes

theorem toNatLE_ofNatLE (k n : ℕ) : toNatLE (ofNatLE k n) = n % 256 ^ k := by
  induction k generalizing n with
  | zero => simp [ofNatLE, toNatLE, Nat.mod_one]
  | succ k ih =>
      rw [ofNatLE, toNatLE, ih, Nat.pow_succ', Nat.mod_mul]
      simp

theorem toNatBE_append_singleton (bs : Bytes) (b : UInt8) :
    toNatBE (bs ++ [b]) = toNatBE bs * 256 + b.toNat := by
  simp [toNatBE]

theorem toNatBE_reverse (bs : Bytes) : toNatBE bs.reverse = toNatLE bs := by
  induction bs with
  | nil => rfl
  | cons b bs ih =>
      rw [List.reverse_cons, toNatBE_append_singleton, ih, toNatLE]
      omega

theorem toNatBE_ofNatBE {k n : ℕ} (h : n < 256 ^ k) : toNatBE (ofNatBE k n) = n := by
  rw [ofNatBE, toNatBE_reverse, toNatLE_ofNatLE, Nat.mod_eq_of_lt h]

theorem toNatLE_lt (bs : Bytes) : toNatLE bs < 256 ^ bs.length := by
  induction bs with
  | nil => simp [toNatLE]
  | cons b bs ih =>
      have hb : b.toNat < 256 := b.toNat_lt
      rw [toNatLE, List.length_cons, Nat.pow_succ']
      omega

theorem ofNatLE_toNatLE (bs : Bytes) : ofNatLE bs.length (toNatLE bs) = bs := by
  induction bs with
  | nil => rfl
  | cons b bs ih =>
      have hb : b.toNat < 256 := b.toNat_lt
      have hrest : (b.toNat + 256 * toNatLE bs) / 256 = toNatLE bs := by omega
      have hfirst : UInt8.ofNat (b.toNat + 256 * toNatLE bs) = b := by
        apply UInt8.toNat_inj.1
        rw [UInt8.toNat_ofNat']
        omega
      rw [List.length_cons, toNatLE, ofNatLE, hrest, hfirst, ih]

theorem toNatBE_lt (bs : Bytes) : toNatBE bs < 256 ^ bs.length := by
  have h := toNatLE_lt bs.reverse
  rwa [← toNatBE_reverse, List.reverse_reverse, List.length_reverse] at h

theorem ofNatBE_toNatBE (bs : Bytes) : ofNatBE bs.length (toNatBE bs) = bs := by
  have h := ofNatLE_toNatLE bs.reverse
  rw [← toNatBE_reverse, List.reverse_reverse, List.length_reverse] at h
  rw [ofNatBE, h, List.reverse_reverse]

theorem length_xor {bs key : Bytes} (h : bs.length ≤ key.length) :
    (xor bs key).length = bs.length := by
  simp [xor, h]

theorem xor_xor {bs key : Bytes} (h : bs.length ≤ key.length) : xor (xor bs key) key = bs := by
  induction bs generalizing key with
  | nil => rfl
  | cons b bs ih =>
      cases key with
      | nil => simp at h
      | cons k key =>
          simp only [xor, List.zipWith_cons_cons, List.cons.injEq] at ih ⊢
          refine ⟨?_, ih (by simpa using h)⟩
          rw [UInt8.xor_assoc, UInt8.xor_self, UInt8.xor_zero]

end Bytes

end Bolt8
