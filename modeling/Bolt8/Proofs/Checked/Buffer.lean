import Bolt8.Bytes
import Bolt8.Error

/-!
# Buffers and words with their limits

A machine reads and writes its buffers inside their bounds, and its sums stay
below 2^64, or it stops. `Checked` is a computation that may stop so, and
`Attempt` one that may besides end with an error of its own. Each operation
here comes with the condition under which it does not stop.
-/

namespace Bolt8

/-- Why a machine stops. -/
inductive Fault
  | outOfBounds
  /-- A copy between buffers of different sizes. -/
  | lengthMismatch
  | overflow
  /-- A branch that is said never to be taken. -/
  | unreachable
  deriving DecidableEq

abbrev Checked := Except Fault

abbrev Attempt := ExceptT Error Checked

/-- One that does not stop. -/
def Attempt.of {α : Type} (x : Except Error α) : Attempt α := ExceptT.mk (.ok x)

section

variable {α β : Type}

@[simp] theorem Checked.ok_bind {ε : Type} (a : α) (f : α → Except ε β) :
    (Except.ok a >>= f) = f a := rfl

@[simp] theorem Attempt.lift_bind (a : α) (f : α → Attempt β) :
    ((liftM (Except.ok a : Checked α) : Attempt α) >>= f) = f a := rfl

@[simp] theorem Attempt.of_ok_bind (a : α) (f : α → Attempt β) : (of (.ok a) >>= f) = f a := rfl

end

namespace Checked

/-! ## Sums -/

/-- A sum of lengths. -/
def add (m n : Nat) : Checked Nat :=
  if m + n < UInt64.size then .ok (m + n) else .error .overflow

def sub (m n : Nat) : Checked Nat :=
  if n ≤ m then .ok (m - n) else .error .overflow

/-- A sum of counters. -/
def addWord (a b : UInt64) : Checked UInt64 :=
  if a.toNat + b.toNat < UInt64.size then .ok (a + b) else .error .overflow

theorem add_eq {m n : Nat} (h : m + n < UInt64.size) : add m n = .ok (m + n) := if_pos h

theorem sub_eq {m n : Nat} (h : n ≤ m) : sub m n = .ok (m - n) := if_pos h

theorem addWord_eq {a b : UInt64} (h : a.toNat + b.toNat < UInt64.size) :
    addWord a b = .ok (a + b) := if_pos h

theorem addWord_one {a : UInt64} (h : a.toNat + 1 < UInt64.size) : addWord a 1 = .ok (a + 1) :=
  addWord_eq h

/-! ## Buffers -/

def zeros (n : Nat) : Bytes := List.replicate n 0

theorem length_zeros (n : Nat) : (zeros n).length = n := List.length_replicate

theorem zeros_add (m n : Nat) : zeros (m + n) = zeros m ++ zeros n :=
  (List.replicate_append_replicate).symm

/-- The byte at this index. -/
def get (bs : Bytes) (i : Nat) : Checked UInt8 :=
  match bs[i]? with
  | some b => .ok b
  | none => .error .outOfBounds

/-- The bytes from `start` up to `stop`. -/
def slice (bs : Bytes) (start stop : Nat) : Checked Bytes :=
  if start ≤ stop ∧ stop ≤ bs.length then .ok ((bs.take stop).drop start)
  else .error .outOfBounds

def splitAt (bs : Bytes) (i : Nat) : Checked (Bytes × Bytes) :=
  if i ≤ bs.length then .ok (bs.take i, bs.drop i) else .error .outOfBounds

/-- Drops the bytes up to `stop`. -/
def drain (bs : Bytes) (stop : Nat) : Checked Bytes :=
  if stop ≤ bs.length then .ok (bs.drop stop) else .error .outOfBounds

/-- Writes one byte. -/
def set (bs : Bytes) (i : Nat) (b : UInt8) : Checked Bytes :=
  if i < bs.length then .ok (bs.set i b) else .error .outOfBounds

/-- Writes `source` over the bytes from `start` up to `stop`. -/
def copy (bs : Bytes) (start stop : Nat) (source : Bytes) : Checked Bytes := do
  let target ← slice bs start stop
  if target.length = source.length then return bs.take start ++ source ++ bs.drop stop
  else throw .lengthMismatch

/-- The bytes as a string of this size. -/
def fixed (n : Nat) (bs : Bytes) : Checked (FixedBytes n) :=
  if h : bs.length = n then .ok ⟨bs, h⟩ else .error .lengthMismatch

theorem slice_eq {bs : Bytes} {start stop : Nat} (h : start ≤ stop) (h' : stop ≤ bs.length) :
    slice bs start stop = .ok ((bs.take stop).drop start) := if_pos ⟨h, h'⟩

/-- A piece by the sizes of what stands before it and of itself. -/
theorem slice_append {p q : Bytes} {start stop : Nat} (hstart : p.length = start)
    (hstop : start + q.length = stop) (r : Bytes) : slice (p ++ q ++ r) start stop = .ok q := by
  subst hstart hstop
  rw [slice_eq (Nat.le_add_right _ _) (by simp), List.take_left' (by simp),
    List.drop_left]

theorem splitAt_eq {bs : Bytes} {i : Nat} (h : i ≤ bs.length) :
    splitAt bs i = .ok (bs.take i, bs.drop i) := if_pos h

theorem drain_eq {bs : Bytes} {stop : Nat} (h : stop ≤ bs.length) :
    drain bs stop = .ok (bs.drop stop) := if_pos h

theorem fixed_eq {n : Nat} (bs : FixedBytes n) : fixed n bs.val = .ok bs := dif_pos bs.property

/-- Where a piece is replaced by one of the same size. -/
theorem copy_append {p q source : Bytes} {start stop : Nat} (hstart : p.length = start)
    (hstop : start + source.length = stop) (hsize : q.length = source.length) (r : Bytes) :
    copy (p ++ q ++ r) start stop source = .ok (p ++ source ++ r) := by
  have hpiece := slice_append hstart (hsize ▸ hstop) r
  have htake : (p ++ q ++ r).take start = p := by
    rw [List.append_assoc, List.take_left' hstart]
  have hdrop : (p ++ q ++ r).drop stop = r := by
    rw [List.drop_left' (by rw [List.length_append, hstart, hsize, hstop])]
  rw [copy, hpiece]
  show (if q.length = source.length then _ else _) = _
  rw [if_pos hsize, htake, hdrop]
  rfl

/-- A buffer filled as a whole. -/
theorem copy_all {bs source : Bytes} {n : Nat} (hbs : bs.length = n) (hsource : source.length = n) :
    copy bs 0 n source = .ok source := by
  have h := copy_append (p := []) rfl ((Nat.zero_add _).trans hsource) (hbs.trans hsource.symm) []
  rwa [List.append_nil, List.append_nil] at h

end Checked

end Bolt8
