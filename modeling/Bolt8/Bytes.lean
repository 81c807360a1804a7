/-!
# Byte strings

Everything on the wire is a list of bytes. A string whose length is part of
what it is (a key, a digest, a tag) carries that length in its type. Numbers
are written big-endian in frames and scalars, little-endian inside the cipher.
-/

namespace Bolt8

abbrev Bytes := List UInt8

/-- Byte strings of length `n`. -/
abbrev FixedBytes (n : Nat) := { bs : Bytes // bs.length = n }

/-- The string itself, when it has length `n`. -/
def FixedBytes.ofBytes? (n : Nat) (bs : Bytes) : Option (FixedBytes n) :=
  if h : bs.length = n then some ⟨bs, h⟩ else none

/-- The first `n` bytes, when there are that many. -/
def FixedBytes.firstOf? (n : Nat) (bs : Bytes) : Option (FixedBytes n) :=
  if h : (bs.take n).length = n then some ⟨bs.take n, h⟩ else none

namespace Bytes

/-! ## Numbers -/

/-- The number written little-endian. -/
def toNatLE : Bytes → Nat
  | [] => 0
  | b :: bs => b.toNat + 256 * toNatLE bs

/-- The number written big-endian. -/
def toNatBE (bs : Bytes) : Nat :=
  bs.foldl (fun n b => n * 256 + b.toNat) 0

/-- The low `k` bytes of `n`, least significant first. -/
def ofNatLE : (k n : Nat) → Bytes
  | 0, _ => []
  | k + 1, n => UInt8.ofNat n :: ofNatLE k (n / 256)

/-- The low `k` bytes of `n`, most significant first. -/
def ofNatBE (k n : Nat) : Bytes := (ofNatLE k n).reverse

@[simp] theorem length_ofNatLE (k n : Nat) : (ofNatLE k n).length = k := by
  induction k generalizing n with
  | zero => rfl
  | succ k ih => simp [ofNatLE, ih]

@[simp] theorem length_ofNatBE (k n : Nat) : (ofNatBE k n).length = k := by
  simp [ofNatBE]

/-! ## Words -/

/-- The four bytes of a word, most significant first. -/
def ofWordBE (w : UInt32) : Bytes :=
  [(w >>> 24).toUInt8, (w >>> 16).toUInt8, (w >>> 8).toUInt8, w.toUInt8]

/-- The four bytes of a word, least significant first. -/
def ofWordLE (w : UInt32) : Bytes :=
  [w.toUInt8, (w >>> 8).toUInt8, (w >>> 16).toUInt8, (w >>> 24).toUInt8]

/-- The word whose bytes, most significant first, are these. -/
def word (a b c d : UInt8) : UInt32 :=
  a.toUInt32 <<< 24 ||| b.toUInt32 <<< 16 ||| c.toUInt32 <<< 8 ||| d.toUInt32

/-- The words read big-endian, four bytes each. -/
def wordsBE : Bytes → List UInt32
  | a :: b :: c :: d :: bs => word a b c d :: wordsBE bs
  | _ => []

/-- The words read little-endian, four bytes each. -/
def wordsLE : Bytes → List UInt32
  | a :: b :: c :: d :: bs => word d c b a :: wordsLE bs
  | _ => []

/-! ## Blocks -/

/-- The first `count` pieces of `size` bytes. -/
def pieces (size : Nat) : (count : Nat) → Bytes → List Bytes
  | 0, _ => []
  | count + 1, bs => bs.take size :: pieces size count (bs.drop size)

/-- The string cut into pieces of `size` bytes; the last may be shorter. -/
def blocks (size : Nat) (bs : Bytes) : List Bytes :=
  pieces size ((bs.length + size - 1) / size) bs

/-- Zero bytes up to the next multiple of 16. -/
def pad16 (bs : Bytes) : Bytes :=
  bs ++ List.replicate ((16 - bs.length % 16) % 16) 0

/-- The first string under the second, byte by byte, as far as both go. -/
def xor (bs key : Bytes) : Bytes := List.zipWith (· ^^^ ·) bs key

end Bytes

end Bolt8
