import Bolt8.Bytes

/-!
# The ChaCha20 key stream

A key and a 12-byte nonce fix an endless stream of 64-byte blocks, numbered by
a 32-bit block counter. Each block is ten double rounds over a matrix of four
rows of words, added to the matrix itself.
-/

namespace Bolt8.ChaCha20

/-! ## Rows -/

structure Row where
  w0 : UInt32
  w1 : UInt32
  w2 : UInt32
  w3 : UInt32
  deriving DecidableEq

def rotateLeft (w n : UInt32) : UInt32 := w <<< n ||| w >>> (32 - n)

namespace Row

/-- The first four words, or zeros past the end. -/
def ofWords (ws : List UInt32) : Row := ⟨ws.getD 0 0, ws.getD 1 0, ws.getD 2 0, ws.getD 3 0⟩

def bytes (r : Row) : Bytes := [r.w0, r.w1, r.w2, r.w3].flatMap Bytes.ofWordLE

def add (r s : Row) : Row := ⟨r.w0 + s.w0, r.w1 + s.w1, r.w2 + s.w2, r.w3 + s.w3⟩

/-- Exclusive or, word by word, each word then rotated by `n` bits. -/
def mix (r s : Row) (n : UInt32) : Row :=
  ⟨rotateLeft (r.w0 ^^^ s.w0) n, rotateLeft (r.w1 ^^^ s.w1) n,
   rotateLeft (r.w2 ^^^ s.w2) n, rotateLeft (r.w3 ^^^ s.w3) n⟩

/-- One place to the left. -/
def turn (r : Row) : Row := ⟨r.w1, r.w2, r.w3, r.w0⟩

end Row

/-! ## Rounds -/

structure Matrix where
  a : Row
  b : Row
  c : Row
  d : Row
  deriving DecidableEq

namespace Matrix

/-- Half of the quarter round, on all four columns at once. -/
def halfRound (m : Matrix) (n k : UInt32) : Matrix :=
  let a := m.a.add m.b
  let d := m.d.mix a n
  let c := m.c.add d
  ⟨a, m.b.mix c k, c, d⟩

def round (m : Matrix) : Matrix := (m.halfRound 16 12).halfRound 8 7

/-- A round on the columns, then one on the diagonals, brought into columns and back. -/
def doubleRound (m : Matrix) : Matrix :=
  let m := m.round
  let m := round ⟨m.a, m.b.turn, m.c.turn.turn, m.d.turn.turn.turn⟩
  ⟨m.a, m.b.turn.turn.turn, m.c.turn.turn, m.d.turn⟩

end Matrix

/-! ## Blocks -/

/-- The text "expand 32-byte k" as four words. -/
def constants : Row := ⟨0x61707865, 0x3320646e, 0x79622d32, 0x6b206574⟩

/-- Constants, key, block counter 0, nonce. -/
def initial (key : FixedBytes 32) (nonce : FixedBytes 12) : Matrix :=
  let words := Bytes.wordsLE key.val
  ⟨constants, .ofWords words, .ofWords (words.drop 4),
   .ofWords (0 :: Bytes.wordsLE nonce.val)⟩

/-- The 64 bytes of block number `counter`. -/
def block (m : Matrix) (counter : UInt32) : Bytes :=
  let m := { m with d := { m.d with w0 := counter } }
  let s := Nat.repeat Matrix.doubleRound 10 m
  (s.a.add m.a).bytes ++ (s.b.add m.b).bytes ++ (s.c.add m.c).bytes ++ (s.d.add m.d).bytes

/-- Block 0, of which the authenticator's key is the first half. -/
def firstBlock (key : FixedBytes 32) (nonce : FixedBytes 12) : Bytes :=
  block (initial key nonce) 0

/-- Whole blocks of key stream from block 1 on, at least `length` bytes. -/
def keyStream (key : FixedBytes 32) (nonce : FixedBytes 12) (length : Nat) : Bytes :=
  let m := initial key nonce
  (List.range ((length + 63) / 64)).flatMap fun i => block m (UInt32.ofNat (i + 1))

end Bolt8.ChaCha20
