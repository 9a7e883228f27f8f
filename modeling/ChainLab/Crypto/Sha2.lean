import ChainLab.Bytes

/-!
# The SHA-2 hash functions

SHA-256 and SHA-512 differ in their word and in a few rotation counts, so the
compression function is written once over a class of words. The constants are
the leading fraction bits of roots of the first primes.
-/

namespace ChainLab.Sha2

/-- The largest `r` below `2 ^ bits` with `r ^ k ≤ n`. -/
def floorRoot (k bits n : Nat) : Nat :=
  let raise (i r : Nat) : Nat :=
    let next := r + Nat.pow 2 i
    if Nat.pow next k ≤ n then next else r
  (List.range bits).foldr raise 0

def isPrime (n : Nat) : Bool := 2 ≤ n && (List.range n).all fun d => d < 2 || n % d != 0

/-- The first eighty primes. -/
def primes : List Nat := (List.range 410).filter isPrime

/-- The first 64 bits of the fraction of the `k`-th root of `n`. -/
def rootFraction (k n : Nat) : UInt64 := UInt64.ofNat (floorRoot k 72 (n * Nat.pow 2 (64 * k)))

def cubeRootFractions : List UInt64 := primes.map (rootFraction 3)

def squareRootFractions : List UInt64 := (primes.take 8).map (rootFraction 2)

/-- The word of one member of the family, with its round functions. -/
class Word (W : Type) extends Add W, XorOp W, AndOp W, Complement W where
  /-- Bytes in a word. -/
  size : Nat
  rounds : Nat
  /-- The leading bits of a 64-bit fraction. -/
  ofFraction : UInt64 → W
  ofNat : Nat → W
  toNat : W → Nat
  bigSigma0 : W → W
  bigSigma1 : W → W
  smallSigma0 : W → W
  smallSigma1 : W → W

section
variable {W : Type} [Word W]

/-- The eight working variables. -/
structure State (W : Type) where
  (a b c d e f g h : W)

@[specialize] def State.add (s t : State W) : State W :=
  ⟨s.a + t.a, s.b + t.b, s.c + t.c, s.d + t.d, s.e + t.e, s.f + t.f, s.g + t.g, s.h + t.h⟩

/-- One round; `w` is the scheduled word plus the round constant. -/
@[specialize] def State.round (s : State W) (w : W) : State W :=
  let choice := (s.e &&& s.f) ^^^ (~~~s.e &&& s.g)
  let majority := (s.a &&& s.b) ^^^ (s.a &&& s.c) ^^^ (s.b &&& s.c)
  let t1 := s.h + Word.bigSigma1 s.e + choice + w
  let t2 := Word.bigSigma0 s.a + majority
  ⟨t1 + t2, s.a, s.b, s.c, s.d + t1, s.e, s.f, s.g⟩

/-- The message schedule: sixteen words of the block, each later one from four before it. -/
@[specialize] def extend (words : Array W) : Nat → Array W
  | 0 => words
  | n + 1 =>
    let back (k : Nat) : W := words.getD (words.size - k) (Word.ofNat 0)
    let word := Word.smallSigma1 (back 2) + back 7 + Word.smallSigma0 (back 15) + back 16
    extend (words.push word) n

@[specialize] def compress (constants : List W) (s : State W) (block : Array W) : State W :=
  let schedule := extend block (Word.rounds W - 16)
  s.add ((schedule.toList.zipWith (· + ·) constants).foldl State.round s)

/-- Consecutive pieces of `n + 1` elements; a shorter rest is dropped. -/
def pieces {α : Type} (n : Nat) (xs : List α) : List (List α) :=
  if h : xs.length ≤ n then []
  else xs.take (n + 1) :: pieces n (xs.drop (n + 1))
termination_by xs.length
decreasing_by simp; omega

/-- The message, a one bit, zeros, and the bit length, filling whole blocks of `block` bytes. -/
def pad (block : Nat) (message : List UInt8) : List UInt8 :=
  let field := block / 8
  let used := message.length + 1 + field
  message ++ 0x80 :: List.replicate ((block - used % block) % block) 0 ++
    bigEndian field (8 * message.length)

/-- Round constants and starting variables of one member of the family. -/
structure Variant (W : Type) where
  constants : List W
  start : State W

def Variant.standard (W : Type) [Word W] : Variant W :=
  let word (i : Nat) : W := Word.ofFraction (squareRootFractions.getD i 0)
  { constants := (cubeRootFractions.take (Word.rounds W)).map Word.ofFraction
    start := ⟨word 0, word 1, word 2, word 3, word 4, word 5, word 6, word 7⟩ }

@[specialize] def Variant.digest (variant : Variant W) (message : List UInt8) : List UInt8 :=
  let size := Word.size W
  let words : List W :=
    (pieces (size - 1) (pad (16 * size) message)).map fun p => Word.ofNat (ofBigEndian p)
  let s := ((pieces 15 words).map List.toArray).foldl (compress variant.constants) variant.start
  [s.a, s.b, s.c, s.d, s.e, s.f, s.g, s.h].flatMap fun w => bigEndian size (Word.toNat w)

end

def rotate32 (x : UInt32) (n : UInt32) : UInt32 := (x >>> n) ||| (x <<< (32 - n))

def rotate64 (x : UInt64) (n : UInt64) : UInt64 := (x >>> n) ||| (x <<< (64 - n))

instance : Word UInt32 where
  size := 4
  rounds := 64
  ofFraction f := (f >>> 32).toUInt32
  ofNat := UInt32.ofNat
  toNat := UInt32.toNat
  bigSigma0 x := rotate32 x 2 ^^^ rotate32 x 13 ^^^ rotate32 x 22
  bigSigma1 x := rotate32 x 6 ^^^ rotate32 x 11 ^^^ rotate32 x 25
  smallSigma0 x := rotate32 x 7 ^^^ rotate32 x 18 ^^^ (x >>> 3)
  smallSigma1 x := rotate32 x 17 ^^^ rotate32 x 19 ^^^ (x >>> 10)

instance : Word UInt64 where
  size := 8
  rounds := 80
  ofFraction f := f
  ofNat := UInt64.ofNat
  toNat := UInt64.toNat
  bigSigma0 x := rotate64 x 28 ^^^ rotate64 x 34 ^^^ rotate64 x 39
  bigSigma1 x := rotate64 x 14 ^^^ rotate64 x 18 ^^^ rotate64 x 41
  smallSigma0 x := rotate64 x 1 ^^^ rotate64 x 8 ^^^ (x >>> 7)
  smallSigma1 x := rotate64 x 19 ^^^ rotate64 x 61 ^^^ (x >>> 6)

def variant256 : Variant UInt32 := .standard UInt32

def variant512 : Variant UInt64 := .standard UInt64

end ChainLab.Sha2

namespace ChainLab

def sha256 (message : List UInt8) : List UInt8 := Sha2.variant256.digest message

def sha512 (message : List UInt8) : List UInt8 := Sha2.variant512.digest message

end ChainLab
