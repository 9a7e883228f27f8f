/-!
# Byte strings

Fixed-width byte strings and the little-endian layout of numbers. A number laid
out in enough bytes is read back exactly.
-/

namespace ChainLab

/-- A byte string of length `n`. -/
abbrev Bytes (n : Nat) := Vector UInt8 n

namespace Bytes

def zero (n : Nat) : Bytes n := Vector.replicate n 0

/-- Only a list of exactly `n` bytes is a byte string of length `n`. -/
def ofList? (n : Nat) (bytes : List UInt8) : Option (Bytes n) :=
  if h : bytes.length = n then some ⟨bytes.toArray, by simpa using h⟩ else none

/-- The first `n` bytes of a list, filled up with zeros. -/
def fill (n : Nat) (bytes : List UInt8) : Bytes n :=
  let array := bytes.toArray
  Vector.ofFn fun i => array.getD i 0

theorem ofList?_toList {n : Nat} (b : Bytes n) : ofList? n b.toList = some b := by
  obtain ⟨bytes, rfl⟩ := b
  simp [ofList?, Vector.toList]

end Bytes

/-- The `width` low bytes of `value`, least significant first. -/
def littleEndian : (width value : Nat) → List UInt8
  | 0, _ => []
  | width + 1, value => UInt8.ofNat value :: littleEndian width (value / 256)

/-- The number whose little-endian layout is the given bytes. -/
def ofLittleEndian : List UInt8 → Nat
  | [] => 0
  | b :: rest => b.toNat + 256 * ofLittleEndian rest

@[simp] theorem length_littleEndian (width value : Nat) :
    (littleEndian width value).length = width := by
  induction width generalizing value with
  | zero => rfl
  | succ width ih => simp [littleEndian, ih]

theorem ofLittleEndian_littleEndian {width value : Nat} (h : value < Nat.pow 256 width) :
    ofLittleEndian (littleEndian width value) = value := by
  induction width generalizing value with
  | zero =>
    simp only [Nat.pow_eq, Nat.pow_zero, Nat.lt_one_iff] at h
    simp only [littleEndian, ofLittleEndian, h]
  | succ width ih =>
    have hq : value / 256 < Nat.pow 256 width := by
      rw [Nat.div_lt_iff_lt_mul (by decide)]
      rwa [Nat.pow_eq, Nat.pow_succ] at h
    simp only [littleEndian, ofLittleEndian, ih hq, UInt8.toNat_ofNat']
    omega

/-- A big-endian number: the bytes of the little-endian layout in reverse. -/
def ofBigEndian (bytes : List UInt8) : Nat := bytes.foldl (fun n b => 256 * n + b.toNat) 0

def bigEndian (width value : Nat) : List UInt8 := (littleEndian width value).reverse

end ChainLab
