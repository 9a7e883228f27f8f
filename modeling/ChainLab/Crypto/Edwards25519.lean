import ChainLab.Bytes

/-!
# The twisted Edwards curve over the field of order 2^255 - 19

The curve is `-x² + y² = 1 + d x² y²`. Points are held in extended coordinates,
in which the addition law has no exceptional cases.
-/

namespace ChainLab.Edwards25519

def fieldOrder : Nat := Nat.pow 2 255 - 19

instance : @NeZero Nat Zero.ofOfNat0 fieldOrder := ⟨by decide⟩

abbrev Field := Fin fieldOrder

namespace Field

def ofNat (n : Nat) : Field := Fin.ofNat fieldOrder n

/-- Square and multiply over the bits of the exponent; `fuel` bounds their number. -/
def powBits : (fuel : Nat) → Field → Nat → Field
  | 0, _, _ => 1
  | fuel + 1, x, e =>
    if e = 0 then 1
    else
      let rest := powBits fuel (x * x) (e / 2)
      if e % 2 = 1 then x * rest else rest

def pow (x : Field) (e : Nat) : Field := powBits (e.log2 + 1) x e

/-- The inverse of a nonzero element, zero for zero. -/
def inverse (x : Field) : Field := x.pow (fieldOrder - 2)

/-- A square root of minus one. -/
def rootOfMinusOne : Field := (ofNat 2).pow ((fieldOrder - 1) / 4)

/-- The even one of the two square roots of `u / v`, if there are any. -/
def sqrtRatio? (u v : Field) : Option Field :=
  let v3 := v * v * v
  let r := u * v3 * (u * v3 * v3 * v).pow ((fieldOrder - 5) / 8)
  let check := v * (r * r)
  let root? := if check = u then some r else if check = -u then some (r * rootOfMinusOne) else none
  root?.map fun r => if r.val % 2 = 1 then -r else r

end Field

def d : Field := -(Field.ofNat 121665) * (Field.ofNat 121666).inverse

def twiceD : Field := d + d

/-- The affine point `(x / z, y / z)`, with `t = x y / z`. -/
structure Point where
  (x y z t : Field)

namespace Point

def zero : Point := ⟨0, 1, 1, 0⟩

def ofAffine (x y : Field) : Point := ⟨x, y, 1, x * y⟩

def neg (p : Point) : Point := ⟨-p.x, p.y, p.z, -p.t⟩

def add (p q : Point) : Point :=
  let a := (p.y - p.x) * (q.y - q.x)
  let b := (p.y + p.x) * (q.y + q.x)
  let c := p.t * twiceD * q.t
  let zz := p.z * q.z
  let e := b - a
  let f := zz + zz - c
  let g := zz + zz + c
  let h := b + a
  ⟨e * f, g * h, f * g, e * h⟩

def double (p : Point) : Point :=
  let a := p.x * p.x
  let b := p.y * p.y
  let zz := p.z * p.z
  let h := a + b
  let s := p.x + p.y
  let e := h - s * s
  let g := a - b
  let f := zz + zz + g
  ⟨e * f, g * h, f * g, e * h⟩

/-- The multiples `0 p, 1 p, …, 15 p`. -/
def multiples (p : Point) : Array Point :=
  (List.range 15).foldl (fun table _ => table.push ((table.back?.getD zero).add p)) #[zero]

/-- The digits of a scalar in base sixteen, most significant first. -/
def digits (fuel : Nat) (n : Nat) : List Nat :=
  (List.range fuel).foldl (fun (ds, n) _ => (n % 16 :: ds, n / 16)) (([] : List Nat), n) |>.1

/-- `a p + b q` for scalars below `2 ^ 256`, with the doublings shared. -/
def mulAdd (a : Nat) (p : Array Point) (b : Nat) (q : Array Point) : Point :=
  ((digits 64 a).zip (digits 64 b)).foldl
    (fun acc (i, j) =>
      let shifted := acc.double.double.double.double
      let withP := if i = 0 then shifted else shifted.add (p.getD i zero)
      if j = 0 then withP else withP.add (q.getD j zero))
    zero

/-- The `y` coordinate in 255 bits, the parity of `x` in the last one. -/
def encode (p : Point) : List UInt8 :=
  let w := p.z.inverse
  let x := p.x * w
  let y := p.y * w
  littleEndian 32 (y.val + (x.val % 2) * Nat.pow 2 255)

/-- The point with the given encoding. A coordinate above the field order is
reduced, and a zero `x` may carry either sign. -/
def decode? (bytes : List UInt8) : Option Point :=
  let n := ofLittleEndian bytes
  let y := Field.ofNat (n % Nat.pow 2 255)
  let yy := y * y
  (Field.sqrtRatio? (yy - 1) (d * yy + 1)).map fun x =>
    ofAffine (if n / Nat.pow 2 255 % 2 = 1 then -x else x) y

/-- The base point, with `y = 4 / 5` and even `x`. -/
def base : Point :=
  let y := Field.ofNat 4 * (Field.ofNat 5).inverse
  (decode? (littleEndian 32 y.val)).getD zero

def baseMultiples : Array Point := base.multiples

end Point

/-- The order of the base point. -/
def groupOrder : Nat := Nat.pow 2 252 + 27742317777372353535851937790883648493

end ChainLab.Edwards25519
