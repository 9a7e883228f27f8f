import ChainLab.Bytes

/-!
# Hexadecimal text

Bytes are written as lower-case digit pairs. Reading accepts either case and
reports the first fault: an odd number of digits before any bad digit.
-/

namespace ChainLab.Hex

inductive Fault where
  | oddLength
  | badDigit (byte : UInt8) (position : Nat)
  deriving DecidableEq, Repr

/-- The character of a digit below sixteen. -/
def digitChar (d : UInt8) : Char :=
  Char.ofNat (if d < 10 then 48 + d.toNat else 87 + d.toNat)

/-- The value of a digit given by its ASCII code. -/
def digit? (code : UInt8) : Option UInt8 :=
  if 48 ≤ code ∧ code ≤ 57 then some (code - 48)
  else if 97 ≤ code ∧ code ≤ 102 then some (code - 87)
  else if 65 ≤ code ∧ code ≤ 70 then some (code - 55)
  else none

def encode (bytes : List UInt8) : String :=
  String.ofList (bytes.flatMap fun b => [digitChar (b / 16), digitChar (b % 16)])

/-- Read digit pairs; `position` counts the bytes of text already read. -/
def decodePairs (position : Nat) : List UInt8 → Except Fault (List UInt8)
  | [] => .ok []
  | [_] => .error .oddLength
  | high :: low :: rest =>
    match digit? high, digit? low with
    | none, _ => .error (.badDigit high position)
    | some _, none => .error (.badDigit low (position + 1))
    | some h, some l => (decodePairs (position + 2) rest).map fun bytes => (16 * h + l) :: bytes

/-- Positions and the parity test count bytes of the text, not characters. -/
def decode (text : String) : Except Fault (List UInt8) :=
  let bytes := text.toUTF8.toList
  if bytes.length % 2 = 1 then .error .oddLength else decodePairs 0 bytes

end ChainLab.Hex
