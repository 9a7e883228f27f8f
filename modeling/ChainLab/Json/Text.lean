import ChainLab.Bytes.Hex

/-!
# Strings inside JSON

The body of a JSON string is the text between its quotes, escapes included.
Writing escapes only what must be escaped; reading undoes every escape and
refuses a body that does not spell Unicode text.
-/

namespace ChainLab.Json

/-- How one byte of UTF-8 text is written. Bytes above the control characters
stand for themselves, quote and backslash excepted. -/
def escapeByte (b : UInt8) : List UInt8 :=
  if b = 34 ∨ b = 92 then [92, b]
  else if b = 8 then [92, 98]
  else if b = 9 then [92, 116]
  else if b = 10 then [92, 110]
  else if b = 12 then [92, 102]
  else if b = 13 then [92, 114]
  else if b < 32 then [92, 117, 48, 48, 48 + b / 16, (Hex.digitChar (b % 16)).toUInt8]
  else [b]

def escape (text : String) : List UInt8 := text.toUTF8.toList.flatMap escapeByte

/-- The byte meant by a one-letter escape. -/
def letterEscape? (b : UInt8) : Option UInt8 :=
  if b = 34 ∨ b = 92 ∨ b = 47 then some b
  else if b = 98 then some 8
  else if b = 116 then some 9
  else if b = 110 then some 10
  else if b = 102 then some 12
  else if b = 114 then some 13
  else none

/-- A four-digit code unit. -/
def codeUnit? (a b c d : UInt8) : Option Nat := do
  let digits ← [a, b, c, d].mapM Hex.digit?
  some (digits.foldl (fun n digit => 16 * n + digit.toNat) 0)

def isHighSurrogate (n : Nat) : Bool := 0xD800 ≤ n && n < 0xDC00

def isLowSurrogate (n : Nat) : Bool := 0xDC00 ≤ n && n < 0xE000

def utf8 (codePoint : Nat) : List UInt8 :=
  (String.singleton (Char.ofNat codePoint)).toUTF8.toList

/-- Undo the escapes of a body. Surrogates count only in pairs. -/
def unescape? : List UInt8 → Option (List UInt8)
  | [] => some []
  | 92 :: 117 :: a :: b :: c :: d :: rest =>
    match codeUnit? a b c d with
    | none => none
    | some high =>
      if isHighSurrogate high then
        match rest with
        | 92 :: 117 :: e :: f :: g :: h :: rest =>
          match codeUnit? e f g h with
          | none => none
          | some low =>
            if isLowSurrogate low then
              (unescape? rest).map (utf8 (0x10000 + (high - 0xD800) * 0x400 + (low - 0xDC00)) ++ ·)
            else none
        | _ => none
      else if isLowSurrogate high then none
      else (unescape? rest).map (utf8 high ++ ·)
  | 92 :: b :: rest =>
    match letterEscape? b with
    | none => none
    | some byte => (unescape? rest).map (byte :: ·)
  | b :: rest => (unescape? rest).map (b :: ·)

def decode? (body : List UInt8) : Option String :=
  (unescape? body).bind fun bytes => String.fromUTF8? bytes.toByteArray

end ChainLab.Json
