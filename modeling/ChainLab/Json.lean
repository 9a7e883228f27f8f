import ChainLab.Json.Text
import ChainLab.Json.Token

/-!
# JSON values and their compact text

A value keeps the lexemes of its numbers and the escapes of its strings, so
printing what was read gives back the same tokens.
-/

namespace ChainLab

inductive Json where
  | null
  | bool (value : Bool)
  | number (lexeme : List UInt8)
  | string (body : List UInt8)
  | array (items : List Json)
  | object (fields : List (List UInt8 × Json))

namespace Json

/-- Decimal digits, most significant first. -/
def digits (n : Nat) : List UInt8 :=
  if n < 10 then [48 + UInt8.ofNat n] else digits (n / 10) ++ [48 + UInt8.ofNat (n % 10)]

def natural (n : Nat) : Json := .number (digits n)

def text (s : String) : Json := .string (escape s)

/-- An object with the given fields in the given order. -/
def record (fields : List (String × Json)) : Json :=
  .object (fields.map fun (name, value) => (escape name, value))

def ofOption {α : Type} (encode : α → Json) : Option α → Json
  | none => .null
  | some a => encode a

def list {α : Type} (encode : α → Json) (items : List α) : Json := .array (items.map encode)

def octets (bytes : List UInt8) : Json := list (fun b => natural b.toNat) bytes

def quote (body : List UInt8) : List UInt8 := 34 :: body ++ [34]

mutual

/-- The text of a value, without blanks. -/
def print : Json → List UInt8
  | .null => "null".toUTF8.toList
  | .bool true => "true".toUTF8.toList
  | .bool false => "false".toUTF8.toList
  | .number lexeme => lexeme
  | .string body => quote body
  | .array items => 91 :: printItems items ++ [93]
  | .object fields => 123 :: printFields fields ++ [125]

def printItems : List Json → List UInt8
  | [] => []
  | [item] => print item
  | item :: rest => print item ++ 44 :: printItems rest

def printFields : List (List UInt8 × Json) → List UInt8
  | [] => []
  | [(name, value)] => quote name ++ 58 :: print value
  | (name, value) :: rest => quote name ++ 58 :: print value ++ 44 :: printFields rest

end

def toText (value : Json) : String :=
  (String.fromUTF8? (print value).toByteArray).getD ""

end Json
end ChainLab
