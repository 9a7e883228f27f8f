import ChainLab.Fields
import ChainLab.Json.Reader

/-!
# Reading records from JSON

A record is an object with its field names as keys or an array of its fields in
declared order.
-/

namespace ChainLab.Json

def text? : Json → Option String
  | .string body => decode? body
  | _ => none

def bool? : Json → Option Bool
  | .bool b => some b
  | _ => none

def items? : Json → Option (List Json)
  | .array items => some items
  | _ => none

/-- Only a plain run of digits is a natural number: no sign, fraction or exponent. -/
def natural? : Json → Option Nat
  | .number lexeme =>
    if lexeme.all isDigit then some (lexeme.foldl (fun n b => 10 * n + (b.toNat - 48)) 0) else none
  | _ => none

/-- A natural number below `2 ^ bits`. -/
def word? (bits : Nat) (value : Json) : Option Nat :=
  (natural? value).bind fun n => if n < Nat.pow 2 bits then some n else none

def word8? (value : Json) : Option UInt8 := (word? 8 value).map UInt8.ofNat

def word32? (value : Json) : Option UInt32 := (word? 32 value).map UInt32.ofNat

def word64? (value : Json) : Option UInt64 := (word? 64 value).map UInt64.ofNat

def list? {α : Type} (read : Json → Option α) (value : Json) : Option (List α) :=
  (items? value).bind fun items => items.mapM read

def octets? (value : Json) : Option (List UInt8) := list? word8? value

/-- A value or null. -/
def option? {α : Type} (read : Json → Option α) : Json → Option (Option α)
  | .null => some none
  | value => (read value).map some

/-- The members of an object with their names decoded. -/
def named? : List (List UInt8 × Json) → Option (List (String × Json))
  | [] => some []
  | (body, value) :: rest => do
    let name ← decode? body
    let rest ← named? rest
    some ((name, value) :: rest)

/-- The fields of a record; `missing` tells whether an array may stop early. -/
def fields? (missing : Bool) (names : List String) : Json → Option (List (Option Json))
  | .object members => (named? members).bind (Fields.select? names)
  | .array items =>
    if items.length = names.length ∨ (missing ∧ items.length < names.length) then
      some (items.map some ++ List.replicate (names.length - items.length) none)
    else none
  | _ => none

/-- The fields of a record all of which have to be given. -/
def record? (names : List String) (value : Json) : Option (List Json) :=
  (fields? false names value).bind fun fields => fields.mapM id

/-- An optional field: absent and null mean the same. -/
def optional? {α : Type} (read : Json → Option α) : Option Json → Option (Option α)
  | none => some none
  | some value => option? read value

end ChainLab.Json
