import ChainLab.Fields
import ChainLab.Yaml.Reader

/-!
# Reading records from YAML

A record is a mapping with its field names as keys; nothing at all is a mapping
without entries. Texts are taken as they stand, numbers and truth values only
from scalars without quotes.
-/

namespace ChainLab.Yaml

def text? : Yaml → Option String
  | .scalar _ text => some text
  | _ => none

/-- The text of a scalar without quotes. -/
def plain? : Yaml → Option String
  | .scalar true text => some text
  | _ => none

def bool? (value : Yaml) : Option Bool := do
  let text ← value.plain?
  if ["true", "True", "TRUE"].contains text then some true
  else if ["false", "False", "FALSE"].contains text then some false
  else none

/-- A number in the given base: at least one digit. -/
def digits? (base : Nat) (text : List Char) : Option Nat :=
  if text.isEmpty then none
  else text.foldlM (fun n c => (digit? base c).map fun digit => base * n + digit) 0

/-- A natural number, with or without a plus sign. Only zero begins with a zero in base ten. -/
def number? (text : String) : Option Nat :=
  let unsigned := match text.toList with
    | '+' :: rest => rest
    | text => text
  match unsigned with
  | '0' :: 'x' :: rest => digits? 16 rest
  | '0' :: 'o' :: rest => digits? 8 rest
  | '0' :: 'b' :: rest => digits? 2 rest
  | '0' :: _ :: _ => none
  | rest => digits? 10 rest

/-- A natural number below `2 ^ bits`. -/
def word? (bits : Nat) (value : Yaml) : Option Nat := do
  let n ← number? (← value.plain?)
  if n < Nat.pow 2 bits then some n else none

def word32? (value : Yaml) : Option UInt32 := (word? 32 value).map UInt32.ofNat

def word64? (value : Yaml) : Option UInt64 := (word? 64 value).map UInt64.ofNat

/-- Whether a value says that there is none. -/
def isNull : Yaml → Bool
  | .scalar true text => ["", "~", "null", "Null", "NULL"].contains text
  | _ => false

/-- An optional field: absent and null mean the same. -/
def optional? {α : Type} (read : Yaml → Option α) : Option Yaml → Option (Option α)
  | none => some none
  | some value => if value.isNull then some none else (read value).map some

/-- The entries of a mapping, all of whose keys are scalars. -/
def members? : Yaml → Option (List (String × Yaml))
  | .mapping entries => entries.mapM fun (key, value) => key.text?.map fun name => (name, value)
  | .scalar true "" => some []
  | _ => none

def fields? (names : List String) (value : Yaml) : Option (List (Option Yaml)) :=
  (members? value).bind (Fields.select? names)

/-- The fields of a record all of which have to be given. -/
def record? (names : List String) (value : Yaml) : Option (List Yaml) :=
  (fields? names value).bind fun fields => fields.mapM id

end ChainLab.Yaml
