import ChainLab.Json

/-!
# Reading JSON

Tokens are folded into a value by a machine whose state is the stack of
unfinished arrays and objects and the slot that the next token has to fill.
Nesting is therefore bounded by nothing but the input.
-/

namespace ChainLab.Json

/-- An unfinished container; what it already holds comes last first. -/
inductive Context where
  | items (done : List Json)
  | member (done : List (List UInt8 × Json)) (name : List UInt8)

/-- What the next token is read as. -/
inductive Slot where
  | value
  | firstItem
  | afterItem (done : List Json)
  | firstName
  | name (done : List (List UInt8 × Json))
  | colon (done : List (List UInt8 × Json)) (name : List UInt8)
  | afterMember (done : List (List UInt8 × Json))
  | finished (value : Json)

structure Reader where
  enclosing : List Context
  slot : Slot

namespace Reader

/-- Put a complete value where it belongs. -/
def place (value : Json) : List Context → Reader
  | [] => ⟨[], .finished value⟩
  | .items done :: rest => ⟨rest, .afterItem (value :: done)⟩
  | .member done name :: rest => ⟨rest, .afterMember ((name, value) :: done)⟩

def readValue (enclosing : List Context) : Token → Option Reader
  | .null => some (place .null enclosing)
  | .bool b => some (place (.bool b) enclosing)
  | .number lexeme => some (place (.number lexeme) enclosing)
  | .string body => some (place (.string body) enclosing)
  | .openArray => some ⟨enclosing, .firstItem⟩
  | .openObject => some ⟨enclosing, .firstName⟩
  | _ => none

def step (reader : Reader) (token : Token) : Option Reader :=
  let enclosing := reader.enclosing
  match reader.slot, token with
  | .value, token => readValue enclosing token
  | .firstItem, .closeArray => some (place (.array []) enclosing)
  | .firstItem, token => readValue (.items [] :: enclosing) token
  | .afterItem done, .comma => some ⟨.items done :: enclosing, .value⟩
  | .afterItem done, .closeArray => some (place (.array done.reverse) enclosing)
  | .firstName, .closeObject => some (place (.object []) enclosing)
  | .firstName, .string name => some ⟨enclosing, .colon [] name⟩
  | .name done, .string name => some ⟨enclosing, .colon done name⟩
  | .colon done name, .colon => some ⟨.member done name :: enclosing, .value⟩
  | .afterMember done, .comma => some ⟨enclosing, .name done⟩
  | .afterMember done, .closeObject => some (place (.object done.reverse) enclosing)
  | _, _ => none

def finish? (reader : Reader) : Option Json :=
  match reader.slot with
  | .finished value => some value
  | _ => none

end Reader

/-- The value spelled by the whole text. -/
def parse? (text : List UInt8) : Option Json :=
  (tokens? text).bind fun tokens => (tokens.foldlM Reader.step ⟨[], .value⟩).bind Reader.finish?

end ChainLab.Json
