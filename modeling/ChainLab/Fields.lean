/-!
# Fields of a record

Records are read from members in any order. Members that name no field are
ignored; a field may not be given twice.
-/

namespace ChainLab.Fields

/-- The values of the named fields, each given at most once. -/
def select? {α : Type} (names : List String) (members : List (String × α)) :
    Option (List (Option α)) :=
  names.mapM fun name =>
    match members.filter fun member => member.1 = name with
    | [] => some none
    | [member] => some (some member.2)
    | _ => none

/-- A field with a default. -/
def defaulted? {α β : Type} (default : β) (read : α → Option β) : Option α → Option β
  | none => some default
  | some value => read value

end ChainLab.Fields
