/-!
# YAML values

A document is a tree of scalars, sequences and mappings. Whether a scalar is a
number, a truth value or nothing at all is decided by whoever reads it; the tree
only remembers if it was written without quotes.

Tags, anchors, aliases, directives and block scalars are not part of the format.
-/

namespace ChainLab

inductive Yaml where
  | scalar (plain : Bool) (text : String)
  | sequence (items : List Yaml)
  | mapping (entries : List (Yaml × Yaml))

/-- What stands where nothing was written. -/
def Yaml.empty : Yaml := .scalar true ""

end ChainLab
