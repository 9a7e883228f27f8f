/-!
# YAML tokens

Indentation is turned into brackets: a block sequence or mapping has a token at
its start and one at its end, like the bracketed collections.
-/

namespace ChainLab.Yaml

inductive Token where
  | documentStart
  | documentEnd
  | sequenceStart
  | mappingStart
  | blockEnd
  | openSequence
  | closeSequence
  | openMapping
  | closeMapping
  | item
  | comma
  | key
  | value
  | scalar (plain : Bool) (text : String)
  deriving DecidableEq

end ChainLab.Yaml
