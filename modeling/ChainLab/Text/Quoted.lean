import ChainLab.Text.Unprintable

/-!
# Quoted text for messages

Texts are shown between double quotes and characters between single ones. The
quote in use, the backslash and everything that would not show are escaped.
-/

namespace ChainLab.Text

def hexNumber (n : Nat) : String := String.ofList (Nat.toDigits 16 n)

/-- One character inside the given quotes. -/
def escapeChar (quote c : Char) : String :=
  if c = quote ∨ c = '\\' then String.ofList ['\\', c]
  else if c = '\x00' then "\\0"
  else if c = '\t' then "\\t"
  else if c = '\n' then "\\n"
  else if c = '\r' then "\\r"
  else if isUnprintable c then "\\u\x7b" ++ hexNumber c.toNat ++ "\x7d"
  else String.singleton c

def quoted (text : String) : String :=
  "\"" ++ String.join (text.toList.map (escapeChar '"')) ++ "\""

def quotedChar (c : Char) : String := "'" ++ escapeChar '\'' c ++ "'"

/-- An optional text, with the word that says whether it is there. -/
def quotedOption : Option String → String
  | none => "None"
  | some text => "Some(" ++ quoted text ++ ")"

end ChainLab.Text
