import ChainLab.Yaml
import ChainLab.Yaml.Scanner

/-!
# Reading YAML documents

Recursive descent over the tokens. Every function takes how deep it may still
call, and hands back the tokens it did not use; `enough` calls let every token be
read.
-/

namespace ChainLab.Yaml

/-- Where a node stands; items of a sequence need no further indentation below a key. -/
inductive Place where
  | bracketed
  | block
  | belowKey
  deriving DecidableEq

mutual

def node? (fuel : Nat) (place : Place) (tokens : List Token) : Option (Yaml × List Token) :=
  match fuel with
  | 0 => none
  | fuel + 1 =>
    match tokens with
    | .scalar plain text :: rest => some (.scalar plain text, rest)
    | .openSequence :: rest => do
      let (items, rest) ← bracketedItems? fuel rest
      some (.sequence items, rest)
    | .openMapping :: rest => do
      let (entries, rest) ← bracketedEntries? fuel rest
      some (.mapping entries, rest)
    | .item :: _ =>
      if place = .belowKey then do
        let (items, rest) ← levelItems? fuel tokens
        some (.sequence items, rest)
      else none
    | .sequenceStart :: rest =>
      if place = .bracketed then none
      else do
        let (items, rest) ← blockItems? fuel rest
        some (.sequence items, rest)
    | .mappingStart :: rest =>
      if place = .bracketed then none
      else do
        let (entries, rest) ← blockEntries? fuel rest
        some (.mapping entries, rest)
    | _ => none

/-- A node that may be left out before certain tokens. -/
def nodeOrEmpty? (fuel : Nat) (place : Place) (stops : List Token) (tokens : List Token) :
    Option (Yaml × List Token) :=
  match fuel with
  | 0 => none
  | fuel + 1 =>
    if tokens.head?.any stops.contains then some (.empty, tokens) else node? fuel place tokens

/-- Items of a block sequence and the token that closes it. -/
def blockItems? (fuel : Nat) (tokens : List Token) : Option (List Yaml × List Token) :=
  match fuel with
  | 0 => none
  | fuel + 1 =>
    match tokens with
    | .item :: rest => do
      let (item, rest) ← nodeOrEmpty? fuel .block [.item, .blockEnd] rest
      let (items, rest) ← blockItems? fuel rest
      some (item :: items, rest)
    | .blockEnd :: rest => some ([], rest)
    | _ => none

/-- Items of a sequence at the column of the key above it; nothing closes it. -/
def levelItems? (fuel : Nat) (tokens : List Token) : Option (List Yaml × List Token) :=
  match fuel with
  | 0 => none
  | fuel + 1 =>
    match tokens with
    | .item :: rest => do
      let (item, rest) ← nodeOrEmpty? fuel .block [.item, .key, .value, .blockEnd] rest
      let (items, rest) ← levelItems? fuel rest
      some (item :: items, rest)
    | rest => some ([], rest)

/-- What follows the key of an entry. -/
def entryValue? (fuel : Nat) (place : Place) (stops : List Token) (tokens : List Token) :
    Option (Yaml × List Token) :=
  match fuel with
  | 0 => none
  | fuel + 1 =>
    match tokens with
    | .value :: rest => nodeOrEmpty? fuel place stops rest
    | rest => some (.empty, rest)

/-- Entries of a block mapping and the token that closes it. -/
def blockEntries? (fuel : Nat) (tokens : List Token) : Option (List (Yaml × Yaml) × List Token) :=
  match fuel with
  | 0 => none
  | fuel + 1 =>
    match tokens with
    | .key :: rest => do
      let (key, rest) ← nodeOrEmpty? fuel .belowKey [.key, .value, .blockEnd] rest
      let (value, rest) ← entryValue? fuel .belowKey [.key, .value, .blockEnd] rest
      let (entries, rest) ← blockEntries? fuel rest
      some ((key, value) :: entries, rest)
    | .blockEnd :: rest => some ([], rest)
    | _ => none

/-- The key of an entry among bracketed items. The token that shows that the key is
left out counts as the key. -/
def itemKey? (fuel : Nat) (tokens : List Token) : Option (Yaml × List Token) :=
  match fuel with
  | 0 => none
  | fuel + 1 =>
    match tokens with
    | .value :: rest | .comma :: rest | .closeSequence :: rest => some (.empty, rest)
    | tokens => node? fuel .bracketed tokens

/-- Items up to the closing bracket. A key makes an item a mapping of one entry. -/
def bracketedItems? (fuel : Nat) (tokens : List Token) : Option (List Yaml × List Token) :=
  match fuel with
  | 0 => none
  | fuel + 1 =>
    match tokens with
    | .closeSequence :: rest => some ([], rest)
    | tokens => do
      let (item, rest) ← match tokens with
        | .key :: rest => do
          let (key, rest) ← itemKey? fuel rest
          let (value, rest) ← entryValue? fuel .bracketed [.comma, .closeSequence] rest
          some (.mapping [(key, value)], rest)
        | tokens => node? fuel .bracketed tokens
      match rest with
      | .comma :: rest => do
        let (items, rest) ← bracketedItems? fuel rest
        some (item :: items, rest)
      | .closeSequence :: rest => some ([item], rest)
      | _ => none

/-- Entries up to the closing brace. -/
def bracketedEntries? (fuel : Nat) (tokens : List Token) :
    Option (List (Yaml × Yaml) × List Token) :=
  match fuel with
  | 0 => none
  | fuel + 1 =>
    match tokens with
    | .closeMapping :: rest => some ([], rest)
    | tokens => do
      let (entry, rest) ← match tokens with
        | .key :: rest => do
          let (key, rest) ← nodeOrEmpty? fuel .bracketed [.value, .comma, .closeMapping] rest
          let (value, rest) ← entryValue? fuel .bracketed [.comma, .closeMapping] rest
          some ((key, value), rest)
        | tokens => do
          let (key, rest) ← node? fuel .bracketed tokens
          some ((key, .empty), rest)
      match rest with
      | .comma :: rest => do
        let (entries, rest) ← bracketedEntries? fuel rest
        some (entry :: entries, rest)
      | .closeMapping :: rest => some ([entry], rest)
      | _ => none

end

/-- At most four calls are made between two tokens. -/
def enough (tokens : List Token) : Nat := 4 * (tokens.length + 1)

/-- The documents behind a first one; each begins with its mark. -/
def moreDocuments? (fuel : Nat) (tokens : List Token) : Option (List Yaml) :=
  match fuel with
  | 0 => none
  | fuel + 1 =>
    match tokens.dropWhile (· = .documentEnd) with
    | [] => some []
    | .documentStart :: rest => do
      let (document, rest) ←
        if rest.isEmpty then some (.empty, rest)
        else nodeOrEmpty? (enough rest) .block [.documentStart, .documentEnd] rest
      let documents ← moreDocuments? fuel rest
      some (document :: documents)
    | _ => none

/-- All documents of a text; only the first one may lack its mark. -/
def documents? (tokens : List Token) : Option (List Yaml) :=
  match tokens with
  | [] => some []
  | .documentEnd :: _ => none
  | .documentStart :: _ => moreDocuments? (enough tokens) tokens
  | _ => do
    let (document, rest) ← node? (enough tokens) .block tokens
    let documents ← moreDocuments? (enough rest) rest
    some (document :: documents)

/-- The value of a text with at most one document. -/
def parse? (text : String) : Option Yaml := do
  match ← documents? (← tokens? text) with
  | [] => some .empty
  | [document] => some document
  | _ => none

end ChainLab.Yaml
