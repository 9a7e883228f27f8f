import ChainLab.Yaml.Scalar
import ChainLab.Yaml.Token

/-!
# Scanning YAML

A machine reads one character at a time and may look at the text behind it. That
a scalar or a bracketed collection was a mapping key shows only at the colon after
it, so the machine remembers where a key may have begun and puts the tokens that
announce it before the tokens it has read since.
-/

namespace ChainLab.Yaml

/-- A place in the text. -/
structure Position where
  line : Nat
  /-- How many characters of the line come before it. -/
  column : Nat
  /-- How many bytes these characters take in UTF-8. -/
  offset : Nat
  deriving DecidableEq

namespace Position

def start : Position := ⟨0, 0, 0⟩

/-- The place behind a character. -/
def after (p : Position) (c : Char) : Position :=
  if isBreak c then ⟨p.line + 1, 0, 0⟩ else ⟨p.line, p.column + 1, p.offset + c.utf8Size⟩

end Position

/-- A place where a mapping key may have begun. -/
structure KeyMark where
  position : Position
  /-- How many tokens stand before it. -/
  before : Nat
  /-- Whether the text makes no sense unless a key began here. -/
  required : Bool

/-- A key ends on its line and within 1024 bytes. -/
def KeyMark.isStale (mark : KeyMark) (here : Position) : Bool :=
  mark.position.line < here.line || mark.position.offset + 1024 < here.offset

inductive Mode where
  | between
  | comment
  /-- Within a mark between documents. -/
  | marker (left : Nat)
  | plain (part : Part)
  | single (part : Part)
  /-- Behind a quote that ends the scalar or is the first of two. -/
  | singleEnd (part : Part)
  | double (part : Part)
  | escape (part : Part)
  /-- Within the digits of an escaped code point. -/
  | code (part : Part) (left value : Nat)

structure Scanner where
  mode : Mode
  position : Position
  /-- Columns of the open block collections, innermost first. -/
  indents : List Nat
  /-- The possible key of the innermost bracketed collection, or of the block. -/
  key : Option KeyMark
  /-- Those of the collections around it. -/
  outer : List (Option KeyMark)
  /-- Whether a key or an item may begin here. -/
  keyAllowed : Bool
  /-- The tokens read so far, last first. -/
  tokens : List Token

namespace Scanner

def start : Scanner :=
  { mode := .between, position := .start, indents := [], key := none, outer := [],
    keyAllowed := true, tokens := [] }

def column (s : Scanner) : Nat := s.position.column

def inBrackets (s : Scanner) : Bool := !s.outer.isEmpty

def push (s : Scanner) (token : Token) : Scanner := { s with tokens := token :: s.tokens }

/-- Put a token behind the first `before` tokens. -/
def insert (s : Scanner) (before : Nat) (token : Token) : Scanner :=
  let later := s.tokens.length - before
  { s with tokens := s.tokens.take later ++ token :: s.tokens.drop later }

/-- Go on to the next character. -/
def goOn (s : Scanner) (mode : Mode) : Scanner := { s with mode }

/-! ## Keys and indentation -/

def forgetStale (s : Scanner) (mark : Option KeyMark) : Option KeyMark :=
  mark.filter fun mark => !mark.isStale s.position

/-- Give up the possible keys that went on for too long. -/
def refreshKeys? (s : Scanner) : Option Scanner :=
  let isBroken (mark : KeyMark) : Bool := mark.required && mark.isStale s.position
  if (s.key :: s.outer).any fun mark => mark.any isBroken then none
  else some { s with key := s.forgetStale s.key, outer := s.outer.map s.forgetStale }

def dropKey? (s : Scanner) : Option Scanner :=
  if s.key.any KeyMark.required then none else some { s with key := none }

/-- Remember that a key may begin here. -/
def markKey? (s : Scanner) : Option Scanner :=
  if s.keyAllowed then
    s.dropKey?.map fun s =>
      { s with
        key := some
          { position := s.position, before := s.tokens.length,
            required := !s.inBrackets && s.indents.head? = some s.column } }
  else some s

/-- Open a block collection, unless one is open at that column or further right. -/
def openBlock (s : Scanner) (column before : Nat) (token : Token) : Scanner :=
  if s.inBrackets || s.indents.head?.any fun indent => column ≤ indent then s
  else { s.insert before token with indents := column :: s.indents }

/-- Close the block collections whose column does not satisfy the condition. -/
def closeBlocks (s : Scanner) (stays : Nat → Bool) : Scanner :=
  if s.inBrackets then s
  else
    let closed := s.indents.takeWhile fun indent => !stays indent
    { s with
      indents := s.indents.drop closed.length
      tokens := List.replicate closed.length .blockEnd ++ s.tokens }

/-! ## Beginnings of tokens -/

def beginMarker? (s : Scanner) (token : Token) : Option Scanner :=
  (s.closeBlocks fun _ => false).dropKey?.map fun s =>
    ({ s with keyAllowed := false }.push token).goOn (.marker 2)

def openBracket? (s : Scanner) (token : Token) : Option Scanner :=
  s.markKey?.map fun s =>
    ({ s with key := none, outer := s.key :: s.outer, keyAllowed := true }.push token).goOn .between

def closeBracket? (s : Scanner) (token : Token) : Option Scanner :=
  s.dropKey?.map fun s =>
    let s := match s.outer with
      | [] => s
      | key :: outer => { s with key, outer }
    ({ s with keyAllowed := false }.push token).goOn .between

def comma? (s : Scanner) : Option Scanner :=
  s.dropKey?.map fun s => ({ s with keyAllowed := true }.push .comma).goOn .between

def item? (s : Scanner) : Option Scanner :=
  if !s.inBrackets && !s.keyAllowed then none
  else
    (s.openBlock s.column s.tokens.length .sequenceStart).dropKey?.map fun s =>
      ({ s with keyAllowed := true }.push .item).goOn .between

def explicitKey? (s : Scanner) : Option Scanner :=
  if !s.inBrackets && !s.keyAllowed then none
  else
    (s.openBlock s.column s.tokens.length .mappingStart).dropKey?.map fun s =>
      ({ s with keyAllowed := !s.inBrackets }.push .key).goOn .between

/-- A colon: what may have been a key was one. -/
def value? (s : Scanner) : Option Scanner :=
  match s.key with
  | some mark =>
    let s := (s.insert mark.before .key).openBlock mark.position.column mark.before .mappingStart
    some (({ s with key := none, keyAllowed := false }.push .value).goOn .between)
  | none =>
    if s.inBrackets then some (({ s with keyAllowed := false }.push .value).goOn .between)
    else if s.keyAllowed then
      some (((s.openBlock s.column s.tokens.length .mappingStart).push .value).goOn .between)
    else none

def beginScalar? (s : Scanner) (mode : Mode) : Option Scanner :=
  s.markKey?.map fun s => { s with keyAllowed := false }.goOn mode

/-- Characters that never begin a plain scalar, save three of them before a letter. -/
def isIndicator (c : Char) : Bool :=
  "-?:,[]\x7b\x7d#&*!|>'\"%@\x60".toList.contains c

def isBracketMark (c : Char) : Bool := ",[]\x7b\x7d".toList.contains c

/-- A character between tokens that is neither blank nor in a comment. -/
def beginToken? (s : Scanner) (c : Char) (rest : List Char) : Option Scanner := do
  let s := (← s.refreshKeys?).closeBlocks (· ≤ s.column)
  if s.column = 0 && c = '%' then none
  else if s.column = 0 && startsMarker '-' (c :: rest) then s.beginMarker? .documentStart
  else if s.column = 0 && startsMarker '.' (c :: rest) then s.beginMarker? .documentEnd
  else if c = '[' then s.openBracket? .openSequence
  else if c = '\x7b' then s.openBracket? .openMapping
  else if c = ']' then s.closeBracket? .closeSequence
  else if c = '\x7d' then s.closeBracket? .closeMapping
  else if c = ',' then s.comma?
  else if c = '-' && endsWord rest then s.item?
  else if c = '?' && (s.inBrackets || endsWord rest) then s.explicitKey?
  else if c = ':' && (s.inBrackets || endsWord rest) then s.value?
  else if c = '\'' then s.beginScalar? (.single .empty)
  else if c = '"' then s.beginScalar? (.double .empty)
  else if isBlank c then none
  else if !isIndicator c || c = '-' || c = '?' || c = ':' then s.beginScalar? (.plain (.start c))
  else none

/-- A byte order mark that begins a line separates like a blank, and takes a column like one. -/
def between? (s : Scanner) (c : Char) (rest : List Char) : Option Scanner :=
  if s.column = 0 && c = '\ufeff' then some (s.goOn .between)
  else if c = ' ' || (c = '\t' && (s.inBrackets || !s.keyAllowed)) then some (s.goOn .between)
  else if c = '#' then some (s.goOn .comment)
  else if isBreak c then
    some ({ s with keyAllowed := s.keyAllowed || !s.inBrackets }.goOn .between)
  else s.beginToken? c rest

/-! ## Scalars -/

def endScalar (s : Scanner) (plain : Bool) (part : Part) : Scanner :=
  { s.push (.scalar plain (String.ofList part.read.reverse)) with
    mode := .between
    keyAllowed := s.keyAllowed || (plain && part.gap.hasBreak) }

/-- Whether the column lies outside of the innermost block collection. -/
def isOutdented (s : Scanner) : Bool := s.indents.head?.any fun indent => s.column ≤ indent

def atMarker (s : Scanner) (text : List Char) : Bool :=
  s.column = 0 && (startsMarker '-' text || startsMarker '.' text)

/-- Whether a plain scalar ends before the given text. -/
def endsPlain (s : Scanner) (gap : Gap) (c : Char) (rest : List Char) : Bool :=
  (!gap.isEmpty && ((!s.inBrackets && s.isOutdented) || s.atMarker (c :: rest) || c = '#')) ||
    (c = ':' && endsWord rest) || (s.inBrackets && isBracketMark c)

def plain? (s : Scanner) (part : Part) (c : Char) (rest : List Char) : Option Scanner :=
  if isBlank c then
    if part.gap.hasBreak && s.isOutdented && c = '\t' then none
    else some (s.goOn (.plain (part.addBlank c)))
  else if isBreak c then some (s.goOn (.plain (part.addBreak c)))
  else if s.endsPlain part.gap c rest then (s.endScalar true part).between? c rest
  else if s.inBrackets && c = ':' && rest.head?.any fun d => isBracketMark d || d = '?' then none
  else some (s.goOn (.plain (part.add c)))

/-- Blanks and line breaks within quotes. -/
def quoted? (s : Scanner) (mode : Part → Mode) (part : Part) (c : Char) (rest : List Char)
    (other : Option Scanner) : Option Scanner :=
  if s.atMarker (c :: rest) then none
  else if isBlank c then some (s.goOn (mode (part.addBlank c)))
  else if isBreak c then some (s.goOn (mode (part.addBreak c)))
  else other

def single? (s : Scanner) (part : Part) (c : Char) (rest : List Char) : Option Scanner :=
  s.quoted? .single part c rest
    (if c = '\'' then some (s.goOn (.singleEnd part)) else some (s.goOn (.single (part.add c))))

def closing (part : Part) : Part := { part with read := part.filled }

def singleEnd? (s : Scanner) (part : Part) (c : Char) (rest : List Char) : Option Scanner :=
  if c = '\'' then some (s.goOn (.single (part.add c)))
  else (s.endScalar false (closing part)).between? c rest

def double? (s : Scanner) (part : Part) (c : Char) (rest : List Char) : Option Scanner :=
  s.quoted? .double part c rest
    (if c = '"' then some ((s.endScalar false (closing part)).goOn .between)
     else if c = '\\' then some (s.goOn (.escape part))
     else some (s.goOn (.double (part.add c))))

def escape? (s : Scanner) (part : Part) (c : Char) : Option Scanner :=
  if isBreak c then some (s.goOn (.double part.addEscapedBreak))
  else
    match letterEscape? c with
    | some meant => some (s.goOn (.double (part.add meant)))
    | none => (codeLength? c).map fun length => s.goOn (.code part length 0)

def code? (s : Scanner) (part : Part) (left value : Nat) (c : Char) : Option Scanner := do
  let value := 16 * value + (← digit? 16 c)
  if left ≤ 1 then
    let meant ← character? value
    some (s.goOn (.double (part.add meant)))
  else some (s.goOn (.code part (left - 1) value))

/-! ## The whole text -/

def step? (s : Scanner) (c : Char) (rest : List Char) : Option Scanner :=
  match s.mode with
  | .between => s.between? c rest
  | .comment => if isBreak c then s.between? c rest else some (s.goOn .comment)
  | .marker left => some (s.goOn (if left ≤ 1 then .between else .marker (left - 1)))
  | .plain part => s.plain? part c rest
  | .single part => s.single? part c rest
  | .singleEnd part => s.singleEnd? part c rest
  | .double part => s.double? part c rest
  | .escape part => s.escape? part c
  | .code part left value => s.code? part left value c

def run? (s : Scanner) : List Char → Option Scanner
  | [] => some s
  | c :: rest =>
    (s.step? c rest).bind fun next => { next with position := s.position.after c }.run? rest

/-- The tokens in order, unless a quote or a key is still open. -/
def finish? (s : Scanner) : Option (List Token) := do
  let s ← match s.mode with
    | .between | .comment | .marker _ => some s
    | .plain part => some (s.endScalar true part)
    | .singleEnd part => some (s.endScalar false (closing part))
    | _ => none
  let s ← (← s.refreshKeys?).dropKey?
  some (s.closeBlocks fun _ => false).tokens.reverse

end Scanner

/-- The tokens of a text that holds no control characters. -/
def tokens? (text : String) : Option (List Token) :=
  let text := text.toList
  if text.all isAllowed then (Scanner.start.run? (joinBreaks text)).bind Scanner.finish? else none

end ChainLab.Yaml
