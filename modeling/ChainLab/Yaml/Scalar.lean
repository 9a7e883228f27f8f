import ChainLab.Bytes.Hex

/-!
# Characters and text of scalars

A scalar may go on over several lines. What separates two of its parts counts as
one blank for a single line break, as the further breaks for several, and as
itself within a line.
-/

namespace ChainLab.Yaml

def isBlank (c : Char) : Bool := c = ' ' || c = '\t'

/-- A line break, once `joinBreaks` has made all line feeds alike. -/
def isBreak (c : Char) : Bool := c = '\n' || c = '\u2028' || c = '\u2029'

/-- Characters that may stand in a text at all. -/
def isAllowed (c : Char) : Bool :=
  let n := c.toNat
  n = 0x09 || n = 0x0A || n = 0x0D || (0x20 ≤ n && n ≤ 0x7E) || n = 0x85 ||
    (0xA0 ≤ n && n ≤ 0xFFFD) || 0x10000 ≤ n

/-- Every carriage return, alone or with a line feed, and every next-line
character becomes a line feed. -/
def joinBreaks : List Char → List Char
  | [] => []
  | '\r' :: '\n' :: rest => '\n' :: joinBreaks rest
  | c :: rest => (if c = '\r' ∨ c = '\u0085' then '\n' else c) :: joinBreaks rest

/-- Whether a word ends before the given text. -/
def endsWord : List Char → Bool
  | [] => true
  | c :: _ => isBlank c || isBreak c

/-- Three of the given character alone: the marks between documents. -/
def startsMarker (mark : Char) : List Char → Bool
  | a :: b :: c :: rest => a = mark && b = mark && c = mark && endsWord rest
  | _ => false

/-- What was read since the last part of a scalar; the last character comes first. -/
inductive Gap where
  | blanks (read : List Char)
  /-- The first line break, absent when it was escaped, and the further ones. -/
  | lines (first : Option Char) (more : List Char)

namespace Gap

def isEmpty : Gap → Bool
  | .blanks read => read.isEmpty
  | .lines .. => false

def hasBreak : Gap → Bool
  | .blanks _ => false
  | .lines .. => true

/-- Blanks count only before the first line break. -/
def addBlank (c : Char) : Gap → Gap
  | .blanks read => .blanks (c :: read)
  | gap => gap

def addBreak (c : Char) : Gap → Gap
  | .blanks _ => .lines (some c) []
  | .lines first more => .lines first (c :: more)

/-- What the gap contributes to the text, last character first. -/
def text : Gap → List Char
  | .blanks read => read
  | .lines (some '\n') [] => [' ']
  | .lines (some '\n') more => more
  | .lines first more => more ++ first.toList

end Gap

/-- A scalar under way: its text, last character first, and the gap behind it. -/
structure Part where
  read : List Char
  gap : Gap

namespace Part

def empty : Part := ⟨[], .blanks []⟩

def start (c : Char) : Part := ⟨[c], .blanks []⟩

/-- The text with the gap filled in. -/
def filled (part : Part) : List Char := part.gap.text ++ part.read

def add (part : Part) (c : Char) : Part := ⟨c :: part.filled, .blanks []⟩

def addBlank (part : Part) (c : Char) : Part := { part with gap := part.gap.addBlank c }

def addBreak (part : Part) (c : Char) : Part := { part with gap := part.gap.addBreak c }

/-- Go on in the next line as if the line had not ended. -/
def addEscapedBreak (part : Part) : Part := ⟨part.filled, .lines none []⟩

end Part

/-- What a backslash and one more character stand for. -/
def letterEscape? (c : Char) : Option Char :=
  match c with
  | '0' => some '\x00'
  | 'a' => some '\x07'
  | 'b' => some '\x08'
  | 't' => some '\t'
  | '\t' => some '\t'
  | 'n' => some '\n'
  | 'v' => some '\x0b'
  | 'f' => some '\x0c'
  | 'r' => some '\r'
  | 'e' => some '\x1b'
  | ' ' => some ' '
  | '"' => some '"'
  | '/' => some '/'
  | '\\' => some '\\'
  | 'N' => some '\u0085'
  | '_' => some '\u00a0'
  | 'L' => some '\u2028'
  | 'P' => some '\u2029'
  | _ => none

/-- How many hexadecimal digits follow an escape of a code point. -/
def codeLength? (c : Char) : Option Nat :=
  match c with
  | 'x' => some 2
  | 'u' => some 4
  | 'U' => some 8
  | _ => none

/-- The value of a digit in the given base. -/
def digit? (base : Nat) (c : Char) : Option Nat :=
  if c.toNat < 128 then
    (Hex.digit? (UInt8.ofNat c.toNat)).bind fun digit =>
      if digit.toNat < base then some digit.toNat else none
  else none

/-- The character of a code point, surrogates excepted. -/
def character? (code : Nat) : Option Char :=
  if code.isValidChar then some (Char.ofNat code) else none

end ChainLab.Yaml
