import ChainLab.Bytes.Hex

/-!
# JSON tokens

Text is cut into tokens by a machine that reads one byte at a time. Strings keep
their escapes and numbers their digits; what they mean is decided when they are
read as a value of some type.
-/

namespace ChainLab.Json

inductive Token where
  | openObject
  | closeObject
  | openArray
  | closeArray
  | colon
  | comma
  | null
  | bool (value : Bool)
  | number (lexeme : List UInt8)
  | string (body : List UInt8)
  deriving DecidableEq

def isBlank (b : UInt8) : Bool := b = 32 || b = 9 || b = 10 || b = 13

def isDigit (b : UInt8) : Bool := 48 ≤ b && b ≤ 57

/-- An exponent part, if there is one. -/
def isExponent : List UInt8 → Bool
  | [] => true
  | e :: rest =>
    let digits := match rest with
      | sign :: rest' => if sign = 43 || sign = 45 then rest' else rest
      | [] => []
    (e = 101 || e = 69) && !digits.isEmpty && digits.all isDigit

def isFraction : List UInt8 → Bool
  | 46 :: rest => (rest.head?.any isDigit) && isExponent (rest.dropWhile isDigit)
  | rest => isExponent rest

/-- A number without its sign: no leading zeros. -/
def isUnsigned : List UInt8 → Bool
  | 48 :: rest => isFraction rest
  | b :: rest => isDigit b && isFraction (rest.dropWhile isDigit)
  | [] => false

def isNumber : List UInt8 → Bool
  | 45 :: rest => isUnsigned rest
  | lexeme => isUnsigned lexeme

/-- The token spelled by a run of letters, digits, signs and points. -/
def Token.ofWord? (word : List UInt8) : Option Token :=
  if word = "null".toUTF8.toList then some .null
  else if word = "true".toUTF8.toList then some (.bool true)
  else if word = "false".toUTF8.toList then some (.bool false)
  else if isNumber word then some (.number word)
  else none

def isWordByte (b : UInt8) : Bool :=
  isDigit b || b = 43 || b = 45 || b = 46 || (97 ≤ b && b ≤ 122) || (65 ≤ b && b ≤ 90)

/-- Where the machine stands; the bytes read of an unfinished token come last first. -/
inductive Mode where
  | between
  | word (read : List UInt8)
  | string (read : List UInt8)
  | escape (read : List UInt8)
  | hex (missing : Nat) (read : List UInt8)

structure Lexer where
  mode : Mode
  /-- The tokens read so far, last first. -/
  tokens : List Token

namespace Lexer

/-- A byte outside of words and strings. -/
def begin (tokens : List Token) (b : UInt8) : Option Lexer :=
  if isBlank b then some ⟨.between, tokens⟩
  else if b = 34 then some ⟨.string [], tokens⟩
  else if isWordByte b then some ⟨.word [b], tokens⟩
  else if b = 123 then some ⟨.between, .openObject :: tokens⟩
  else if b = 125 then some ⟨.between, .closeObject :: tokens⟩
  else if b = 91 then some ⟨.between, .openArray :: tokens⟩
  else if b = 93 then some ⟨.between, .closeArray :: tokens⟩
  else if b = 58 then some ⟨.between, .colon :: tokens⟩
  else if b = 44 then some ⟨.between, .comma :: tokens⟩
  else none

def step (lexer : Lexer) (b : UInt8) : Option Lexer :=
  match lexer.mode with
  | .between => begin lexer.tokens b
  | .word read =>
    if isWordByte b then some { lexer with mode := .word (b :: read) }
    else (Token.ofWord? read.reverse).bind fun token => begin (token :: lexer.tokens) b
  | .string read =>
    if b = 34 then some ⟨.between, .string read.reverse :: lexer.tokens⟩
    else if b = 92 then some { lexer with mode := .escape (b :: read) }
    else if b < 32 then none
    else some { lexer with mode := .string (b :: read) }
  | .escape read =>
    if b = 117 then some { lexer with mode := .hex 4 (b :: read) }
    else if [34, 92, 47, 98, 102, 110, 114, 116].contains b then
      some { lexer with mode := .string (b :: read) }
    else none
  | .hex missing read =>
    if (Hex.digit? b).isNone then none
    else if missing ≤ 1 then some { lexer with mode := .string (b :: read) }
    else some { lexer with mode := .hex (missing - 1) (b :: read) }

/-- The tokens in order, unless a string is still open. -/
def finish? (lexer : Lexer) : Option (List Token) :=
  match lexer.mode with
  | .between => some lexer.tokens.reverse
  | .word read => (Token.ofWord? read.reverse).map fun token => (token :: lexer.tokens).reverse
  | _ => none

end Lexer

def tokens? (text : List UInt8) : Option (List Token) :=
  (text.foldlM Lexer.step ⟨.between, []⟩).bind Lexer.finish?

end ChainLab.Json
