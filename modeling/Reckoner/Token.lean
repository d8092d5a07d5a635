import Reckoner.Number.Numeral
import Reckoner.Text.Alphanumeric

/-!
# Tokens

A line of the calculator is a row of tokens: brackets of three sorts, separators, numbers, names
and operators. Every token keeps its text and the span of the line that it was read from, counted
in characters.
-/

namespace Reckoner

inductive TokenKind where
  | leftParen
  | rightParen
  | leftBracket
  | rightBracket
  | leftBrace
  | rightBrace
  | comma
  | semicolon
  | operator
  | number
  | name
deriving Repr, DecidableEq

/-- A piece of a line: its sort, its text and its span `[start, stop)`. -/
structure Token where
  kind : TokenKind
  text : String
  start : Int
  stop : Int
deriving Repr, DecidableEq

/-- What a single character contributes to a line. -/
inductive CharClass where
  | blank
  | bracket (kind : TokenKind)
  | word
  | symbol
deriving Repr, DecidableEq

def bracketKind? : Char → Option TokenKind
  | '(' => some .leftParen
  | ')' => some .rightParen
  | '[' => some .leftBracket
  | ']' => some .rightBracket
  | '\x7b' => some .leftBrace
  | '\x7d' => some .rightBrace
  | _ => none

/-- Words are made of letters, digits and points. -/
def isWordChar (c : Char) : Bool :=
  Text.isAlphanumeric c || c == '.'

def CharClass.of (c : Char) : CharClass :=
  if Text.isBlank c then .blank
  else match bracketKind? c with
    | some kind => .bracket kind
    | none => if isWordChar c then .word else .symbol

namespace Token

/-- The sort of the text `c :: cs`: a bracket stands alone; what begins like a word is a number
if it is a numeral, and a name if not; a comma or a semicolon alone separates; everything else is
an operator. -/
def kindOf (c : Char) (cs : List Char) : TokenKind :=
  match cs, bracketKind? c with
  | [], some kind => kind
  | _, _ =>
    if isWordChar c then
      if (Numeral.read? (String.ofList (c :: cs))).isSome then .number else .name
    else match c, cs with
      | ',', [] => .comma
      | ';', [] => .semicolon
      | _, _ => .operator

def ofChars (c : Char) (cs : List Char) (start : Int) : Token where
  kind := kindOf c cs
  text := String.ofList (c :: cs)
  start := start
  stop := start + (cs.length + 1 : Nat)

def ofText? (text : String) (start : Int) : Option Token :=
  match text.toList with
  | [] => none
  | c :: cs => some (ofChars c cs start)

def isParenthesis (t : Token) : Bool :=
  t.kind == .leftParen || t.kind == .rightParen

end Token

end Reckoner
