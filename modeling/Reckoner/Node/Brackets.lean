import Reckoner.Node

/-!
# Resolving brackets

Parentheses and square brackets become groups. `resolve` reads the tokens once and keeps the open
brackets on a stack, each with the nodes that stood before it. It stops at the first closing
bracket that does not fit the innermost open one; at the end of the line the innermost open
bracket is at fault. Braces are leaves like any other.
-/

namespace Reckoner

inductive BracketFault where
  | unexpected
  | neverClosed
deriving Repr, DecidableEq

structure Unbalanced where
  fault : BracketFault
  token : Token
deriving Repr, DecidableEq

/-- The sort of the bracket that closes an opening one. -/
def TokenKind.closer? : TokenKind → Option TokenKind
  | leftParen => some rightParen
  | leftBracket => some rightBracket
  | _ => none

def TokenKind.isCloser (kind : TokenKind) : Bool :=
  kind == rightParen || kind == rightBracket

def bracketGroup (opener : Token) (contents : List Node) : Node :=
  if opener.kind == .leftBracket then .group (.leaf opener :: contents) else .group contents

/-- The brackets that are open, innermost first, each with the nodes before it, last first. -/
abbrev OpenBrackets := List (Token × List Node)

/-- Reads tokens into the innermost open bracket, whose nodes so far are `current`, last first. -/
def resolveInto (stack : OpenBrackets) (current : List Node) :
    List Token → Except Unbalanced (List Node)
  | [] =>
    match stack with
    | [] => .ok current.reverse
    | (opener, _) :: _ => .error ⟨.neverClosed, opener⟩
  | t :: rest =>
    if t.kind.closer?.isSome then resolveInto ((t, current) :: stack) [] rest
    else if t.kind.isCloser then
      match stack with
      | [] => .error ⟨.unexpected, t⟩
      | (opener, before) :: outer =>
        if opener.kind.closer? = some t.kind then
          resolveInto outer (bracketGroup opener current.reverse :: before) rest
        else .error ⟨.unexpected, t⟩
    else resolveInto stack (.leaf t :: current) rest

def resolve (tokens : List Token) : Except Unbalanced (List Node) :=
  resolveInto [] [] tokens

end Reckoner
