import Reckoner.Node.Brackets
import Reckoner.Text.Quoted
import Reckoner.Value

/-!
# What can be wrong with a line

The errors that the calculator reports to its user, each by its cause. `CalcError.sort` says which
of them a user has to tell apart, and `CalcError.message` has their wording.
-/

namespace Reckoner

inductive InvalidOperation where
  /-- No rule for operands of these kinds. -/
  | kinds (left : ValueKind) (operator : String) (right : ValueKind)
  | vectorSizes (action : String)
  | matrixSizes (action : String)
  | matrixTimesVector
  | matrixTimesMatrix
  /-- The left side of an assignment is no name. -/
  | assignmentTarget
deriving Repr, DecidableEq

inductive CalcError where
  | unbalanced (bracket : Unbalanced)
  | unknownIdentifier (name : String)
  | unknownOperator (operator : String)
  | invalidOperation (reason : InvalidOperation)
  /-- The operator is kept for later use. -/
  | reservedOperator (operator : String)
  /-- An element of a list in square brackets is itself a vector or a matrix. -/
  | invalidVectorContents (contents : String)
  | unequalRowLengths
  | wrongArgumentCount (expected given : Nat)
  | badFunctionArguments (function : String) (given : ValueKind)
  /-- Two nodes side by side of which the left one cannot be applied. -/
  | notApplicable (left right : Node)
  /-- A group that has no meaning. -/
  | malformed (node : Node)
deriving Repr

inductive ErrorSort where
  | unbalancedParenthesis
  | unbalancedBracket
  | unknownIdentifier
  | unknownOperator
  | invalidOperation
  | reservedOperator
  | invalidVectorContents
  | unequalRowLengths
  | wrongArgumentCount
  | badFunctionArguments
  /-- A group without a meaning, whatever is in it. -/
  | unknownShape
deriving Repr, DecidableEq

def CalcError.sort : CalcError → ErrorSort
  | unbalanced u => if u.token.isParenthesis then .unbalancedParenthesis else .unbalancedBracket
  | unknownIdentifier _ => .unknownIdentifier
  | unknownOperator _ => .unknownOperator
  | invalidOperation _ => .invalidOperation
  | reservedOperator _ => .reservedOperator
  | invalidVectorContents _ => .invalidVectorContents
  | unequalRowLengths => .unequalRowLengths
  | wrongArgumentCount _ _ => .wrongArgumentCount
  | badFunctionArguments _ _ => .badFunctionArguments
  | notApplicable _ _ => .unknownShape
  | malformed _ => .unknownShape

/-- Says what is wrong with a bracket; the span is left out where there is none. -/
def Unbalanced.message (u : Unbalanced) : String :=
  let text := Text.quoted u.token.text
  let complaint := match u.fault with
    | .unexpected => "unexpected closing " ++ text
    | .neverClosed => text ++ " is never closed"
  if u.token.start < 0 then complaint
  else complaint ++ " at span [" ++ toString u.token.start ++ ", " ++ toString u.token.stop ++ ")"

def InvalidOperation.message : InvalidOperation → String
  | kinds left operator right => left.text ++ " " ++ operator ++ " " ++ right.text
  | vectorSizes action => action ++ " vectors with different size"
  | matrixSizes action => action ++ " matrices with different size"
  | matrixTimesVector => "matrix width does not match vector height"
  | matrixTimesMatrix => "matrix1 width does not match matrix2 height"
  | assignmentTarget => "invalid variable name"

def CalcError.message : CalcError → String
  | unbalanced u => u.message
  | unknownIdentifier name => "unknown identifier: " ++ name
  | unknownOperator operator => "operator '" ++ operator ++ "' does not exist"
  | invalidOperation reason => "invalid operation: " ++ reason.message
  | reservedOperator operator =>
    "invalid operation: operator '" ++ operator ++ "' is reserved and not implemented"
  | invalidVectorContents contents => "cannot contain '" ++ contents ++ "' in vector"
  | unequalRowLengths => "matrix row lengths are unequal"
  | wrongArgumentCount expected given =>
    "called function requiring " ++ toString expected ++ " params with " ++ toString given ++ " args"
  | badFunctionArguments function given =>
    "bad arguments for " ++ function ++ ": expected scalar, got " ++ given.text
  | notApplicable left right =>
    "could not parse expression: left: " ++ left.flat ++ "; right: " ++ right.flat ++ ";"
  | malformed node => "could not parse expression: " ++ node.flat

end Reckoner
