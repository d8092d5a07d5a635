import Reckoner.Node

/-!
# Arranging nodes by precedence

Once brackets are groups, the order of operations is settled row by row, in every group from the
inside out:

- a line that begins with a binary operator continues the last answer (`continueAnswer`);
- operands side by side apply the left one to the right one (`pairOperands`);
- an operator in front of an operand binds it (`wrapUnary`);
- binary operators bind their neighbours, tier by tier and each tier from the left (`foldTiers`).

Whatever fits none of this stays where it is, and is refused when it is evaluated.
-/

namespace Reckoner

/-- The binary operators, those that bind tightest first. Both assignments share the last tier. -/
def operatorTiers : List (List String) :=
  [["^"], ["*", "/", "//"], ["+", "-"], ["=>", "="]]

/-- The operators that store a value under a name. -/
def assignmentOperators : List String := ["=>", "="]

def unaryOperators : List String := ["-", "&", "!"]

def answerName : String := "ans"

/-! ## The last answer -/

/-- Does the line go on from the last answer? It does when it begins with an operator that can
only be binary. -/
def continuesAnswer (first : Node) : Bool :=
  first.isOperatorIn operatorTiers.flatten && !first.isOperatorIn unaryOperators

/-- Puts the last answer in front of a line that goes on from it. Its token is empty and stands
where the operator begins. -/
def continueAnswer : List Node → List Node
  | .leaf t :: rest =>
    if continuesAnswer (.leaf t) then
      .leaf ⟨.name, answerName, t.start, t.start⟩ :: .leaf t :: rest
    else .leaf t :: rest
  | nodes => nodes

/-! ## Application -/

/-- Pairs `current` with the operands behind it, and so on through the row. -/
def pairFrom (current : Node) : List Node → List Node
  | [] => [current]
  | next :: rest =>
    if current.isOperand && next.isOperand then pairFrom (.group [current, next]) rest
    else current :: pairFrom next rest

/-- Pairs operands that stand side by side; the pair is an operand again, so three of them make
a pair of a pair. -/
def pairOperands : List Node → List Node
  | [] => []
  | first :: rest => pairFrom first rest

/-! ## Unary operators -/

/-- May an operator behind `previous` be unary? It may at the beginning of a row and behind an
operator, a separator or the bracket that opens a list. -/
def opensOperand : Option Node → Bool
  | none => true
  | some (.leaf t) =>
    t.kind == .operator || t.kind == .comma || t.kind == .semicolon || t.kind == .leftBracket
  | some (.group _) => false

/-- Wraps the unary operators of a row that stands behind `previous`, the last one first. -/
def wrapFrom (previous : Option Node) : List Node → List Node
  | [] => []
  | node :: rest =>
    let wrapped := wrapFrom (some node) rest
    if node.isOperatorIn unaryOperators && opensOperand previous then
      match wrapped with
      | operand :: behind => .group [node, operand] :: behind
      | [] => [node]
    else node :: wrapped

/-- Groups every unary operator with its operand. Going from right to left, a row of them
nests. -/
def wrapUnary (nodes : List Node) : List Node :=
  wrapFrom none nodes

/-! ## Binary operators -/

/-- Folds the operators of one tier in a row that begins with `left`. -/
def foldFrom (tier : List String) (left : Node) : List Node → List Node
  | op :: right :: rest =>
    if op.isOperatorIn tier && left.isOperand && right.isOperand then
      foldFrom tier (.group [left, op, right]) rest
    else left :: foldFrom tier op (right :: rest)
  | [last] => [left, last]
  | [] => [left]

/-- Groups each operator of one tier with the operands at its sides, from left to right. -/
def foldTier (tier : List String) : List Node → List Node
  | [] => []
  | first :: rest => foldFrom tier first rest

/-- Groups the binary operators of a row, tier by tier. -/
def foldTiers (nodes : List Node) : List Node :=
  operatorTiers.foldl (fun row tier => foldTier tier row) nodes

/-! ## The whole line -/

/-- The nodes of a line with operands paired and unary operators wrapped. -/
def normalize (nodes : List Node) : List Node :=
  everywhere wrapUnary (everywhere pairOperands (continueAnswer nodes))

def foldTree (nodes : List Node) : Node :=
  .group (everywhere foldTiers nodes)

end Reckoner
