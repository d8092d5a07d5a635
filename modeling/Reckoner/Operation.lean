import Reckoner.Failure

/-!
# Operators

Which operands an operator takes, and what it computes. Sums and differences want operands of one
kind and shape, a product scales by a scalar or multiplies a matrix into a vector or a matrix, a
quotient wants a scalar below and a power two scalars. The shapes are checked here, so the tensor
operations behind them never have to refuse.
-/

namespace Reckoner

/-- The binary operators that compute a value. -/
inductive Operator where
  | power
  | add
  | subtract
  | multiply
  | divide
  /-- Kept for later use: it has no rule yet. -/
  | reserved
deriving Repr, DecidableEq

namespace Operator

def ofText? : String → Option Operator
  | "^" => some power
  | "+" => some add
  | "-" => some subtract
  | "*" => some multiply
  | "/" => some divide
  | "//" => some reserved
  | _ => none

def text : Operator → String
  | power => "^"
  | add => "+"
  | subtract => "-"
  | multiply => "*"
  | divide => "/"
  | reserved => "//"

end Operator

def refuse {α : Type} (reason : InvalidOperation) : Except Failure α :=
  .error (.reported (.invalidOperation reason))

def onTensors (f : Tensor → Tensor → Except ShapeMismatch Tensor) (left right : Value) :
    Except Failure Value :=
  match f left.toTensor right.toTensor with
  | .error mismatch => .error (.shapes mismatch)
  | .ok t =>
    match t.toValue? with
    | some v => .ok v
    | none => .error (.rankTooHigh t.shape.length)

/-- Sums and differences, entry by entry on operands of one kind and shape. -/
def entrywise (f : Float → Float → Float) (action operator : String) (left right : Value) :
    Except Failure Value :=
  match left, right with
  | .scalar _, .scalar _ => onTensors (Tensor.pointwise f) left right
  | .vector xs, .vector ys =>
    if xs.length = ys.length then onTensors (Tensor.pointwise f) left right
    else refuse (.vectorSizes action)
  | .matrix m, .matrix n =>
    if m.width = n.width ∧ m.height = n.height then onTensors (Tensor.pointwise f) left right
    else refuse (.matrixSizes action)
  | _, _ => refuse (.kinds left.kind operator right.kind)

/-- Scaling by a scalar, a matrix times a vector, and a matrix times a matrix. -/
def multiply (left right : Value) : Except Failure Value :=
  match left, right with
  | .scalar _, _ => onTensors (Tensor.pointwise (· * ·)) left right
  | _, .scalar _ => onTensors (Tensor.pointwise (· * ·)) left right
  | .matrix m, .vector ys =>
    if m.width = ys.length then onTensors Tensor.product left right
    else refuse .matrixTimesVector
  | .matrix m, .matrix n =>
    if m.width = n.height then onTensors Tensor.product left right
    else refuse .matrixTimesMatrix
  | .vector _, _ => refuse (.kinds left.kind "*" right.kind)

def divide (left right : Value) : Except Failure Value :=
  match right with
  | .scalar _ => onTensors (Tensor.pointwise (· / ·)) left right
  | _ => refuse (.kinds left.kind "/" right.kind)

def raise (left right : Value) : Except Failure Value :=
  match left, right with
  | .scalar _, .scalar _ => onTensors (Tensor.pointwise Float.pow) left right
  | _, _ => refuse (.kinds left.kind "^" right.kind)

def Operator.apply (op : Operator) (left right : Value) : Except Failure Value :=
  match op with
  | power => raise left right
  | add => entrywise (· + ·) "adding" "+" left right
  | subtract => entrywise (· - ·) "subtracting" "-" left right
  | multiply => Reckoner.multiply left right
  | divide => Reckoner.divide left right
  | reserved => .error (.reported (.reservedOperator op.text))

/-- Applies the operator that a text names. -/
def operate (op : String) (left right : Value) : Except Failure Value :=
  match Operator.ofText? op with
  | some operator => operator.apply left right
  | none => .error (.reported (.unknownOperator op))

/-- The negative of a value is its product with -1. -/
def negate (v : Value) : Except Failure Value :=
  operate "*" v (.scalar (-1.0))

/-- Reading back the text of an operator gives the operator. -/
theorem Operator.ofText?_text (op : Operator) : Operator.ofText? op.text = some op := by
  cases op <;> rfl

end Reckoner
