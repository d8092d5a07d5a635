import Reckoner.Environment
import Reckoner.Expr
import Reckoner.Node.Parse
import Reckoner.Operation

/-!
# Evaluation

An expression computes a value, reads and writes the environment, or fails; what was written
before a failure stays. A call evaluates its arguments and runs the body of its function in a
frame, which shares the layers of its caller and is left afterwards by dropping its own layer.

`Expr.eval` goes down the expression and is told by `Calls` how calls are made. `Calls.nested` lets
calls nest to a given depth and fails with `runaway` beyond it, so an evaluation that runs away at
every depth is one that never stops calling. `evalTree` and `evalLine` evaluate with calls in
frames, nested at most `callLimit` deep.
-/

namespace Reckoner

/-- A computation in an environment, which keeps its changes also when it fails. -/
abbrev Eval := EStateM Failure Environment

/-- A computation that succeeds hands its value and its environment over to the next one. -/
theorem Eval.bind_of_ok {α β : Type} {m : Eval α} {f : α → Eval β} {env env₁ : Environment} {a : α}
    (h : m env = .ok a env₁) : (m >>= f) env = f a env₁ := by
  show EStateM.bind m f env = f a env₁
  rw [EStateM.bind, h]

/-- A computation that fails is the end of what it is a part of. -/
theorem Eval.bind_of_error {α β : Type} {m : Eval α} {f : α → Eval β} {env env₁ : Environment}
    {failure : Failure} (h : m env = .error failure env₁) :
    (m >>= f) env = .error failure env₁ := by
  show EStateM.bind m f env = .error failure env₁
  rw [EStateM.bind, h]

def report {α : Type} (error : CalcError) : Eval α :=
  throw (.reported error)

/-- How calls are made. -/
structure Calls where
  /-- The environment that a call made from another one gets. -/
  enter : Environment → Environment
  /-- The environment of the caller after a call, from the one before it and the one that the call
  ended in. -/
  leave : Environment → Environment → Environment
  /-- Runs the body of a function in the environment of its call. -/
  run : Node → Eval Value

/-- Runs a computation in the environment of a call. -/
def inside {α : Type} (calls : Calls) (m : Eval α) : Eval α := fun env =>
  match m (calls.enter env) with
  | .ok a callee => .ok a (calls.leave env callee)
  | .error failure callee => .error failure (calls.leave env callee)

/-! ## Lists in square brackets -/

/-- Puts the next element of a row into the column at `index`, which is a new one at the end. -/
def addElement (columns : List (List Float)) (index : Nat) (x : Float) : List (List Float) :=
  if index < columns.length then columns.modify index (· ++ [x]) else columns ++ [[x]]

/-- The value of the columns of a list: a single column is a vector, and so is none. -/
def valueOfColumns (columns : List (List Float)) : Except Failure Value :=
  if columns.any fun column => column.length ≠ heightOf columns then
    .error (.reported .unequalRowLengths)
  else match columns with
    | [] => .ok (.vector [])
    | [column] => .ok (.vector column)
    | _ => Value.ofColumns columns

def elementOf (v : Value) : Eval Float := do
  match v with
  | .scalar x => return x
  | _ => report (.invalidVectorContents (v.display (← get).cap))

/-! ## Expressions -/

def lookUp (name : String) : Eval Value := do
  match (← get).vars.find? name with
  | some v => return v
  | none => report (.unknownIdentifier name)

/-- Calls a function with its arguments from within the environment of the call. A function of the
user goes before a built-in one of the same name. -/
def applyFunction (calls : Calls) (name : String) (function? : Option Function)
    (args : List Value) : Eval Value := do
  match function? with
  | none => ofExcept (callBuiltin name args (← get).mode)
  | some f =>
    if f.params.length ≠ args.length then
      report (.wrongArgumentCount f.params.length args.length)
    else
      modify fun env => env.setVariables (f.params.zip args)
      calls.run f.body

mutual

def Expr.eval (calls : Calls) : Expr → Eval Value
  | .number text =>
    match Numeral.read? text with
    | some n => return .scalar n.toFloat
    | none => throw (.notNumeral text)
  | .name text => lookUp text
  | .nothing => return .scalar 0
  | .literal rows => do
    let columns ← evalRows calls [] rows
    ofExcept (valueOfColumns columns)
  | .negation operand => do
    let v ← operand.eval calls
    ofExcept (negate v)
  | .unknownUnary operator => report (.unknownOperator operator)
  | .call function args => do
    let caller ← get
    inside calls do
      let values ← evalAll calls args
      let function? := (calls.leave caller (← get)).functions.find? function
      applyFunction calls function function? values
  | .definition function params body => do
    modify fun env => env.define function ⟨params, body⟩
    return .scalar 0
  | .assignment target value => do
    let v ← value.eval calls
    modify fun env => env.setVariable target v
    return v
  | .misassignment value => do
    let _ ← value.eval calls
    report (.invalidOperation .assignmentTarget)
  | .operation operator left right => do
    let l ← left.eval calls
    let r ← right.eval calls
    ofExcept (operate operator l r)
  | .notApplicable left right => report (.notApplicable left right)
  | .malformed node => report (.malformed node)

/-- Evaluates expressions from left to right. -/
def evalAll (calls : Calls) : List Expr → Eval (List Value)
  | [] => return []
  | e :: rest => do
    let v ← e.eval calls
    return v :: (← evalAll calls rest)

/-- Evaluates the elements of a row from a column on and adds them to the columns. -/
def evalRow (calls : Calls) (columns : List (List Float)) (index : Nat) :
    List Expr → Eval (List (List Float))
  | [] => return columns
  | e :: rest => do
    let x ← elementOf (← e.eval calls)
    evalRow calls (addElement columns index x) (index + 1) rest

/-- Evaluates rows from top to bottom and adds them to the columns. -/
def evalRows (calls : Calls) (columns : List (List Float)) :
    List (List Expr) → Eval (List (List Float))
  | [] => return columns
  | row :: rest => do
    evalRows calls (← evalRow calls columns 0 row) rest

end

/-! ## Calls -/

/-- Calls in environments that are entered and left in a given way, nested at most `depth` deep. -/
def Calls.nested (enter : Environment → Environment)
    (leave : Environment → Environment → Environment) : Nat → Calls
  | 0 => ⟨enter, leave, fun _ => throw .runaway⟩
  | depth + 1 => ⟨enter, leave, fun body => body.meaning.eval (nested enter leave depth)⟩

/-- Calls in frames, nested at most `depth` deep. -/
def Calls.framed (depth : Nat) : Calls :=
  .nested Environment.frame Environment.leave depth

/-- Evaluates a tree with calls in frames, nested at most `depth` deep. -/
def evalWithin (depth : Nat) (tree : Node) : Eval Value :=
  tree.meaning.eval (.framed depth)

def callLimit : Nat := 1000

def evalTree (tree : Node) : Eval Value :=
  evalWithin callLimit tree

def evalLine (line : String) : Eval Value := do
  match parse line with
  | .ok tree => evalTree tree
  | .error bracket => report (.unbalanced bracket)

end Reckoner
