import Reckoner.Failure

/-!
# Built-in functions

The functions that every session knows. They take scalars only. Angles are in degrees or radians,
as the session's mode says; `max` and `min` take any positive number of arguments, are not a
number as soon as one argument is not, and put the negative zero below the positive one.
-/

namespace Reckoner

/-- The unit of angles. -/
inductive TrigMode where
  | degrees
  | radians
deriving Repr, DecidableEq

namespace TrigMode

/-- The short name of a mode. -/
def text : TrigMode → String
  | degrees => "deg"
  | radians => "rad"

def ofText? : String → Option TrigMode
  | "deg" => some degrees
  | "rad" => some radians
  | _ => none

/-- The full name of a mode. -/
def title : TrigMode → String
  | degrees => "degrees"
  | radians => "radians"

end TrigMode

def pi : Float := 3.141592653589793

def euler : Float := 2.718281828459045

def TrigMode.toRadians (mode : TrigMode) (x : Float) : Float :=
  match mode with
  | degrees => x * (pi / 180)
  | radians => x

def TrigMode.ofRadians (mode : TrigMode) (x : Float) : Float :=
  match mode with
  | degrees => x * (180 / pi)
  | radians => x

/-- Is the number below the other one, where the negative zero is below the positive one? -/
def isBelow (x y : Float) : Bool :=
  x < y || (x == y && (Double.ofFloat x).isNegative && !(Double.ofFloat y).isNegative)

/-- The larger of two numbers, and no number if one of them is none. -/
def larger (x y : Float) : Float :=
  if x.isNaN then x else if y.isNaN then y else if isBelow x y then y else x

/-- The smaller of two numbers, and no number if one of them is none. -/
def smaller (x y : Float) : Float :=
  if x.isNaN then x else if y.isNaN then y else if isBelow y x then y else x

/-- What a built-in function computes. -/
inductive Builtin where
  /-- A function of one number. -/
  | single (f : TrigMode → Float → Float)
  /-- A way to combine one number or more, pair by pair from the left. -/
  | combine (f : Float → Float → Float)

namespace Builtin

def ofName? : String → Option Builtin
  | "sin" => some (single fun mode x => Float.sin (mode.toRadians x))
  | "cos" => some (single fun mode x => Float.cos (mode.toRadians x))
  | "tan" => some (single fun mode x => Float.tan (mode.toRadians x))
  | "asin" => some (single fun mode x => mode.ofRadians (Float.asin x))
  | "acos" => some (single fun mode x => mode.ofRadians (Float.acos x))
  | "atan" => some (single fun mode x => mode.ofRadians (Float.atan x))
  | "sqrt" => some (single fun _ x => Float.sqrt x)
  | "abs" => some (single fun _ x => Float.abs x)
  | "exp" => some (single fun _ x => Float.exp x)
  | "ln" => some (single fun _ x => Float.log x)
  | "log" => some (single fun _ x => Float.log10 x)
  | "floor" => some (single fun _ x => Float.floor x)
  | "ceil" => some (single fun _ x => Float.ceil x)
  | "max" => some (combine larger)
  | "min" => some (combine smaller)
  | _ => none

def accepts : Builtin → Nat → Bool
  | single _, count => count == 1
  | combine _, count => 1 ≤ count

/-- The value at some numbers. Without any it is zero, which no call asks for. -/
def compute (mode : TrigMode) : Builtin → List Float → Float
  | _, [] => 0
  | single f, x :: _ => f mode x
  | combine f, x :: xs => xs.foldl f x

end Builtin

/-- The numbers of arguments that are all scalars; the first one that is not is refused. -/
def scalarArguments (function : String) : List Value → Except Failure (List Float)
  | [] => .ok []
  | .scalar x :: rest => (scalarArguments function rest).map (x :: ·)
  | v :: _ => .error (.reported (.badFunctionArguments function v.kind))

/-- Calls the built-in function of a name: the name has to be known, then the number of arguments
has to be right, and then their kinds. -/
def callBuiltin (name : String) (args : List Value) (mode : TrigMode) : Except Failure Value :=
  match Builtin.ofName? name with
  | none => .error (.reported (.unknownIdentifier name))
  | some f =>
    if f.accepts args.length then
      (scalarArguments name args).map fun xs => .scalar (f.compute mode xs)
    else .error (.reported (.wrongArgumentCount 1 args.length))

end Reckoner
