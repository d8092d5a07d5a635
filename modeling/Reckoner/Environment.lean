import Reckoner.Builtin
import Reckoner.Node.Arrange
import Reckoner.Scope
import Reckoner.Value.Datum

/-!
# Environments

What a line is evaluated in: the variables and the functions that are visible, each in layers, the
unit of angles and the cap on displayed digits. A call runs in a frame, which is the environment
with an empty layer on top: it reads everything and writes only there. The seed is what the
variables go back to when the environment is reset.
-/

namespace Reckoner

structure Function where
  params : List String
  body : Node
deriving Repr

/-- The state that evaluation reads and writes. -/
structure Environment where
  vars : Scope Value
  functions : Scope Function
  mode : TrigMode
  cap : DigitCap
  /-- The variables to begin with, besides the constants. -/
  seed : Layer Value

/-- The constants, which are variables like any other. -/
def constants : Layer Value :=
  [("pi", .scalar pi), ("PI", .scalar pi), ("e", .scalar euler), ("E", .scalar euler)]

/-- The variables of a fresh environment: the constants, and zero for the last answer. -/
def initialVariables : Layer Value :=
  constants ++ [(answerName, .scalar 0)]

namespace Environment

/-- The variables that an environment begins with. A seed goes over the constants. -/
def startOf (seed : Layer Value) : Layer Value :=
  seed.foldl (fun layer binding => layer.set binding.1 binding.2) initialVariables

def fresh (seed : Layer Value) (mode : TrigMode) (cap : DigitCap) : Environment where
  vars := .ofLayer (startOf seed)
  functions := .ofLayer []
  mode := mode
  cap := cap
  seed := seed

/-- The environment of a session without settings of its own. -/
def standard : Environment := fresh [] .degrees .standard

/-- Forgets every binding but those to begin with; the settings stay. -/
def reset (env : Environment) : Environment :=
  fresh env.seed env.mode env.cap

/-- The environment that a call runs in. -/
def frame (env : Environment) : Environment :=
  { env with vars := env.vars.enter, functions := env.functions.enter }

/-- The environment of a caller after a call that ended in the environment `callee`. Its layers are
those around the layer of the call, whatever the call did to them. -/
def leave (caller callee : Environment) : Environment :=
  { caller with vars := callee.vars.leave, functions := callee.functions.leave }

/-- Leaving a frame gives the caller back if its layers are still the ones around the frame. -/
theorem leave_eq_of_outer {caller callee : Environment}
    (hvars : callee.vars.outer = caller.vars.layers)
    (hfunctions : callee.functions.outer = caller.functions.layers) :
    caller.leave callee = caller := by
  have hleaveVars : callee.vars.leave = caller.vars := by
    rw [Scope.leave, hvars]
    rfl
  have hleaveFunctions : callee.functions.leave = caller.functions := by
    rw [Scope.leave, hfunctions]
    rfl
  rw [leave, hleaveVars, hleaveFunctions]

def depth (env : Environment) : Nat := env.vars.depth

def setVariable (env : Environment) (name : String) (v : Value) : Environment :=
  { env with vars := env.vars.set name v }

/-- Gives variables their values, one after the other. -/
def setVariables (env : Environment) (bindings : List (String × Value)) : Environment :=
  bindings.foldl (fun env binding => env.setVariable binding.1 binding.2) env

def define (env : Environment) (name : String) (f : Function) : Environment :=
  { env with functions := env.functions.set name f }

/-- The place that messages name for a variable. -/
def placeOf (name : String) : String :=
  "env[" ++ Text.quoted name ++ "]"

def get (env : Environment) (name : String) : Except Failure Value :=
  match env.vars.find? name with
  | some v => .ok v
  | none => .error (.missingName name)

/-- Gives a variable the value of a piece of data. -/
def store (env : Environment) (name : String) (d : Datum) : Except Failure Environment :=
  (d.toValue (placeOf name)).map (env.setVariable name)

/-- Deletes a variable, which has to be bound in the innermost layer. -/
def delete (env : Environment) (name : String) : Except Failure Environment :=
  match env.vars.inner.find? name with
  | some _ => .ok { env with vars := env.vars.erase name }
  | none => .error (.notInnermost name)

/-- The visible variables that the user has to do with: the constants appear once they have been
changed. -/
def ownVariables (env : Environment) : List (String × Value) :=
  env.vars.sorted.filter fun binding => constants.find? binding.1 ≠ some binding.2

def seedOf : List (String × Datum) → Except Failure (Layer Value)
  | [] => .ok []
  | (name, d) :: rest => do
    let v ← d.toValue (placeOf name)
    return (name, v) :: (← seedOf rest)

def modeOf (d : Datum) : Except Failure TrigMode :=
  match d with
  | .text s =>
    match TrigMode.ofText? s with
    | some mode => .ok mode
    | none => .error (.badTrigMode d.quoted)
  | _ => .error (.badTrigMode d.quoted)

/-- An environment with settings from outside, where `none` stands for the usual one. The unit of
angles is looked at first, then the cap, then the seed in order. -/
def build (seed : List (String × Datum)) (mode cap : Option Datum) :
    Except Failure Environment := do
  let mode ← mode.elim (.ok .degrees) modeOf
  let cap ← cap.elim (.ok .standard) Datum.toDigitCap
  return fresh (← seedOf seed) mode cap

end Environment

end Reckoner
