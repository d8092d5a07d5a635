import Reckoner.Environment

/-!
# Commands

A line that consists of a keyword, and for one keyword at most one more token, is a command to the
session: it looks at the settings or changes them and is not evaluated. Any other line is an
expression, so the keywords stay usable as names inside longer lines.
-/

namespace Reckoner

inductive Command where
  | useMode (mode : TrigMode)
  /-- Shows the cap on digits, or sets it to what the text says. -/
  | digits (wanted : Option String)
  | clear
  | listBindings
  | leave
deriving Repr, DecidableEq

structure CommandReply where
  status : String
  /-- Should the session end? -/
  leaves : Bool
deriving Repr, DecidableEq

namespace Command

/-- The command of a keyword and the texts behind it. -/
def ofWords? : String → List String → Option Command
  | "deg", [] => some (useMode .degrees)
  | "degrees", [] => some (useMode .degrees)
  | "rad", [] => some (useMode .radians)
  | "radians", [] => some (useMode .radians)
  | "digits", [] => some (digits none)
  | "digits", [wanted] => some (digits (some wanted))
  | "clear", [] => some clear
  | "vars", [] => some listBindings
  | "exit", [] => some leave
  | "quit", [] => some leave
  | _, _ => none

/-- The command that a row of tokens is, if it begins with a name and is one. -/
def ofTokens? : List Token → Option Command
  | [] => none
  | t :: rest => if t.kind = .name then ofWords? t.text (rest.map Token.text) else none

/-- A text of one digit or more. -/
def isDigits (text : String) : Bool :=
  !text.isEmpty && text.toList.all Text.isDigit

def capStatus (env : Environment) : String :=
  "digits: " ++ toString env.cap.val

def capRefusal (wanted : String) : String :=
  "digits expects a whole number in 0.." ++ toString maxPlaces ++ ", got " ++ Text.quoted wanted

/-- Sets the cap to what a text says. A text that is not made of digits, or says too much, changes
nothing; digits that cannot stand in a numeral are a failure. -/
def setCap (wanted : String) (env : Environment) : Except Failure (String × Environment) :=
  if isDigits wanted then
    match Whole.read wanted with
    | .error .malformed => .error (.notWhole wanted)
    | .error (.tooManyDigits count) => .error (.tooManyDigits count)
    | .ok n =>
      match DigitCap.ofInt? n with
      | some cap =>
        let env := { env with cap := cap }
        .ok (capStatus env, env)
      | none => .ok (capRefusal wanted, env)
  else .ok (capRefusal wanted, env)

/-- The visible variables and functions, a line for each. -/
def listing (env : Environment) : String :=
  let vars := env.vars.sorted.map fun (name, v) => name ++ " = " ++ v.display env.cap
  let functions := env.functions.sorted.map fun (name, f) =>
    name ++ "(" ++ ", ".intercalate f.params ++ ") = " ++ f.body.flat
  "\n".intercalate (vars ++ functions)

def run (command : Command) (env : Environment) :
    Except Failure (CommandReply × Environment) :=
  match command with
  | useMode mode => .ok (⟨"trig mode: " ++ mode.title, false⟩, { env with mode := mode })
  | digits none => .ok (⟨capStatus env, false⟩, env)
  | digits (some wanted) =>
    (setCap wanted env).map fun (status, env) => (⟨status, false⟩, env)
  | clear => .ok (⟨"cleared variables and functions", false⟩, env.reset)
  | listBindings => .ok (⟨listing env, false⟩, env)
  | leave => .ok (⟨"exit", true⟩, env)

end Command

end Reckoner
