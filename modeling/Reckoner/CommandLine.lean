import Reckoner.Session

/-!
# The command line

The program takes lines to run as options, or holds a conversation on its standard input when
there are none. `Options.read?` reads the arguments; `runBatch` and `converse` say what is printed.

An argument that begins with a dash is an option, unless it is a lone dash, looks like a negative
number, or holds a blank and begins like no option. Long names may be cut short as long as one
name is meant, a value may be attached by an equals sign, and short options may share a dash.
-/

namespace Reckoner

/-- The options of the program. -/
inductive Flag where
  | command
  | digits
  | mode
  | invitation
  | verbose
  | help
deriving Repr, DecidableEq

structure Options where
  /-- The lines to run. -/
  lines : List String
  cap : Option DigitCap
  mode : Option TrigMode
  /-- What to print in front of every line of a conversation. -/
  invitation : String
  help : Bool

namespace Flag

def longNames : List (String × Flag) :=
  [("--command", command), ("--digits", digits), ("--mode", mode), ("--prompt", invitation),
   ("--verbose", verbose), ("--help", help)]

def ofLetter? : Char → Option Flag
  | 'c' => some command
  | 'v' => some verbose
  | 'h' => some help
  | _ => none

def ofName? (name : List Char) : Option Flag :=
  match name with
  | ['-', letter] => ofLetter? letter
  | _ => (longNames.find? fun (long, _) => long.toList == name).map Prod.snd

def needsValue : Flag → Bool
  | verbose => false
  | help => false
  | _ => true

end Flag

namespace Options

inductive Argument where
  /-- It may be the value of an option. -/
  | plain
  /-- An option, with the value attached to it. -/
  | option (flag : Flag) (attached : Option (List Char))
  /-- Short options behind one dash. -/
  | letters (first : Flag) (others : List Char)
  /-- It is an option, but not one of ours. -/
  | unknown
deriving Repr, DecidableEq

/-- Decimal digits of any script, one or more. -/
def isNumber (cs : List Char) : Bool :=
  !cs.isEmpty && cs.all fun c => (Text.decimalValue? c).isSome

/-- A text behind a dash that makes it a negative number: digits, perhaps with a point that digits
follow, and perhaps a line break at the end. -/
def isMagnitude (cs : List Char) : Bool :=
  let body := if cs.getLast? = some '\n' then cs.dropLast else cs
  let whole := body.takeWhile fun c => (Text.decimalValue? c).isSome
  match body.dropWhile fun c => (Text.decimalValue? c).isSome with
  | [] => !whole.isEmpty
  | '.' :: fraction => isNumber fraction
  | _ => false

/-- What stands before the first equals sign and what stands behind it. -/
def splitEquals (cs : List Char) : List Char × Option (List Char) :=
  let name := cs.takeWhile (· != '=')
  match cs.dropWhile (· != '=') with
  | _ :: value => (name, some value)
  | [] => (name, none)

def otherwise (cs : List Char) : Argument :=
  if isMagnitude (cs.drop 1) || cs.contains ' ' then .plain else .unknown

def classify (arg : String) : Argument :=
  let cs := arg.toList
  let (name, value) := splitEquals cs
  match cs with
  | '-' :: second :: others =>
    match Flag.ofName? cs, Flag.ofName? name with
    | some flag, _ => .option flag none
    | none, some flag => .option flag value
    | none, none =>
      if second = '-' then
        if others.isEmpty then .unknown
        else match Flag.longNames.filter fun (long, _) => name.isPrefixOf long.toList with
          | [(_, flag)] => .option flag value
          | [] => otherwise cs
          | _ => .unknown
      else match Flag.ofLetter? second with
        | some flag => .letters flag others
        | none => otherwise cs
  | _ => .plain

/-- Sets an option to a value, if it takes this value. -/
def set? (o : Options) (flag : Flag) (value : String) : Option Options :=
  match flag with
  | .command => some { o with lines := o.lines ++ [value] }
  | .digits =>
    match Whole.read value with
    | .ok n =>
      match (Datum.integer n).toDigitCap with
      | .ok cap => some { o with cap := some cap }
      | .error _ => none
    | .error _ => none
  | .mode => (TrigMode.ofText? value).map fun mode => { o with mode := some mode }
  | .invitation => some { o with invitation := value }
  | .verbose => none
  | .help => none

def switch (o : Options) (flag : Flag) : Options :=
  if flag = .help then { o with help := true } else o

/-- What short options behind one dash come to: the last one that takes a value takes the letters
behind it, or asks for the next argument when there are none. -/
def readLetters? (o : Options) (flag : Flag) : List Char → Option (Options × Option Flag)
  | [] => if flag.needsValue then some (o, some flag) else some (o.switch flag, none)
  | letter :: others =>
    if flag.needsValue then
      (o.set? flag (String.ofList (letter :: others))).map fun o => (o, none)
    else match Flag.ofLetter? letter with
      | some next => readLetters? (o.switch flag) next others
      | none => none

/-- Reads one argument. The result may ask for the next argument as a value. -/
def readArgument? (o : Options) (arg : String) : Option (Options × Option Flag) :=
  match classify arg with
  | .plain => none
  | .unknown => none
  | .option flag none => readLetters? o flag []
  | .option flag (some value) =>
    if flag.needsValue then (o.set? flag (String.ofList value)).map fun o => (o, none) else none
  | .letters flag others => readLetters? o flag others

/-- Reads arguments behind those that gave `o` and may have left an option to be given a value. -/
def readFrom? (o : Options) : Option Flag → List String → Option Options
  | none, [] => some o
  | some _, [] => none
  | some flag, arg :: rest =>
    match classify arg with
    | .plain =>
      match o.set? flag arg with
      | some o => readFrom? o none rest
      | none => none
    | _ => none
  | none, arg :: rest =>
    match o.readArgument? arg with
    | some (o, wanting) => readFrom? o wanting rest
    | none => none

/-- The options of a call without arguments. -/
def usual : Options := ⟨[], none, none, ": ", false⟩

def read? (args : List String) : Option Options :=
  readFrom? usual none args

def session (o : Options) : Session :=
  .start (.fresh [] (o.mode.getD .degrees) (o.cap.getD .standard))

end Options

/-! ## Running -/

/-- What is printed for an answer: a line, unless it is empty. -/
def printed (answer : String) : String :=
  if answer.isEmpty then "" else answer ++ "\n"

/-- Runs lines until one asks to leave. Gives what is printed, and whether a line was at fault. -/
def runBatch (s : Session) : List String → Except Failure (String × Bool)
  | [] => .ok ("", false)
  | line :: rest =>
    match s.runLine line with
    | (.error failure, _) => .error failure
    | (.ok answer, s') =>
      if s'.leaving then .ok (printed answer, s'.lastError.isSome)
      else match runBatch s' rest with
        | .error failure => .error failure
        | .ok (output, failed) => .ok (printed answer ++ output, s'.lastError.isSome || failed)

/-- One line of a conversation: what is printed for it, and the session that goes on behind it, if
it did not ask to leave. -/
def exchange (s : Session) (line : String) : Except Failure (String × Option Session) :=
  match s.runLine line with
  | (.error failure, _) => .error failure
  | (.ok answer, s') => .ok (printed answer, if s'.leaving then none else some s')

/-- Holds a conversation: every line is invited, and the end of the input ends a line of its
own. Gives what is printed. -/
def converse (invitation : String) (s : Session) : List String → Except Failure String
  | [] => .ok (invitation ++ "\n")
  | line :: rest =>
    match exchange s line with
    | .error failure => .error failure
    | .ok (text, none) => .ok (invitation ++ text)
    | .ok (text, some s') =>
      (converse invitation s' rest).map fun output => invitation ++ text ++ output

/-- The lines of an input of which `current` has been read, last character first. A line break at
the end ends the last line and begins none. -/
def linesFrom (current : List Char) : List Char → List String
  | [] => if current.isEmpty then [] else [String.ofList current.reverse]
  | c :: rest =>
    if c = '\n' then String.ofList current.reverse :: linesFrom [] rest
    else linesFrom (c :: current) rest

def linesOf (input : String) : List String :=
  linesFrom [] input.toList

def usage : String :=
  "usage: reckoner [-h] [-c COMMAND] [--digits DIGITS] [--mode deg|rad] [--prompt PROMPT] [-v]\n"

/-- Runs the program on its arguments and its input. Gives what is printed and the exit status. -/
def runProgram (args : List String) (input : String) : Except Failure (String × UInt32) :=
  match Options.read? args with
  | none => .ok ("", 2)
  | some o =>
    if o.help then .ok (usage, 0)
    else if o.lines.isEmpty then
      (converse o.invitation o.session (linesOf input)).map fun output => (output, 0)
    else
      (runBatch o.session o.lines).map fun (output, failed) => (output, if failed then 1 else 0)

end Reckoner
