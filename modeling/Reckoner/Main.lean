import Reckoner.CommandLine

/-!
# The program

Runs the lines given as options, or answers the lines of the standard input as they come.
-/

namespace Reckoner

/-- Tells of a failure that no line is to blame for. -/
def complain (failure : Failure) : IO UInt32 := do
  IO.eprintln ((failure.message?).getD "calls are nested too deeply")
  return 1

/-- Invites lines and answers them until one asks to leave or the input ends. -/
partial def talk (invitation : String) (s : Session) : IO UInt32 := do
  let out ← IO.getStdout
  out.putStr invitation
  out.flush
  let line ← (← IO.getStdin).getLine
  if line.isEmpty then
    out.putStr "\n"
    return 0
  let line := if line.endsWith "\n" then (line.dropEnd 1).toString else line
  match exchange s line with
  | .error failure => complain failure
  | .ok (text, next) =>
    out.putStr text
    match next with
    | none => return 0
    | some s' => talk invitation s'

end Reckoner

/-- The exit status is 0, 1 if a line given as an option was at fault, and 2 if the options are
not in order. -/
def main (args : List String) : IO UInt32 := do
  match Reckoner.Options.read? args with
  | none =>
    IO.eprint Reckoner.usage
    return 2
  | some o =>
    if o.help || !o.lines.isEmpty then
      match Reckoner.runProgram args "" with
      | .error failure => Reckoner.complain failure
      | .ok (output, status) =>
        IO.print output
        return status
    else Reckoner.talk o.invitation o.session
