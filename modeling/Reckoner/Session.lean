import Reckoner.Command
import Reckoner.Evaluation

/-!
# Sessions

A session runs line after line in one environment. Every line is answered by a text: nothing for
a blank line, a status for a command, the value on display for an expression, and the wording of
the error for a line that is at fault. A value becomes the last answer; a definition does not.
Failures that are not the line's fault are passed on to the caller.
-/

namespace Reckoner

/-- The state of a session between two lines. -/
structure Session where
  env : Environment
  /-- Has a line asked to leave? -/
  leaving : Bool
  /-- The error of the last line, if it had one. -/
  lastError : Option CalcError

inductive LineResult where
  | blank
  | command (reply : CommandReply)
  | defined
  | value (v : Value)

namespace Session

def start (env : Environment) : Session := ⟨env, false, none⟩

def runCommand (command : Command) : Eval LineResult := fun env =>
  match command.run env with
  | .ok (reply, env') => .ok (.command reply) env'
  | .error failure => .error failure env

/-- Evaluates a line of tokens. Its value becomes the last answer, unless it defines a function. -/
def runExpression (tokens : List Token) : Eval LineResult := do
  match buildTree tokens with
  | .error bracket => report (.unbalanced bracket)
  | .ok tree =>
    let v ← evalTree tree
    if tree.definesFunction then return .defined
    else
      modify fun env => env.setVariable answerName v
      return .value v

def runTokens (tokens : List Token) : Eval LineResult :=
  if tokens.isEmpty then pure .blank
  else match Command.ofTokens? tokens with
    | some command => runCommand command
    | none => runExpression tokens

def answer (env : Environment) : LineResult → String
  | .blank => ""
  | .command reply => if reply.leaves then "" else reply.status
  | .defined => "function defined"
  | .value v => v.display env.cap

def asksToLeave : LineResult → Bool
  | .command reply => reply.leaves
  | _ => false

def runLine (s : Session) (line : String) : Except Failure String × Session :=
  match runTokens (scan line) s.env with
  | .ok result env => (.ok (answer env result), ⟨env, s.leaving || asksToLeave result, none⟩)
  | .error (.reported error) env =>
    (.ok ("error: " ++ error.message), ⟨env, s.leaving, some error⟩)
  | .error failure env => (.error failure, ⟨env, s.leaving, none⟩)

end Session

end Reckoner
