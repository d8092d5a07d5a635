import Reckoner.Evaluation

/-!
# Stacks of environments

Environments can be used without a session, from the outside: a stack of them starts with one, a
frame of the top is pushed and dropped again, and every other step reads or changes the top. A
step that fails says why; of the failing steps only an evaluation can have changed anything.
-/

namespace Reckoner

namespace Environment

/-- A step on a stack of environments. -/
inductive Step where
  | get (name : String)
  | set (name : String) (data : Datum)
  | delete (name : String)
  | has (name : String)
  /-- Reads a variable, then deletes it. -/
  | take (name : String)
  | size
  | depth
  | vars
  | functions
  | push
  | drop
  | define (name : String) (params : List String) (body : String)
  | find (name : String)
  | eval (line : String)
  | useMode (mode : Datum)
  | useDigits (cap : Datum)
  | settings
  | reset

inductive StepAnswer where
  | nothing
  | value (v : Value)
  | truth (b : Bool)
  | count (n : Nat)
  | vars (bindings : List (String × Value))
  | functions (bindings : List (String × Function))
  | function (f : Function)
  | mode (mode : TrigMode)
  | cap (cap : DigitCap)
  | settings (mode : TrigMode) (cap : DigitCap)

/-- A step on the top environment, which is left as it was when the step fails before anything
was changed. -/
def act (env : Environment) : Step → Except Failure StepAnswer × Environment
  | .get name => ((env.get name).map .value, env)
  | .set name data =>
    match env.store name data with
    | .ok env' => (.ok .nothing, env')
    | .error failure => (.error failure, env)
  | .delete name =>
    match env.delete name with
    | .ok env' => (.ok .nothing, env')
    | .error failure => (.error failure, env)
  | .has name => (.ok (.truth (env.vars.find? name).isSome), env)
  | .take name =>
    match env.get name with
    | .error failure => (.error failure, env)
    | .ok v =>
      match env.delete name with
      | .ok env' => (.ok (.value v), env')
      | .error failure => (.error failure, env)
  | .size => (.ok (.count env.vars.size), env)
  | .depth => (.ok (.count env.depth), env)
  | .vars => (.ok (.vars env.ownVariables), env)
  | .functions => (.ok (.functions env.functions.sorted), env)
  | .define name params body =>
    match parse body with
    | .error bracket => (.error (.reported (.unbalanced bracket)), env)
    | .ok tree => (.ok (.function ⟨params, tree⟩), env.define name ⟨params, tree⟩)
  | .find name =>
    match env.functions.find? name with
    | some f => (.ok (.function f), env)
    | none => (.ok .nothing, env)
  | .eval line =>
    match evalLine line env with
    | .ok v env' => (.ok (.value v), env')
    | .error failure env' => (.error failure, env')
  | .useMode mode =>
    match modeOf mode with
    | .ok m => (.ok (.mode m), { env with mode := m })
    | .error failure => (.error failure, env)
  | .useDigits cap =>
    match cap.toDigitCap with
    | .ok c => (.ok (.cap c), { env with cap := c })
    | .error failure => (.error failure, env)
  | .settings => (.ok (.settings env.mode env.cap), env)
  | .reset => (.ok .nothing, env.reset)
  | .push => (.ok .nothing, env)
  | .drop => (.ok .nothing, env)

def step (stack : List Environment) (s : Step) :
    Except Failure StepAnswer × List Environment :=
  match stack with
  | [] => (.error .noEnvironment, [])
  | top :: rest =>
    match s with
    | .push => (.ok (.count (rest.length + 2)), top.frame :: top :: rest)
    | .drop => (.ok (.count rest.length), rest)
    | other =>
      let (answer, top') := top.act other
      (answer, top' :: rest)

end Environment

end Reckoner
