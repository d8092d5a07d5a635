import Reckoner.Environment.Stack
import Reckoner.Proofs.Failures
import Reckoner.Proofs.Frame
import Reckoner.Session

/-!
# Sessions go on

A session answers every line that is no command, unless calls never end (`runLine_answers`). It can
stumble over a line of long ago: a body that was stored then runs now. So the invariant of a
session is that all stored bodies are readable (`Session.Reachable.readable`), and it has to
outlast lines that fail and steps that are taken on the environment from outside.
-/

namespace Reckoner

/-- The sessions that come about. One starts in a fresh environment and runs lines; in between its
environment is used from outside or a frame of it takes its place, and its flags are set. -/
inductive Session.Reachable : Session → Prop
  | start (seed : Layer Value) (mode : TrigMode) (cap : DigitCap) :
      Reachable (.start (.fresh seed mode cap))
  | line {s : Session} (line : String) : Reachable s → Reachable (s.runLine line).2
  | act {s : Session} (step : Environment.Step) :
      Reachable s → Reachable { s with env := (s.env.act step).2 }
  | frame {s : Session} : Reachable s → Reachable { s with env := s.env.frame }
  | flags {s : Session} (leaving : Bool) (lastError : Option CalcError) :
      Reachable s → Reachable { s with leaving := leaving, lastError := lastError }

/-! ## What a step does to the stored bodies -/

theorem eq_of_setCap {wanted status : String} {env env' : Environment}
    (h : Command.setCap wanted env = .ok (status, env')) : env' = { env with cap := env'.cap } := by
  unfold Command.setCap at h
  split at h
  · split at h
    · cases h
    · cases h
    · split at h
      · obtain ⟨-, rfl⟩ := Prod.mk.inj (Except.ok.inj h)
        rfl
      · obtain ⟨-, rfl⟩ := Prod.mk.inj (Except.ok.inj h)
        rfl
  · obtain ⟨-, rfl⟩ := Prod.mk.inj (Except.ok.inj h)
    rfl

/-- A command about digits sets the cap at most. -/
theorem Command.digits_run {wanted? : Option String} {env env' : Environment}
    {reply : CommandReply} (h : (digits wanted?).run env = .ok (reply, env')) :
    env' = { env with cap := env'.cap } ∧ reply.leaves = false := by
  cases wanted? with
  | none =>
    obtain ⟨rfl, rfl⟩ := Prod.mk.inj (Except.ok.inj h)
    exact ⟨rfl, rfl⟩
  | some wanted =>
    rw [run] at h
    cases hset : setCap wanted env with
    | error failure =>
      rw [hset] at h
      cases h
    | ok result =>
      rw [hset] at h
      obtain ⟨rfl, rfl⟩ := Prod.mk.inj (Except.ok.inj h)
      exact ⟨eq_of_setCap hset, rfl⟩

/-- A command forgets all variables and functions, or changes nothing but the settings. -/
theorem Command.run_cases {command : Command} {env env' : Environment} {reply : CommandReply}
    (h : command.run env = .ok (reply, env')) :
    command = .clear ∧ env' = env.reset
      ∨ command ≠ .clear ∧ env' = { env with mode := env'.mode, cap := env'.cap } := by
  cases command with
  | useMode | listBindings | leave =>
    obtain ⟨-, rfl⟩ := Prod.mk.inj (Except.ok.inj h)
    exact .inr ⟨nofun, rfl⟩
  | clear =>
    obtain ⟨-, rfl⟩ := Prod.mk.inj (Except.ok.inj h)
    exact .inl ⟨rfl, rfl⟩
  | digits wanted? =>
    have henv := (digits_run h).1
    exact .inr ⟨nofun, by rw [henv]⟩

theorem Environment.functions_of_store {name : String} {data : Datum} {env env' : Environment}
    (h : env.store name data = .ok env') : env'.functions = env.functions := by
  rw [store] at h
  cases hv : data.toValue (placeOf name) with
  | error failure =>
    rw [hv] at h
    cases h
  | ok v =>
    rw [hv] at h
    obtain rfl := Except.ok.inj h
    rfl

theorem Environment.functions_of_delete {name : String} {env env' : Environment}
    (h : env.delete name = .ok env') : env'.functions = env.functions := by
  rw [delete] at h
  split at h
  · obtain rfl := Except.ok.inj h
    rfl
  · cases h

theorem safe_evalLine (line : String) : (evalLine line).Safe := by
  unfold evalLine
  cases hparse : parse line with
  | ok tree => exact safe_evalWithin callLimit (readable_of_buildTree hparse)
  | error bracket => exact .report _

namespace Environment.Readable

variable {env : Environment}

theorem fresh (seed : Layer Value) (mode : TrigMode) (cap : DigitCap) :
    (Environment.fresh seed mode cap).Readable := by
  intro layer hlayer
  obtain rfl := List.mem_singleton.mp hlayer
  exact List.forall_mem_nil _

theorem of_functions_eq {env' : Environment} (henv : env.Readable)
    (h : env'.functions = env.functions) : env'.Readable := by
  rw [Environment.Readable, h]
  exact henv

theorem after {α : Type} {m : Eval α} (hm : m.Safe) (henv : env.Readable) :
    (m.after env).Readable := by
  have hsafe := hm env henv
  rw [Eval.after]
  cases h : m env with
  | ok a env' =>
    rw [h] at hsafe
    exact hsafe
  | error failure env' =>
    rw [h] at hsafe
    exact hsafe.2

theorem run {command : Command} {env' : Environment} {reply : CommandReply} (henv : env.Readable)
    (h : command.run env = .ok (reply, env')) : env'.Readable := by
  rcases Command.run_cases h with ⟨-, rfl⟩ | ⟨-, hsettings⟩
  · exact .fresh _ _ _
  · exact henv.of_functions_eq (by rw [hsettings])

theorem act (henv : env.Readable) (step : Environment.Step) : (env.act step).2.Readable := by
  cases step with
  | get | has | size | depth | vars | functions | push | drop | settings => exact henv
  | set name data =>
    rw [Environment.act]
    split
    · next env' hstore => exact henv.of_functions_eq (functions_of_store hstore)
    · exact henv
  | delete name =>
    rw [Environment.act]
    split
    · next env' hdelete => exact henv.of_functions_eq (functions_of_delete hdelete)
    · exact henv
  | take name =>
    rw [Environment.act]
    split
    · exact henv
    · split
      · next env' hdelete => exact henv.of_functions_eq (functions_of_delete hdelete)
      · exact henv
  | define name params body =>
    rw [Environment.act]
    split
    · exact henv
    · next tree hparse => exact henv.define name (readable_of_buildTree hparse)
  | find name =>
    rw [Environment.act]
    split <;> exact henv
  | eval line =>
    have hafter := henv.after (safe_evalLine line)
    rw [Eval.after] at hafter
    rw [Environment.act]
    split
    · next v env' heval =>
      rw [heval] at hafter
      exact hafter
    · next failure env' heval =>
      rw [heval] at hafter
      exact hafter
  | useMode mode =>
    rw [Environment.act]
    split <;> exact henv
  | useDigits cap =>
    rw [Environment.act]
    split <;> exact henv
  | reset => exact .fresh _ _ _

end Environment.Readable

namespace Session

theorem safe_runExpression (line : String) : (runExpression (scan line)).Safe := by
  unfold runExpression
  cases hbuild : buildTree (scan line) with
  | error bracket => exact .report _
  | ok tree =>
    refine .bind (safe_evalWithin callLimit (readable_of_buildTree hbuild)) fun v => ?_
    split
    · exact .pure _
    · exact .bind (.modify fun env henv => henv) fun _ => .pure _

theorem safe_runTokens {line : String} (hline : Command.ofTokens? (scan line) = none) :
    (runTokens (scan line)).Safe := by
  unfold runTokens
  split
  · exact .pure _
  · simp only [hline]
    exact safe_runExpression line

/-- A line leaves the environment behind that its tokens end in, also when they fail. -/
theorem env_runLine (s : Session) (line : String) :
    (s.runLine line).2.env = (runTokens (scan line)).after s.env := by
  rw [runLine, Eval.after]
  cases runTokens (scan line) s.env with
  | ok result env => rfl
  | error failure env => cases failure <;> rfl

theorem runTokens_of_command {tokens : List Token} {command : Command}
    (h : Command.ofTokens? tokens = some command) : runTokens tokens = runCommand command := by
  cases tokens with
  | nil => cases h
  | cons t rest =>
    rw [runTokens, h]
    rfl

/-- What holds of the environment of a session, of what a command makes of it and of what an
evaluation leaves behind holds after a line. -/
theorem env_runLine_cases {P : Environment → Prop} {s : Session} {line : String} (hblank : P s.env)
    (hcommand : ∀ {command reply env}, Command.run command s.env = .ok (reply, env) → P env)
    (hexpression : P ((runExpression (scan line)).after s.env)) : P (s.runLine line).2.env := by
  rw [env_runLine]
  cases hline : Command.ofTokens? (scan line) with
  | some command =>
    rw [runTokens_of_command hline, Eval.after, runCommand]
    cases hrun : command.run s.env with
    | error failure => exact hblank
    | ok result => exact hcommand hrun
  | none =>
    rw [runTokens]
    split
    · exact hblank
    · rw [hline]
      exact hexpression

/-- Whatever a line is, it leaves readable bodies behind. -/
theorem readable_runLine {s : Session} (hs : s.env.Readable) (line : String) :
    (s.runLine line).2.env.Readable :=
  env_runLine_cases hs (fun hrun => hs.run hrun) (hs.after (safe_runExpression line))

theorem Reachable.readable {s : Session} (h : s.Reachable) : s.env.Readable := by
  induction h with
  | start seed mode cap => exact .fresh seed mode cap
  | line line _ ih => exact readable_runLine ih line
  | act step _ ih => exact ih.act step
  | frame _ ih => exact ih.frame
  | flags _ _ _ ih => exact ih

end Session

/-! ## Lines -/

/-- **Every line is answered.** In any session that comes about, a line that is no command gets a
text, the wording of the error if it has one, unless calls never end. What counts as a number can be
read, and lists, operators and built-in functions are handed nothing that they could fail on. -/
theorem runLine_answers {s : Session} (hs : s.Reachable) {line : String}
    (hline : Command.ofTokens? (scan line) = none) :
    ((s.runLine line).1 = .error .runaway
        ∨ ∃ text, (s.runLine line).1 = .ok text ∧ ∀ error,
          (s.runLine line).2.lastError = some error → text = "error: " ++ error.message)
      ∧ (∀ t ∈ scan line, t.kind = .number → (Numeral.read? t.text).isSome)
      ∧ (∀ columns, Answers (∀ column ∈ columns, column.length = heightOf columns)
          (valueOfColumns columns))
      ∧ (∀ op left right, Answers
          (∃ operator, Operator.ofText? op = some operator ∧ operator.Fits left right)
          (operate op left right))
      ∧ ∀ name args mode, Answers (∀ v ∈ args, v.shape = []) (callBuiltin name args mode) := by
  refine ⟨?_, fun t ht => (Token.lexed_of_mem_scan ht).read?_isSome, answers_valueOfColumns,
    answers_operate, answers_callBuiltin⟩
  have hsafe := Session.safe_runTokens hline s.env hs.readable
  rw [Session.runLine]
  cases h : Session.runTokens (scan line) s.env with
  | ok result env => exact .inr ⟨_, rfl, fun _ hlast => by cases hlast⟩
  | error failure env =>
    rw [h] at hsafe
    rcases hsafe.1 with rfl | ⟨error, rfl⟩
    · exact .inl rfl
    · refine .inr ⟨_, rfl, fun last hlast => ?_⟩
      rw [Option.some.inj hlast]

theorem runLine_answers_call :
    let s := ((Session.start .standard).runLine "f(x) = x").2
    (s.runLine "f(2)").1 = .error .runaway
      ∨ ∃ text, (s.runLine "f(2)").1 = .ok text ∧ ∀ error,
        (s.runLine "f(2)").2.lastError = some error → text = "error: " ++ error.message := by
  have hline : Command.ofTokens? (scan "f(2)") = none := by decide +kernel
  exact (runLine_answers (.line "f(x) = x" (.start [] .degrees .standard)) hline).1

end Reckoner
