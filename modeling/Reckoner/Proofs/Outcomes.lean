import Reckoner.Proofs.LineEffects

/-!
# Runs, and how to begin them anew

What the lines of a run come to, one after the other, depends on nothing but the environment that
the run begins in; that a line has asked to leave is handed on and looked at by nobody
(`Session.outcomes_leavingIf`). No line touches the seed (`Session.seed_runLines`), so a session
that is cleared goes on like a new one over the same seed, with the settings that were in force
(`clear_restarts`).
-/

namespace Reckoner

namespace Session

/-! ## Outcomes -/

/-- What the lines of a run come to: the answer to each line and the session after it. -/
def outcomes (s : Session) : List String → List (Except Failure String × Session)
  | [] => []
  | line :: rest => s.runLine line :: outcomes (s.runLine line).2 rest

/-- The session with a wish to leave, if there is one, on top of its own. -/
def leavingIf (leaving : Bool) (s : Session) : Session :=
  { s with leaving := leaving || s.leaving }

/-- A wish to leave that is there already stays, and changes nothing else. -/
theorem runLine_leavingIf (leaving : Bool) (s : Session) (line : String) :
    (s.leavingIf leaving).runLine line = (s.runLine line).map id (leavingIf leaving) := by
  rw [runLine, runLine, leavingIf]
  cases runTokens (scan line) s.env with
  | ok result env =>
    simp only [Prod.map, id, leavingIf, Bool.or_assoc]
  | error failure env => cases failure <;> rfl

theorem outcomes_leavingIf (leaving : Bool) (s : Session) (lines : List String) :
    (s.leavingIf leaving).outcomes lines
      = (s.outcomes lines).map (Prod.map id (leavingIf leaving)) := by
  induction lines generalizing s with
  | nil => rfl
  | cons line rest ih =>
    rw [outcomes, outcomes, runLine_leavingIf, List.map_cons]
    exact congrArg _ (ih (s.runLine line).2)

/-! ## The seed -/

theorem keeps_runExpression (tokens : List Token) :
    (runExpression tokens).Keeps (fun _ => True) fun _ => True := by
  unfold runExpression
  cases buildTree tokens with
  | error bracket => exact .report _
  | ok tree =>
    have htree := keeps_eval (framed_framed callLimit) tree
    refine .bind (htree.mono (fun _ _ => trivial) fun _ _ => trivial) fun v => ?_
    split
    · exact .pure _
    · exact .bind (.modify fun env => .setVariable trivial env v) fun _ => .pure _

theorem seed_of_run {command : Command} {env env' : Environment} {reply : CommandReply}
    (h : command.run env = .ok (reply, env')) : env'.seed = env.seed := by
  rcases Command.run_cases h with ⟨-, rfl⟩ | ⟨-, hsettings⟩
  · rfl
  · rw [hsettings]

/-- No line touches the seed, whatever it is and however it ends. -/
theorem seed_runLine (s : Session) (line : String) : (s.runLine line).2.env.seed = s.env.seed :=
  env_runLine_cases (P := fun env => env.seed = s.env.seed) rfl (fun hrun => seed_of_run hrun)
    (keeps_runExpression (scan line) s.env).seed

theorem seed_runLines (s : Session) (lines : List String) :
    (s.runLines lines).env.seed = s.env.seed := by
  induction lines generalizing s with
  | nil => rfl
  | cons line rest ih => exact (ih (s.runLine line).2).trans (s.seed_runLine line)

/-! ## Commands -/

theorem runLine_of_command {s : Session} {line : String} {command : Command} {reply : CommandReply}
    {env : Environment} (hline : Command.ofTokens? (scan line) = some command)
    (hrun : command.run s.env = .ok (reply, env)) :
    s.runLine line = (.ok (if reply.leaves then "" else reply.status),
      ⟨env, s.leaving || reply.leaves, none⟩) := by
  rw [runLine, runTokens_of_command hline, runCommand, hrun]
  rfl

/-- Clearing leaves the session of a fresh environment behind, but for a wish to leave. -/
theorem runLine_clear (s : Session) {line : String}
    (hline : Command.ofTokens? (scan line) = some .clear) :
    s.runLine line = (.ok "cleared variables and functions",
      (start (.fresh s.env.seed s.env.mode s.env.cap)).leavingIf s.leaving) := by
  rw [runLine_of_command hline rfl]
  rfl

end Session

theorem DigitCap.ofInt?_val (cap : DigitCap) : ofInt? cap.val = some cap := by
  have hrange : (0 : Int) ≤ cap.val ∧ (cap.val : Int) ≤ maxPlaces := by omega
  simp [ofInt?, hrange]

theorem Datum.toDigitCap_cap (cap : DigitCap) : (integer cap.val).toDigitCap = .ok cap := by
  rw [toDigitCap, DigitCap.ofInt?_val]

/-- The settings of a fresh environment can be given from outside. -/
theorem Environment.build_of_seedOf {data : List (String × Datum)} {seed : Layer Value}
    (hdata : seedOf data = .ok seed) (mode : TrigMode) (cap : DigitCap) :
    build data (some (.text mode.text)) (some (.integer cap.val))
      = .ok (fresh seed mode cap) := by
  have hmode : modeOf (.text mode.text) = .ok mode := by cases mode <;> rfl
  simp only [build, Option.elim_some, hmode, Datum.toDigitCap_cap, hdata]
  rfl

/-- **Clearing is a full restart.** However many lines a session has run over an environment, and
whatever became of them, when it is cleared it answers every further line, and is left after it,
like a new session over an environment that is built from the same seed with the settings then in
force. All that stays is the wish to leave. -/
theorem clear_restarts {s : Session} {data : List (String × Datum)}
    (hdata : Environment.seedOf data = .ok s.env.seed) (history : List String) {line : String}
    (hline : Command.ofTokens? (scan line) = some .clear) (lines : List String) :
    let before := s.runLines history
    let cleared := before.runLine line
    ∃ env, Environment.build data (some (.text before.env.mode.text))
        (some (.integer before.env.cap.val)) = .ok env ∧
      cleared = (.ok "cleared variables and functions",
        (Session.start env).leavingIf before.leaving) ∧
      cleared.2.outcomes lines = ((Session.start env).outcomes lines).map
        (Prod.map id (Session.leavingIf before.leaving)) := by
  intro before cleared
  have hseed : Environment.seedOf data = .ok before.env.seed := by
    rw [hdata, Session.seed_runLines]
  have hcleared := before.runLine_clear hline
  refine ⟨_, Environment.build_of_seedOf hseed _ _, hcleared, ?_⟩
  rw [show cleared = _ from hcleared]
  exact Session.outcomes_leavingIf _ _ lines

/-- A session over a variable `k` that has got the variable, a constant and a built-in function
other meanings, has stumbled, and has other settings when it is cleared. -/
theorem clear_restarts_after_redefinitions :
    let data : List (String × Datum) := [("k", .number 2)]
    let s := Session.start (.fresh [("k", .scalar 2)] .degrees .standard)
    let before := s.runLines ["k = 3", "pi = k", "sin(x) = x", "(e = 4) + z", "rad", "digits 4"]
    let cleared := before.runLine "clear"
    Environment.seedOf data = .ok s.env.seed ∧
      Command.ofTokens? (scan "clear") = some .clear ∧
      ∃ env, Environment.build data (some (.text before.env.mode.text))
          (some (.integer before.env.cap.val)) = .ok env ∧
        cleared = (.ok "cleared variables and functions",
          (Session.start env).leavingIf before.leaving) ∧
        cleared.2.outcomes ["k", "sin(90)", "z"]
          = ((Session.start env).outcomes ["k", "sin(90)", "z"]).map
            (Prod.map id (Session.leavingIf before.leaving)) := by
  intro data s before cleared
  have hdata : Environment.seedOf data = .ok s.env.seed := rfl
  have hline : Command.ofTokens? (scan "clear") = some .clear := by decide +kernel
  exact ⟨hdata, hline, clear_restarts hdata _ hline _⟩

end Reckoner
