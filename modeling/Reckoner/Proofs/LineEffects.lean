import Reckoner.Proofs.Definitions
import Reckoner.Proofs.Sessions

/-!
# What a line does to its session

A line is blank, a command, or an expression, which has unbalanced brackets, fails, defines a
function or comes to a value. `LineEffect` says for each of them how the line is answered, what
happens to the variables and functions, and which error is kept; `runLine_effect` says that every
line of a session that is answered is one of them.

Whether a line defines a function is looked at after it has been evaluated, and apart from it. The
two agree because variables have names (`definition_of_definesFunction`): a list in square brackets
that looks like a definition would have to find its operator among the variables.
-/

namespace Reckoner

/-! ## Definitions -/

theorem not_isName_arrow : ¬IsName "=>" := by
  rintro ⟨t, hscan, hk⟩
  have hkinds : (scan "=>").map Token.kind = [.operator] := by decide +kernel
  rw [hscan, List.map_singleton, hk] at hkinds
  cases hkinds

/-- A tree that is told to define a function does so, if it has a value at all. -/
theorem definition_of_definesFunction {calls : Calls} {tree : Node}
    (hdefines : tree.definesFunction = true) {env env' : Environment} {v : Value}
    (henv : env.Named) (h : tree.meaning.eval calls env = .ok v env') :
    ∃ function params body, tree.meaning = .definition function params body := by
  obtain ⟨function, f, hlook⟩ := Node.definesFunction_iff.mp hdefines
  by_cases hlist : tree.unwrapped.ListsArrow
  · obtain ⟨w, hw⟩ := bound_of_eval_listsArrow hlist h
    exact absurd (henv "=>" (hw ▸ Option.some_ne_none w)) not_isName_arrow
  · exact ⟨function, f.params, f.body,
      tree.meaning_unwrapped ▸ Node.meaning_of_definition? hlook hlist⟩

/-! ## Environments of sessions -/

/-- What lines keep up: variables have names, in the seed as well, and those to begin with stay. -/
structure Environment.Regular (env : Environment) : Prop where
  named : env.Named
  seed : ∀ name ∈ env.seed.names, IsName name
  initial : ∀ name ∈ initialVariables.names, ∃ v, env.vars.find? name = some v

namespace Environment.Regular

variable {env env' : Environment}

theorem fresh {seed : Layer Value} (hseed : ∀ name ∈ seed.names, IsName name) (mode : TrigMode)
    (cap : DigitCap) : (Environment.fresh seed mode cap).Regular where
  named := named_fresh hseed mode cap
  seed := hseed
  initial name hname := by
    rw [Environment.fresh, Scope.find?_ofLayer]
    exact Layer.mem_names_iff.mp (mem_names_startOf.mpr (.inl hname))

theorem of_changesOnly {vars functions : String → Prop} (h : env.Regular)
    (hchanges : env.ChangesOnly vars functions env') (hvars : ∀ name, vars name → IsName name) :
    env'.Regular where
  named := hchanges.named hvars h.named
  seed := hchanges.seed ▸ h.seed
  initial name hname := hchanges.vars.bound (h.initial name hname)

theorem run {command : Command} {reply : CommandReply} (h : env.Regular)
    (hrun : command.run env = .ok (reply, env')) : env'.Regular := by
  rcases Command.run_cases hrun with ⟨-, rfl⟩ | ⟨-, hsettings⟩
  · exact fresh h.seed _ _
  · rw [hsettings]
    exact ⟨h.named, h.seed, h.initial⟩

end Environment.Regular

/-! ## Lines -/

/-- A line that is evaluated: it has tokens, and is no command. -/
def IsExpression (line : String) : Prop :=
  scan line ≠ [] ∧ Command.ofTokens? (scan line) = none

namespace Session

theorem runTokens_of_isExpression {line : String} (h : IsExpression line) :
    runTokens (scan line) = runExpression (scan line) := by
  rw [runTokens, if_neg (by simpa using h.1), h.2]

theorem runExpression_of_unbalanced {line : String} {bracket : Unbalanced}
    (hparse : parse line = .error bracket) (env : Environment) :
    runExpression (scan line) env = .error (.reported (.unbalanced bracket)) env := by
  rw [parse] at hparse
  rw [runExpression, hparse]
  rfl

/-- What a line with a tree does to its environment. -/
theorem runExpression_of_tree {line : String} {tree : Node} (hparse : parse line = .ok tree)
    (env : Environment) :
    runExpression (scan line) env = match evalTree tree env with
      | .ok v env' =>
        if tree.definesFunction then .ok .defined env'
        else .ok (.value v) (env'.setVariable answerName v)
      | .error failure env' => .error failure env' := by
  rw [parse] at hparse
  rw [runExpression, hparse]
  cases h : evalTree tree env with
  | error failure env' => exact Eval.bind_of_error h
  | ok v env' =>
    refine (Eval.bind_of_ok h).trans ?_
    dsimp only
    split <;> rfl

end Session

/-- The effect of a line in an environment: its answer, the environment afterwards, and the error
that is kept. -/
inductive LineEffect (env : Environment) (line : String) :
    String → Environment → Option CalcError → Prop
  /-- A blank line does nothing. -/
  | blank (hline : scan line = []) : LineEffect env line "" env none
  /-- A command other than `clear` leaves all variables and functions alone. -/
  | command {command : Command} {reply : CommandReply} {env' : Environment}
    (hline : Command.ofTokens? (scan line) = some command) (hclear : command ≠ .clear)
    (hrun : command.run env = .ok (reply, env')) (hvars : env'.vars = env.vars)
    (hfunctions : env'.functions = env.functions) :
    LineEffect env line (if reply.leaves then "" else reply.status) env' none
  | clear (hline : Command.ofTokens? (scan line) = some .clear) :
    LineEffect env line "cleared variables and functions" env.reset none
  /-- A line whose brackets do not balance does nothing but to keep its error. -/
  | unbalanced {bracket : Unbalanced} (hline : IsExpression line)
    (hparse : parse line = .error bracket) :
    LineEffect env line ("error: " ++ (CalcError.unbalanced bracket).message) env
      (some (.unbalanced bracket))
  /-- A line that fails has carried out what it has completed, and changes nothing else. -/
  | failed {tree : Node} {error : CalcError} {env' : Environment} (hline : IsExpression line)
    (hparse : parse line = .ok tree)
    (heval : evalTree tree env = .error (.reported error) env')
    (hjournal : env' = env.writeAll (tree.meaning.journal (.framed callLimit) env))
    (hvars : ∀ name, (∀ v, .assign name v ∉ tree.meaning.journal (.framed callLimit) env) →
      env'.vars.find? name = env.vars.find? name)
    (hfunctions : ∀ name, (∀ f, .define name f ∉ tree.meaning.journal (.framed callLimit) env) →
      env'.functions.find? name = env.functions.find? name) :
    LineEffect env line ("error: " ++ error.message) env' (some error)
  /-- A definition stores its function and does nothing else. -/
  | defined {tree : Node} {function : String} {params : List String} {body : Node}
    (hline : IsExpression line) (hparse : parse line = .ok tree)
    (hdefines : tree.definesFunction = true)
    (hmeaning : tree.meaning = .definition function params body) :
    LineEffect env line "function defined" (env.define function ⟨params, body⟩) none
  /-- Any other line makes its value the last answer, whatever else it has done. -/
  | evaluated {tree : Node} {v : Value} {env' : Environment} (hline : IsExpression line)
    (hparse : parse line = .ok tree) (hdefines : tree.definesFunction = false)
    (heval : evalTree tree env = .ok v env')
    (hans : (env'.setVariable answerName v).vars.find? answerName = some v) :
    LineEffect env line (v.display env.cap) (env'.setVariable answerName v) none

theorem env_of_definition {calls : Calls} {function : String} {params : List String} {body : Node}
    {env env' : Environment} {v : Value}
    (h : (Expr.definition function params body).eval calls env = .ok v env') :
    env' = env.define function ⟨params, body⟩ := by
  rw [Expr.eval] at h
  exact (EStateM.Result.ok.inj h).2.symm

theorem cap_of_evalTree {tree : Node} {env env' : Environment} {v : Value}
    (h : evalTree tree env = .ok v env') : env'.cap = env.cap := by
  have hkeeps := keeps_eval (framed_framed callLimit) tree env
  rw [Eval.after, show tree.meaning.eval _ env = .ok v env' from h] at hkeeps
  exact hkeeps.cap

theorem lineEffect_of_value {env env' : Environment} (henv : env.Named) {line : String}
    {tree : Node} {v : Value} (hline : IsExpression line) (hparse : parse line = .ok tree)
    (heval : evalTree tree env = .ok v env') :
    if tree.definesFunction then LineEffect env line "function defined" env' none
    else LineEffect env line (v.display env'.cap) (env'.setVariable answerName v) none := by
  split
  · next hdefines =>
    obtain ⟨function, params, body, hmeaning⟩ :=
      definition_of_definesFunction hdefines henv heval
    rw [evalTree, evalWithin, hmeaning] at heval
    rw [env_of_definition heval]
    exact .defined hline hparse hdefines hmeaning
  · next hdefines =>
    rw [cap_of_evalTree heval]
    exact .evaluated hline hparse (Bool.eq_false_iff.mpr hdefines) heval
      (Scope.find?_set_self _ _ _)

theorem lineEffect_of_failure {env env' : Environment} {line : String} {tree : Node}
    {error : CalcError} (hline : IsExpression line) (hparse : parse line = .ok tree)
    (heval : evalTree tree env = .error (.reported error) env') :
    LineEffect env line ("error: " ++ error.message) env' (some error) := by
  have hjournal := writes_journal (framed_framed callLimit) tree.meaning env
  rw [Eval.after, show tree.meaning.eval _ env = .error (.reported error) env' from heval]
    at hjournal
  have hchanges := env.changesOnly_writeAll (tree.meaning.journal (.framed callLimit) env)
  rw [← hjournal] at hchanges
  exact .failed hline hparse heval hjournal
    (fun name hname => hchanges.vars.find?_eq (not_exists.mpr hname))
    fun name hname => hchanges.functions.find?_eq (not_exists.mpr hname)

/-- A command that fails does so with something else than an error of the line. -/
theorem not_reported_of_run {command : Command} {env : Environment} {failure : Failure}
    (h : command.run env = .error failure) (error : CalcError) : failure ≠ .reported error := by
  rintro rfl
  cases command with
  | useMode | clear | listBindings | leave => cases h
  | digits wanted? =>
    cases wanted? with
    | none => cases h
    | some wanted =>
      rw [Command.run, Command.setCap] at h
      split at h
      · split at h
        · cases h
        · cases h
        · split at h <;> cases h
      · cases h

theorem lineEffect_of_command {env env' : Environment} {line : String} {command : Command}
    {reply : CommandReply} (hline : Command.ofTokens? (scan line) = some command)
    (hrun : command.run env = .ok (reply, env')) :
    LineEffect env line (if reply.leaves then "" else reply.status) env' none := by
  rcases Command.run_cases hrun with ⟨rfl, rfl⟩ | ⟨hclear, hsettings⟩
  · obtain ⟨rfl, -⟩ := Prod.mk.inj (Except.ok.inj hrun)
    exact .clear hline
  · exact .command hline hclear hrun (by rw [hsettings]) (by rw [hsettings])

theorem fst_runLine_of_error {s : Session} {line text : String} {failure : Failure}
    {env : Environment} (hrun : Session.runTokens (scan line) s.env = .error failure env)
    (h : (s.runLine line).1 = .ok text) : ∃ error, failure = .reported error := by
  rw [Session.runLine, hrun] at h
  cases failure with
  | reported error => exact ⟨error, rfl⟩
  | _ => cases h

/-- Any line that is answered has one of the effects. -/
theorem lineEffect_of_runLine {s : Session} (henv : s.env.Named) {line text : String}
    (h : (s.runLine line).1 = .ok text) :
    LineEffect s.env line text (s.runLine line).2.env (s.runLine line).2.lastError := by
  by_cases hblank : scan line = []
  · have hrun : Session.runTokens (scan line) s.env = .ok .blank s.env := by
      rw [Session.runTokens, if_pos (by simp [hblank])]
      rfl
    rw [Session.runLine, hrun] at h ⊢
    obtain rfl := Except.ok.inj h
    exact .blank hblank
  cases hcommand : Command.ofTokens? (scan line) with
  | some command =>
    have hrun : Session.runTokens (scan line) s.env = Session.runCommand command s.env := by
      rw [Session.runTokens_of_command hcommand]
    rw [Session.runCommand] at hrun
    cases hreply : command.run s.env with
    | ok result =>
      rw [hreply] at hrun
      rw [Session.runLine, hrun] at h ⊢
      obtain rfl := Except.ok.inj h
      exact lineEffect_of_command hcommand hreply
    | error failure =>
      rw [hreply] at hrun
      obtain ⟨error, rfl⟩ := fst_runLine_of_error hrun h
      exact absurd rfl (not_reported_of_run hreply error)
  | none =>
    have hline : IsExpression line := ⟨hblank, hcommand⟩
    have hrun : Session.runTokens (scan line) s.env = Session.runExpression (scan line) s.env := by
      rw [Session.runTokens_of_isExpression hline]
    cases hparse : parse line with
    | error bracket =>
      rw [Session.runExpression_of_unbalanced hparse] at hrun
      rw [Session.runLine, hrun] at h ⊢
      obtain rfl := Except.ok.inj h
      exact .unbalanced hline hparse
    | ok tree =>
      rw [Session.runExpression_of_tree hparse] at hrun
      cases heval : evalTree tree s.env with
      | ok v env' =>
        have heffect := lineEffect_of_value henv hline hparse heval
        rw [heval] at hrun
        dsimp only at hrun
        split at hrun
        · next hdefines =>
          rw [if_pos hdefines] at heffect
          rw [Session.runLine, hrun] at h ⊢
          obtain rfl := Except.ok.inj h
          exact heffect
        · next hdefines =>
          rw [if_neg hdefines] at heffect
          rw [Session.runLine, hrun] at h ⊢
          obtain rfl := Except.ok.inj h
          exact heffect
      | error failure env' =>
        rw [heval] at hrun
        obtain ⟨error, rfl⟩ := fst_runLine_of_error hrun h
        rw [Session.runLine, hrun] at h ⊢
        obtain rfl := Except.ok.inj h
        exact lineEffect_of_failure hline hparse heval

/-- A line that has an effect is answered that way. -/
theorem runLine_of_lineEffect {s : Session} {line text : String} {env' : Environment}
    {last : Option CalcError} (h : LineEffect s.env line text env' last) :
    (s.runLine line).1 = .ok text ∧ (s.runLine line).2.env = env'
      ∧ (s.runLine line).2.lastError = last := by
  rw [Session.runLine]
  cases h with
  | blank hline =>
    rw [Session.runTokens, if_pos (by simp [hline])]
    exact ⟨rfl, rfl, rfl⟩
  | command hline hclear hrun =>
    rw [Session.runTokens_of_command hline, Session.runCommand, hrun]
    exact ⟨rfl, rfl, rfl⟩
  | clear hline =>
    rw [Session.runTokens_of_command hline]
    exact ⟨rfl, rfl, rfl⟩
  | unbalanced hline hparse =>
    rw [Session.runTokens_of_isExpression hline, Session.runExpression_of_unbalanced hparse]
    exact ⟨rfl, rfl, rfl⟩
  | failed hline hparse heval =>
    rw [Session.runTokens_of_isExpression hline, Session.runExpression_of_tree hparse, heval]
    exact ⟨rfl, rfl, rfl⟩
  | @defined tree function params body hline hparse hdefines hmeaning =>
    have heval : evalTree tree s.env = .ok (.scalar 0) (s.env.define function ⟨params, body⟩) := by
      rw [evalTree, evalWithin, hmeaning, Expr.eval]
      rfl
    rw [Session.runTokens_of_isExpression hline, Session.runExpression_of_tree hparse, heval]
    dsimp only
    rw [hdefines]
    exact ⟨rfl, rfl, rfl⟩
  | @evaluated tree v env' hline hparse hdefines heval hans =>
    rw [Session.runTokens_of_isExpression hline, Session.runExpression_of_tree hparse, heval]
    dsimp only
    rw [hdefines, ← cap_of_evalTree heval]
    exact ⟨rfl, rfl, rfl⟩

/-! ## Runs -/

def Session.runLines (s : Session) (lines : List String) : Session :=
  lines.foldl (fun s line => (s.runLine line).2) s

theorem regular_runExpression {env : Environment} (h : env.Regular) (line : String) :
    ((Session.runExpression (scan line)).after env).Regular := by
  rw [Eval.after]
  cases hparse : parse line with
  | error bracket =>
    rw [Session.runExpression_of_unbalanced hparse]
    exact h
  | ok tree =>
    have hkeeps := keeps_eval (framed_framed callLimit) tree env
    have hafter : ((evalTree tree).after env).Regular :=
      h.of_changesOnly hkeeps fun _ hname => hname.isName (lexed_of_buildTree hparse)
    have hans : IsName answerName := isName_of_mem_initialVariables (by decide)
    rw [Session.runExpression_of_tree hparse]
    rw [Eval.after] at hafter
    cases heval : evalTree tree env with
    | error failure env' =>
      rw [heval] at hafter
      exact hafter
    | ok v env' =>
      rw [heval] at hafter
      have hset : env'.ChangesOnly (answerName = ·) (fun _ => False)
          (env'.setVariable answerName v) := .setVariable rfl env' v
      cases tree.definesFunction with
      | true => exact hafter
      | false => exact hafter.of_changesOnly hset fun _ hname => hname ▸ hans

theorem regular_runLine {s : Session} (h : s.env.Regular) (line : String) :
    (s.runLine line).2.env.Regular :=
  Session.env_runLine_cases h (fun hrun => h.run hrun) (regular_runExpression h line)

theorem regular_runLines {s : Session} (h : s.env.Regular) (lines : List String) :
    (s.runLines lines).env.Regular := by
  induction lines generalizing s with
  | nil => exact h
  | cons line rest ih => exact ih (regular_runLine h line)

/-- **The effect of a line is classified.** However many lines a session has run, each of them
answered or not, the constants and the last answer have a value, and the next line is answered
exactly as one of the effects says, leaving its environment and its error behind. -/
theorem runLine_effect {seed : Layer Value} (hseed : ∀ name ∈ seed.names, IsName name)
    (mode : TrigMode) (cap : DigitCap) (lines : List String) :
    let s := (Session.start (.fresh seed mode cap)).runLines lines
    (∀ name ∈ ["pi", "PI", "e", "E", "ans"], ∃ v, s.env.vars.find? name = some v) ∧
      ∀ line text env' error,
        ((s.runLine line).1 = .ok text ∧ (s.runLine line).2.env = env'
          ∧ (s.runLine line).2.lastError = error) ↔ LineEffect s.env line text env' error := by
  intro s
  have hregular : s.env.Regular := regular_runLines (.fresh hseed mode cap) lines
  refine ⟨hregular.initial, fun line text env' error => ⟨?_, runLine_of_lineEffect⟩⟩
  rintro ⟨htext, rfl, rfl⟩
  exact lineEffect_of_runLine hregular.named htext

/-- A session that begins with a variable `x`, after a line that assigns and one that fails. -/
theorem runLine_effect_after_failure :
    let seed : Layer Value := [("x", .scalar 2)]
    let s := (Session.start (.fresh seed .degrees .standard)).runLines ["y = x", "(x = 3) + z"]
    (∀ name ∈ seed.names, IsName name) ∧
      (∀ name ∈ ["pi", "PI", "e", "E", "ans"], ∃ v, s.env.vars.find? name = some v) ∧
      ∀ line text env' error,
        ((s.runLine line).1 = .ok text ∧ (s.runLine line).2.env = env'
          ∧ (s.runLine line).2.lastError = error) ↔ LineEffect s.env line text env' error := by
  intro seed s
  have hseed : ∀ name ∈ seed.names, IsName name :=
    List.forall_mem_singleton.mpr (isName_of_kinds (by decide +kernel))
  exact ⟨hseed, runLine_effect hseed .degrees .standard _⟩

end Reckoner
