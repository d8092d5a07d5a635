import Reckoner.Proofs.LineEffects
import Reckoner.Proofs.Uniformity
import Reckoner.Proofs.Agreement

/-!
# Digits on display do not matter

The cap on displayed digits shows in answers and in the wording of one error, and in nothing else.
Two sessions that begin alike but for their caps, and run the same lines but for those that are
about digits, keep the same variables, functions and settings and the same wish to leave, and each
line has errors of the same sort in both (`precision_shows_in_texts_only`).

It is a matter of two runs side by side: evaluation is compared in environments that are the same
but for the cap (`butCap`), then commands, then lines, and a line about digits does not lead out of
what is the same but for the cap. So a run can be compared with the run of its other lines
(`sameButCap_runLines`), and two runs with each other through that.
-/

namespace Reckoner

/-! ## Environments and sessions -/

structure Environment.SameButCap (env env' : Environment) : Prop where
  vars : env.vars = env'.vars
  functions : env.functions = env'.functions
  mode : env.mode = env'.mode
  seed : env.seed = env'.seed

namespace Environment.SameButCap

variable {env env' : Environment}

theorem refl (env : Environment) : env.SameButCap env := ⟨rfl, rfl, rfl, rfl⟩

theorem symm (h : env.SameButCap env') : env'.SameButCap env :=
  ⟨h.vars.symm, h.functions.symm, h.mode.symm, h.seed.symm⟩

theorem trans {env'' : Environment} (h : env.SameButCap env') (h' : env'.SameButCap env'') :
    env.SameButCap env'' :=
  ⟨h.vars.trans h'.vars, h.functions.trans h'.functions, h.mode.trans h'.mode,
    h.seed.trans h'.seed⟩

theorem setVariable (h : env.SameButCap env') (name : String) (v : Value) :
    (env.setVariable name v).SameButCap (env'.setVariable name v) :=
  { h with vars := congrArg (·.set name v) h.vars }

theorem define (h : env.SameButCap env') (name : String) (f : Function) :
    (env.define name f).SameButCap (env'.define name f) :=
  { h with functions := congrArg (·.set name f) h.functions }

theorem frame (h : env.SameButCap env') : env.frame.SameButCap env'.frame :=
  { h with vars := congrArg Scope.enter h.vars, functions := congrArg Scope.enter h.functions }

theorem leave (h : env.SameButCap env') {callee callee' : Environment}
    (hcallee : callee.SameButCap callee') : (env.leave callee).SameButCap (env'.leave callee') :=
  { h with
    vars := congrArg Scope.leave hcallee.vars
    functions := congrArg Scope.leave hcallee.functions }

theorem reset (h : env.SameButCap env') : env.reset.SameButCap env'.reset :=
  ⟨congrArg (fun seed => Scope.ofLayer (startOf seed)) h.seed, rfl, h.mode, h.seed⟩

end Environment.SameButCap

/-- Two sessions differ at most in the cap on displayed digits and in their last errors. -/
structure Session.SameButCap (s s' : Session) : Prop where
  env : s.env.SameButCap s'.env
  leaving : s.leaving = s'.leaving

namespace Session.SameButCap

variable {s s' s'' : Session}

theorem refl (s : Session) : s.SameButCap s := ⟨.refl s.env, rfl⟩

theorem symm (h : s.SameButCap s') : s'.SameButCap s := ⟨h.env.symm, h.leaving.symm⟩

theorem trans (h : s.SameButCap s') (h' : s'.SameButCap s'') : s.SameButCap s'' :=
  ⟨h.env.trans h'.env, h.leaving.trans h'.leaving⟩

end Session.SameButCap

/-! ## Evaluation -/

def butCap : Comparison Unit :=
  ⟨fun _ => Environment.SameButCap, (· = ·), Failure.SameCause⟩

theorem respected_butCap : butCap.Respected := by
  have hcomputes : butCap.Computes := by
    refine Comparison.computes_of_element rfl (fun _ => .same _) (fun _ => .same _)
      (fun henv => henv.mode) fun i v => ?_
    cases v with
    | scalar x => exact .pure rfl
    | vector | matrix => exact .get_bind fun env env' _ => .throw (.contents _ _)
  exact hcomputes.respected rfl (fun henv name => congrArg (·.find? name) henv.vars)
    fun henv => henv.setVariable

/-- A tree comes to the same value, or fails for the same cause, whatever the cap is. -/
theorem relate_evalTree (tree : Node) : butCap.Relate () (· = ·) (evalTree tree) (evalTree tree) :=
  have hsimulates := Comparison.simulates_nested respected_butCap (.same _)
    (fun _ _ _ hcaller => ⟨(), hcaller.frame, fun _ _ hcallee => hcaller.leave hcallee⟩)
    (fun henv name => congrArg (·.find? name) henv.functions) (fun henv => henv.define) callLimit
  hsimulates.like_of_alike (.refl (fun _ => .same _) tree.meaning) ()

/-! ## Lines -/

/-- Is the line a command about the digits on display? -/
def isDigitsLine (line : String) : Bool :=
  match Command.ofTokens? (scan line) with
  | some (.digits _) => true
  | _ => false

/-- Two answers are the same text, but for the numbers on display in a value, in the list of the
variables, or in the contents that a list cannot have. -/
inductive TextsAlike (env env' : Environment) :
    Except Failure String → Except Failure String → Prop
  | same (answer : Except Failure String) : TextsAlike env env' answer answer
  | value (v : Value) : TextsAlike env env' (.ok (v.display env.cap)) (.ok (v.display env'.cap))
  | listing : TextsAlike env env' (.ok (Command.listing env)) (.ok (Command.listing env'))
  | contents (contents contents' : String) :
    TextsAlike env env' (.ok ("error: " ++ (CalcError.invalidVectorContents contents).message))
      (.ok ("error: " ++ (CalcError.invalidVectorContents contents').message))

/-- A line comes to the same in two sessions: what is answered only differs in numbers on display,
the sessions afterwards only in their caps, and there is an error of one sort in both or in none. -/
structure SameOutcome (outcome outcome' : Except Failure String × Session) : Prop where
  session : outcome.2.SameButCap outcome'.2
  errors : outcome.2.lastError.map CalcError.sort = outcome'.2.lastError.map CalcError.sort
  texts : TextsAlike outcome.2.env outcome'.2.env outcome.1 outcome'.1

namespace Session

theorem relate_runCommand {command : Command} (hdigits : ∀ wanted, command ≠ .digits wanted)
    (hlist : command ≠ .listBindings) :
    butCap.Relate () (· = ·) (runCommand command) (runCommand command) := by
  intro env env' henv
  cases command with
  | useMode mode => exact .ok rfl { henv with mode := rfl }
  | digits wanted => exact absurd rfl (hdigits wanted)
  | clear => exact .ok rfl henv.reset
  | listBindings => exact absurd rfl hlist
  | leave => exact .ok rfl henv

theorem relate_runExpression (tokens : List Token) :
    butCap.Relate () (· = ·) (runExpression tokens) (runExpression tokens) := by
  unfold runExpression
  cases buildTree tokens with
  | error bracket => exact .throw (.same _)
  | ok tree =>
    refine .bind (relate_evalTree tree) fun v v' hv => ?_
    subst hv
    split
    · exact .pure rfl
    · exact .bind (.modify fun env env' henv => henv.setVariable answerName v)
        fun _ _ _ => .pure rfl

theorem relate_runTokens {tokens : List Token}
    (hdigits : ∀ wanted, Command.ofTokens? tokens ≠ some (.digits wanted))
    (hlist : Command.ofTokens? tokens ≠ some .listBindings) :
    butCap.Relate () (· = ·) (runTokens tokens) (runTokens tokens) := by
  unfold runTokens
  split
  · exact .pure rfl
  · cases hcommand : Command.ofTokens? tokens with
    | none => exact relate_runExpression tokens
    | some command =>
      refine relate_runCommand (fun wanted h => ?_) (fun h => ?_)
      · exact hdigits wanted (h ▸ hcommand)
      · exact hlist (h ▸ hcommand)

/-- A line that lists the bindings changes nothing. -/
theorem runLine_listing (s : Session) {line : String}
    (h : Command.ofTokens? (scan line) = some .listBindings) :
    s.runLine line = (.ok (Command.listing s.env), ⟨s.env, s.leaving || false, none⟩) := by
  rw [runLine, runTokens_of_command h]
  rfl

/-- A line that is not about digits comes to the same in sessions that differ in their caps. -/
theorem SameButCap.runLine {s s' : Session} (h : s.SameButCap s') {line : String}
    (hline : isDigitsLine line = false) : SameOutcome (s.runLine line) (s'.runLine line) := by
  have hdigits : ∀ wanted, Command.ofTokens? (scan line) ≠ some (.digits wanted) := by
    intro wanted hwanted
    simp [isDigitsLine, hwanted] at hline
  by_cases hlist : Command.ofTokens? (scan line) = some .listBindings
  · rw [runLine_listing s hlist, runLine_listing s' hlist]
    exact ⟨⟨h.env, congrArg (· || false) h.leaving⟩, rfl, .listing⟩
  have hrun := relate_runTokens hdigits hlist s.env s'.env h.env
  rw [Session.runLine, Session.runLine]
  generalize runTokens (scan line) s.env = result at hrun
  generalize runTokens (scan line) s'.env = result' at hrun
  cases hrun with
  | @ok outcome _ env env' hsame henv =>
    subst hsame
    refine ⟨⟨henv, congrArg (· || asksToLeave outcome) h.leaving⟩, rfl, ?_⟩
    cases outcome with
    | value v => exact .value v
    | _ => exact .same _
  | @error cause _ env env' hfailure henv =>
    cases hfailure with
    | contents => exact ⟨⟨henv, h.leaving⟩, rfl, .contents _ _⟩
    | same => cases cause <;> exact ⟨⟨henv, h.leaving⟩, rfl, .same _⟩

/-- A line about digits sets the cap at most. -/
theorem sameButCap_runLine (s : Session) {line : String} (hline : isDigitsLine line = true) :
    (s.runLine line).2.SameButCap s := by
  rw [isDigitsLine] at hline
  split at hline
  · next wanted? hcommand =>
    rw [runLine, runTokens_of_command hcommand, runCommand]
    cases hrun : (Command.digits wanted?).run s.env with
    | error failure => cases failure <;> exact ⟨.refl s.env, rfl⟩
    | ok result =>
      obtain ⟨reply, env⟩ := result
      obtain ⟨henv, hleaves⟩ := Command.digits_run hrun
      exact ⟨henv ▸ ⟨rfl, rfl, rfl, rfl⟩, by simp [asksToLeave, hleaves]⟩
  · cases hline

end Session

/-! ## Runs -/

/-- A run comes to the same as that of its lines that are not about digits. -/
theorem sameButCap_runLines {s s' : Session} (h : s.SameButCap s') (lines : List String) :
    (s.runLines lines).SameButCap (s'.runLines (lines.filter fun line => !isDigitsLine line)) := by
  induction lines generalizing s s' with
  | nil => exact h
  | cons line rest ih =>
    by_cases hline : isDigitsLine line = true
    · rw [List.filter_cons_of_neg (by simp [hline])]
      exact ih ((s.sameButCap_runLine hline).trans h)
    · rw [Bool.not_eq_true] at hline
      rw [List.filter_cons_of_pos (by simp [hline])]
      exact ih (h.runLine hline).session

/-- **The number of digits on display does not matter.** Two sessions over one seed and unit of
angles start with any caps and run the same lines, but for lines about digits. After every other
line they have the same variables and functions, settings and wish to leave, and an error of the
same sort or none; what they answer only differs in numbers on display. -/
theorem precision_shows_in_texts_only {seed : Layer Value} {mode : TrigMode} {cap cap' : DigitCap}
    {lines lines' : List String}
    (hlines : (lines.filter fun line => !isDigitsLine line)
      = lines'.filter fun line => !isDigitsLine line)
    {line : String} (hline : isDigitsLine line = false) :
    SameOutcome (((Session.start (.fresh seed mode cap)).runLines lines).runLine line)
      (((Session.start (.fresh seed mode cap')).runLines lines').runLine line) := by
  have hstart : (Session.start (.fresh seed mode cap)).SameButCap
      (.start (.fresh seed mode cap')) := ⟨⟨rfl, rfl, rfl, rfl⟩, rfl⟩
  have hfirst := sameButCap_runLines hstart lines
  have hsecond := sameButCap_runLines (.refl (.start (.fresh seed mode cap'))) lines'
  rw [hlines] at hfirst
  exact (hfirst.trans hsecond.symm).runLine hline

/-- A session that shows four digits, then two, and one that shows nine throughout. -/
theorem precision_of_thirds :
    let session := Session.start (.fresh [] .degrees ⟨4, by decide⟩)
    let session' := Session.start (.fresh [] .degrees .standard)
    SameOutcome
      ((session.runLines ["x=1/3", "digits 2", "digits", "vars"]).runLine "[x,[x,x]]")
      ((session'.runLines ["x=1/3", "vars"]).runLine "[x,[x,x]]") :=
  precision_shows_in_texts_only (by decide +kernel) (by decide +kernel)

end Reckoner
