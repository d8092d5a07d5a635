import Reckoner.Proofs.Frame

/-!
# What an evaluation gets done

An evaluation that fails half-way keeps what it has written by then. `Expr.journal` lists the
assignments and definitions that it completes, in their order: those of its own, because what is
written during a call is gone after the call. The environment that an evaluation ends in, with a
value or without, is the one that it began in with its journal carried out (`writes_journal`).

The journal follows the order of evaluation: what comes behind a failure is not in it, and neither
is an assignment whose value fails.
-/

namespace Reckoner

/-! ## Writes -/

/-- A change to the innermost layer of an environment. -/
inductive Write where
  | assign (target : String) (v : Value)
  | define (function : String) (f : Function)

namespace Environment

def write (env : Environment) : Write → Environment
  | .assign target v => env.setVariable target v
  | .define function f => env.define function f

def writeAll (env : Environment) (writes : List Write) : Environment :=
  writes.foldl write env

theorem writeAll_append (env : Environment) (writes more : List Write) :
    env.writeAll (writes ++ more) = (env.writeAll writes).writeAll more :=
  List.foldl_append

/-- Writes change nothing but what they are for. -/
theorem changesOnly_writeAll (env : Environment) (writes : List Write) :
    env.ChangesOnly (fun name => ∃ v, .assign name v ∈ writes)
      (fun name => ∃ f, .define name f ∈ writes) (env.writeAll writes) := by
  induction writes generalizing env with
  | nil => exact .refl env
  | cons first rest ih =>
    have hfirst : env.ChangesOnly (fun name => ∃ v, .assign name v ∈ first :: rest)
        (fun name => ∃ f, .define name f ∈ first :: rest) (env.write first) := by
      cases first with
      | assign target v => exact .setVariable ⟨v, List.mem_cons_self⟩ env v
      | define function f => exact .define ⟨f, List.mem_cons_self⟩ env f
    exact hfirst.trans ((ih (env.write first)).mono
      (fun _ ⟨v, hv⟩ => ⟨v, List.mem_cons_of_mem _ hv⟩)
      fun _ ⟨f, hf⟩ => ⟨f, List.mem_cons_of_mem _ hf⟩)

end Environment

/-! ## Computations -/

/-- The writes that follow on a computation, none if it fails. -/
def Eval.onward {α : Type} (m : Eval α) (rest : α → Environment → List Write)
    (env : Environment) : List Write :=
  match m env with
  | .ok a env' => rest a env'
  | .error _ _ => []

theorem Eval.onward_nothing {α : Type} (m : Eval α) (env : Environment) :
    m.onward (fun _ _ => []) env = [] := by
  unfold onward
  split <;> rfl

/-- All that a computation does to its environment is to carry out some writes. -/
def Eval.Writes {α : Type} (m : Eval α) (writes : Environment → List Write) : Prop :=
  ∀ env, m.after env = env.writeAll (writes env)

namespace Eval.Writes

variable {α β : Type}

protected theorem pure (a : α) : Writes (Pure.pure a) fun _ => [] := fun _ => rfl

protected theorem throw (failure : Failure) : Writes (throw failure : Eval α) fun _ => [] :=
  fun _ => rfl

protected theorem report (error : CalcError) : Writes (report error : Eval α) fun _ => [] :=
  fun _ => rfl

protected theorem ofExcept (x : Except Failure α) : Writes (ofExcept x : Eval α) fun _ => [] := by
  cases x
  · exact .throw _
  · exact .pure _

/-- What two computations write they write one after the other, the second one only if it is
reached. -/
protected theorem bind {m : Eval α} {f : α → Eval β} {writes : Environment → List Write}
    {more : α → Environment → List Write} (hm : m.Writes writes)
    (hf : ∀ a, (f a).Writes (more a)) :
    Writes (m >>= f) fun env => writes env ++ m.onward more env := by
  intro env
  rw [Environment.writeAll_append, ← hm env, after, after, onward]
  cases h : m env with
  | ok a env' =>
    rw [bind_of_ok h]
    exact hf a env'
  | error failure env' =>
    rw [bind_of_error h]
    rfl

/-- A computation that writes nothing may be left out before another one. -/
theorem bind_quiet {m : Eval α} {f : α → Eval β} {writes : Environment → List Write}
    (hm : m.Writes writes) (hf : ∀ a, (f a).Writes fun _ => []) : Writes (m >>= f) writes := by
  intro env
  have hboth : (m >>= f).after env = env.writeAll (writes env ++ m.onward (fun _ _ => []) env) :=
    hm.bind hf env
  rwa [m.onward_nothing, List.append_nil] at hboth

theorem keeps {m : Eval α} {writes : Environment → List Write} (h : m.Writes writes) :
    m.Keeps (fun _ => True) fun _ => True := by
  intro env
  rw [h env]
  exact (env.changesOnly_writeAll _).mono (fun _ _ => trivial) fun _ _ => trivial

end Eval.Writes

/-! ## Expressions -/

mutual

/-- The assignments and definitions that the evaluation of an expression completes, those in calls
apart. -/
def Expr.journal (calls : Calls) : Expr → Environment → List Write
  | .number _ => fun _ => []
  | .name _ => fun _ => []
  | .nothing => fun _ => []
  | .literal rows => journalOfRows calls [] rows
  | .negation operand => operand.journal calls
  | .unknownUnary _ => fun _ => []
  | .call _ _ => fun _ => []
  | .definition function params body => fun _ => [.define function ⟨params, body⟩]
  | .assignment target value => fun env =>
    value.journal calls env ++ (value.eval calls).onward (fun v _ => [.assign target v]) env
  | .misassignment value => value.journal calls
  | .operation _ left right => fun env =>
    left.journal calls env ++ (left.eval calls).onward (fun _ => right.journal calls) env
  | .notApplicable _ _ => fun _ => []
  | .malformed _ => fun _ => []

def journalOfRow (calls : Calls) : List Expr → Environment → List Write
  | [] => fun _ => []
  | e :: rest => fun env =>
    e.journal calls env
      ++ (e.eval calls >>= elementOf).onward (fun _ => journalOfRow calls rest) env

def journalOfRows (calls : Calls) (columns : List (List Float)) :
    List (List Expr) → Environment → List Write
  | [] => fun _ => []
  | row :: rest => fun env =>
    journalOfRow calls row env ++ (evalRow calls columns 0 row).onward
      (fun columns' => journalOfRows calls columns' rest) env

end

theorem writes_elementOf (v : Value) : (elementOf v).Writes fun _ => [] := by
  cases v with
  | scalar x => exact .pure x
  | vector | matrix => exact fun _ => rfl

theorem writes_lookUp (name : String) : (lookUp name).Writes fun _ => [] := by
  have hget : (get : Eval Environment).Writes fun _ => [] := fun _ => rfl
  refine hget.bind_quiet fun env => ?_
  split
  · exact .pure _
  · exact .report _

/-- **An evaluation does what its journal says.** The environment that an expression leaves behind,
whether it has a value or fails, is the one before with the journal carried out. -/
theorem writes_journal {calls : Calls} (hcalls : calls.Framed) (e : Expr) :
    (e.eval calls).Writes (e.journal calls) := by
  induction e using Expr.rec
    (motive_2 := fun rows => ∀ columns,
      (evalRows calls columns rows).Writes (journalOfRows calls columns rows))
    (motive_3 := fun es => ∀ columns,
      (∀ index, (evalRow calls columns index es).Writes (journalOfRow calls es)) ∧
        ∀ e ∈ es, (e.eval calls).Writes (e.journal calls))
  case number text =>
    rw [Expr.eval, Expr.journal]
    split
    · exact .pure _
    · exact .throw _
  case name text =>
    rw [Expr.eval, Expr.journal]
    exact writes_lookUp text
  case nothing =>
    rw [Expr.eval, Expr.journal]
    exact .pure _
  case literal rows ih =>
    rw [Expr.eval, Expr.journal]
    exact (ih []).bind_quiet fun columns => .ofExcept _
  case negation operand ih =>
    rw [Expr.eval, Expr.journal]
    exact ih.bind_quiet fun v => .ofExcept _
  case unknownUnary operator =>
    rw [Expr.eval, Expr.journal]
    exact .report _
  case call function args ih =>
    rw [Expr.journal]
    exact after_call hcalls function fun e he => ((ih []).2 e he).keeps
  case definition function params body =>
    rw [Expr.eval, Expr.journal]
    exact fun env => rfl
  case assignment target value ih =>
    rw [Expr.eval, Expr.journal]
    exact ih.bind fun v env => rfl
  case misassignment value ih =>
    rw [Expr.eval, Expr.journal]
    exact ih.bind_quiet fun v => .report _
  case operation operator left right ihl ihr =>
    rw [Expr.eval, Expr.journal]
    exact ihl.bind fun l => ihr.bind_quiet fun r => .ofExcept _
  case notApplicable left right =>
    rw [Expr.eval, Expr.journal]
    exact .report _
  case malformed node =>
    rw [Expr.eval, Expr.journal]
    exact .report _
  case nil columns =>
    rw [evalRows, journalOfRows]
    exact .pure _
  case cons row rest ih ihrest columns =>
    rw [evalRows, journalOfRows]
    exact ((ih columns).1 0).bind ihrest
  case nil columns =>
    refine ⟨fun index => ?_, List.forall_mem_nil _⟩
    rw [evalRow, journalOfRow]
    exact .pure _
  case cons e rest ih ihrest columns =>
    refine ⟨fun index => ?_, List.forall_mem_cons.mpr ⟨ih, (ihrest columns).2⟩⟩
    rw [evalRow, journalOfRow, ← bind_assoc]
    exact (ih.bind_quiet writes_elementOf).bind fun x => (ihrest _).1 _

end Reckoner
