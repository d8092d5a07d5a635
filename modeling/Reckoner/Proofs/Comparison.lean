import Mathlib.Data.List.Forall2
import Reckoner.Evaluation

/-!
# Two evaluations side by side

What an evaluation does in one environment can be compared with what another one does in another
environment: a `Comparison` says when their environments, their values and their failures count as
related. `Comparison.Relate` asks of two computations that related environments lead to related
results, and it is closed under the steps that evaluation is made of.

A comparison that the rules for values respect (`Comparison.Computes`) goes through every kind of
expression: there is one lemma for each, from parts that are evaluated alike (`Comparison.Like`) to
the whole. Those of them that store values ask for `Comparison.Stores`, and a name has to be bound
alike on both sides, as every name is where a comparison is `Comparison.Respected`. What it has to
know of the functions that are called and defined differs from one comparison to the other, so
`Respected.like_of_alike` asks for that part by part (`Comparison.Admits`). Where all functions are
the same on both sides, nothing is left to ask, and `simulates_nested` goes over the depth of calls.
-/

namespace Reckoner

/-- When two evaluations count as related. Their environments may be related in several manners, of
which a call can have another one than its caller. -/
structure Comparison (ι : Type) where
  envs : ι → Environment → Environment → Prop
  values : Value → Value → Prop
  failures : Failure → Failure → Prop

/-- Two results are related: related values or related failures, and related environments in both
cases. -/
inductive ResultsRelate (envs : Environment → Environment → Prop)
    (failures : Failure → Failure → Prop) {α β : Type} (values : α → β → Prop) :
    EStateM.Result Failure Environment α → EStateM.Result Failure Environment β → Prop
  | ok {a : α} {b : β} {env env' : Environment} (ha : values a b) (h : envs env env') :
    ResultsRelate envs failures values (.ok a env) (.ok b env')
  | error {failure failure' : Failure} {env env' : Environment}
    (hfailure : failures failure failure') (h : envs env env') :
    ResultsRelate envs failures values (.error failure env) (.error failure' env')

/-- Two outcomes are related: related values or related failures. -/
inductive OutcomesRelate (failures : Failure → Failure → Prop) {α β : Type}
    (values : α → β → Prop) : Except Failure α → Except Failure β → Prop
  | ok {a : α} {b : β} (h : values a b) : OutcomesRelate failures values (.ok a) (.ok b)
  | error {failure failure' : Failure} (h : failures failure failure') :
    OutcomesRelate failures values (.error failure) (.error failure')

theorem ResultsRelate.mono {α β : Type} {envs weaker : Environment → Environment → Prop}
    {failures coarser : Failure → Failure → Prop} {values : α → β → Prop}
    {result : EStateM.Result Failure Environment α}
    {result' : EStateM.Result Failure Environment β}
    (henvs : ∀ env env', envs env env' → weaker env env')
    (hfailures : ∀ f f', failures f f' → coarser f f')
    (h : ResultsRelate envs failures values result result') :
    ResultsRelate weaker coarser values result result' := by
  cases h with
  | ok ha h => exact .ok ha (henvs _ _ h)
  | error hfailure h => exact .error (hfailures _ _ hfailure) (henvs _ _ h)

/-- A computation goes on with what it comes to, in environments that may be related in another
way from then on. -/
theorem ResultsRelate.bind {α β γ δ : Type} {envs further : Environment → Environment → Prop}
    {failures : Failure → Failure → Prop} {values : α → β → Prop} {more : γ → δ → Prop}
    {m : Eval α} {m' : Eval β} {f : α → Eval γ} {f' : β → Eval δ} {env env' : Environment}
    (hm : ResultsRelate envs failures values (m env) (m' env'))
    (henvs : ∀ env env', envs env env' → further env env')
    (hf : ∀ a b env env', values a b → envs env env' →
      ResultsRelate further failures more (f a env) (f' b env')) :
    ResultsRelate further failures more ((m >>= f) env) ((m' >>= f') env') := by
  generalize h : m env = result at hm
  generalize h' : m' env' = result' at hm
  cases hm with
  | ok ha hafter =>
    rw [Eval.bind_of_ok h, Eval.bind_of_ok h']
    exact hf _ _ _ _ ha hafter
  | error hfailure hafter =>
    rw [Eval.bind_of_error h, Eval.bind_of_error h']
    exact .error hfailure (henvs _ _ hafter)

/-- A failure that is only related to itself happens on both sides or on none. -/
theorem ResultsRelate.fails_iff {α β : Type} {envs : Environment → Environment → Prop}
    {failures : Failure → Failure → Prop} {values : α → β → Prop}
    {result : EStateM.Result Failure Environment α}
    {result' : EStateM.Result Failure Environment β} {failure : Failure}
    (hfailure : ∀ f f', failures f f' → (f = failure ↔ f' = failure))
    (h : ResultsRelate envs failures values result result') :
    (∃ env, result = .error failure env) ↔ ∃ env, result' = .error failure env := by
  cases h with
  | ok ha h => constructor <;> rintro ⟨env, henv⟩ <;> cases henv
  | error hf h =>
    constructor <;> rintro ⟨env, henv⟩
    · have heq := (EStateM.Result.error.inj henv).1
      exact ⟨_, congrArg (EStateM.Result.error · _) ((hfailure _ _ hf).mp heq)⟩
    · have heq := (EStateM.Result.error.inj henv).1
      exact ⟨_, congrArg (EStateM.Result.error · _) ((hfailure _ _ hf).mpr heq)⟩

namespace Comparison

variable {ι : Type}

/-- Numbers are related as the scalars that they are. -/
def numbers (C : Comparison ι) (x y : Float) : Prop :=
  C.values (.scalar x) (.scalar y)

def columns (C : Comparison ι) : List (List Float) → List (List Float) → Prop :=
  List.Forall₂ (List.Forall₂ C.numbers)

/-- Two computations lead from related environments to related results. -/
def Relate (C : Comparison ι) (i : ι) {α β : Type} (values : α → β → Prop) (m : Eval α)
    (m' : Eval β) : Prop :=
  ∀ env env', C.envs i env env' →
    ResultsRelate (C.envs i) C.failures values (m env) (m' env')

/-! ## Computations -/

namespace Relate

variable {C : Comparison ι} {i : ι} {α β γ δ : Type} {values : α → β → Prop}
  {more : γ → δ → Prop}

protected theorem pure {a : α} {b : β} (h : values a b) :
    C.Relate i values (Pure.pure a) (Pure.pure b) :=
  fun _ _ henv => .ok h henv

protected theorem throw {failure failure' : Failure} (h : C.failures failure failure') :
    C.Relate i values (throw failure) (throw failure') :=
  fun _ _ henv => .error h henv

protected theorem ofExcept {x : Except Failure α} {y : Except Failure β}
    (h : OutcomesRelate C.failures values x y) :
    C.Relate i values (ofExcept x) (ofExcept y) := by
  cases h with
  | ok h => exact .pure h
  | error h => exact .throw h

protected theorem modify {f f' : Environment → Environment}
    (h : ∀ env env', C.envs i env env' → C.envs i (f env) (f' env')) :
    C.Relate i (fun _ _ => True) (modify f) (modify f') :=
  fun env env' henv => .ok trivial (h env env' henv)

protected theorem bind {m : Eval α} {m' : Eval β} {f : α → Eval γ} {f' : β → Eval δ}
    (hm : C.Relate i values m m') (hf : ∀ a b, values a b → C.Relate i more (f a) (f' b)) :
    C.Relate i more (m >>= f) (m' >>= f') :=
  fun env env' henv => (hm env env' henv).bind (fun _ _ h => h) fun a b env env' hab henv =>
    hf a b hab env env' henv

/-- What the environment is asked for may be different where the answers to it are related. -/
theorem get_bind {f : Environment → Eval γ} {f' : Environment → Eval δ}
    (hf : ∀ env env', C.envs i env env' → C.Relate i more (f env) (f' env')) :
    C.Relate i more (get >>= f) (get >>= f') :=
  fun env env' henv => hf env env' henv env env' henv

end Relate

/-! ## What a comparison has to respect -/

/-- The rules for values respect a comparison: related operands have related outcomes. -/
structure Computes (C : Comparison ι) : Prop where
  reported : ∀ error, C.failures (.reported error) (.reported error)
  notNumeral : ∀ text, C.failures (.notNumeral text) (.notNumeral text)
  number : ∀ x, C.numbers x x
  element : ∀ i {v v'}, C.values v v' → C.Relate i C.numbers (elementOf v) (elementOf v')
  literal : ∀ {columns columns'}, C.columns columns columns' →
    OutcomesRelate C.failures C.values (valueOfColumns columns) (valueOfColumns columns')
  operate : ∀ operator {l l' r r'}, C.values l l' → C.values r r' →
    OutcomesRelate C.failures C.values (operate operator l r) (operate operator l' r')
  builtin : ∀ {i env env'}, C.envs i env env' →
    ∀ name {args args'}, List.Forall₂ C.values args args' →
      OutcomesRelate C.failures C.values (callBuiltin name args env.mode)
        (callBuiltin name args' env'.mode)

/-- Storing respects a comparison as well: related values can be given to one variable. -/
structure Stores (C : Comparison ι) : Prop extends C.Computes where
  setVariable : ∀ {i env env'}, C.envs i env env' → ∀ name {v v'}, C.values v v' →
    C.envs i (env.setVariable name v) (env'.setVariable name v')

/-- Evaluation respects a comparison: related environments show related values under every name. -/
structure Respected (C : Comparison ι) : Prop extends C.Stores where
  bound : ∀ {i env env'}, C.envs i env env' →
    ∀ name, Option.Rel C.values (env.vars.find? name) (env'.vars.find? name)

/-- Entering a call and leaving it keep environments related, in whatever manner they are inside. -/
def CallsRelate (C : Comparison ι) (calls calls' : Calls) : Prop :=
  ∀ i caller caller', C.envs i caller caller' →
    ∃ j, C.envs j (calls.enter caller) (calls'.enter caller') ∧
      ∀ callee callee', C.envs j callee callee' →
        C.envs i (calls.leave caller callee) (calls'.leave caller' callee')

/-- Two functions take the same parameters and run alike. -/
structure RunAlike (C : Comparison ι) (calls calls' : Calls) (f f' : Function) : Prop where
  params : f.params = f'.params
  run : ∀ i, C.Relate i C.values (calls.run f.body) (calls'.run f'.body)

/-- Two expressions are evaluated alike, in whatever manner the environments are related. -/
def Like (C : Comparison ι) (calls calls' : Calls) (e e' : Expr) : Prop :=
  ∀ i, C.Relate i C.values (e.eval calls) (e'.eval calls')

section Steps

variable {C : Comparison ι} {calls calls' : Calls}

theorem Computes.relate_lookUp (hC : C.Computes) {i : ι} {name : String}
    (hbound : ∀ env env', C.envs i env env' →
      Option.Rel C.values (env.vars.find? name) (env'.vars.find? name)) :
    C.Relate i C.values (lookUp name) (lookUp name) := by
  refine .get_bind fun env env' henv => ?_
  have hfound := hbound env env' henv
  generalize env.vars.find? name = found at hfound
  generalize env'.vars.find? name = found' at hfound
  cases hfound with
  | none => exact .throw (hC.reported _)
  | some h => exact .pure h

theorem Stores.setVariables (hC : C.Stores) {i : ι} (params : List String)
    {args args' : List Value} (hargs : List.Forall₂ C.values args args')
    {env env' : Environment} (henv : C.envs i env env') :
    C.envs i (env.setVariables (params.zip args)) (env'.setVariables (params.zip args')) := by
  induction hargs generalizing params env env' with
  | nil => simpa [Environment.setVariables] using henv
  | cons hv _ ih =>
    cases params with
    | nil => simpa [Environment.setVariables] using henv
    | cons param rest => exact ih rest (hC.setVariable henv param hv)

theorem Stores.relate_applyFunction (hC : C.Stores) (i : ι) (name : String)
    {function? function?' : Option Function}
    (hfunction : Option.Rel (C.RunAlike calls calls') function? function?')
    {args args' : List Value} (hargs : List.Forall₂ C.values args args') :
    C.Relate i C.values (applyFunction calls name function? args)
      (applyFunction calls' name function?' args') := by
  cases hfunction with
  | none => exact .get_bind fun env env' henv => .ofExcept (hC.builtin henv name hargs)
  | @some f f' hf =>
    rw [applyFunction, applyFunction, ← hf.params, ← hargs.length_eq]
    split
    · exact .throw (hC.reported _)
    · exact .bind (.modify fun _ _ => hC.setVariables f.params hargs) fun _ _ _ => hf.run i

/-- Results that are related inside of two calls are related outside when the calls are left. -/
theorem resultsRelate_inside {α β : Type} {values : α → β → Prop}
    {inner outer : Environment → Environment → Prop} {failures : Failure → Failure → Prop}
    {caller caller' : Environment} {m : Eval α} {m' : Eval β}
    (hleave : ∀ callee callee', inner callee callee' →
      outer (calls.leave caller callee) (calls'.leave caller' callee'))
    (hm : ResultsRelate inner failures values (m (calls.enter caller))
      (m' (calls'.enter caller'))) :
    ResultsRelate outer failures values (inside calls m caller) (inside calls' m' caller') := by
  rw [inside, inside]
  generalize m (calls.enter caller) = result at hm
  generalize m' (calls'.enter caller') = result' at hm
  cases hm with
  | ok ha h => exact .ok ha (hleave _ _ h)
  | error hfailure h => exact .error hfailure (hleave _ _ h)

theorem forall₂_modify {α β : Type} {R : α → β → Prop} {f : α → α} {g : β → β}
    (hfg : ∀ a b, R a b → R (f a) (g b)) {as : List α} {bs : List β} (h : List.Forall₂ R as bs)
    (index : Nat) : List.Forall₂ R (as.modify index f) (bs.modify index g) := by
  induction h generalizing index with
  | nil => simp
  | cons hab hrest ih =>
    cases index with
    | zero => simpa using ⟨hfg _ _ hab, hrest⟩
    | succ index => simpa using ⟨hab, ih index⟩

/-- An element that is added at a place keeps columns related. -/
theorem columns_addElement {columns columns' : List (List Float)}
    (hcolumns : C.columns columns columns') (index : Nat) {x y : Float} (hxy : C.numbers x y) :
    C.columns (addElement columns index x) (addElement columns' index y) := by
  rw [addElement, addElement, ← hcolumns.length_eq]
  split
  · exact forall₂_modify (fun _ _ h => List.rel_append h (.cons hxy .nil)) hcolumns index
  · exact List.rel_append hcolumns (.cons (.cons hxy .nil) .nil)

theorem relate_evalAll {es es' : List Expr} (h : List.Forall₂ (C.Like calls calls') es es')
    (i : ι) :
    C.Relate i (List.Forall₂ C.values) (evalAll calls es) (evalAll calls' es') := by
  induction h with
  | nil => exact .pure .nil
  | cons he _ ih =>
    exact .bind (he i) fun v v' hv => .bind ih fun vs vs' hvs => .pure (.cons hv hvs)

theorem Computes.relate_evalRow (hC : C.Computes) {es es' : List Expr}
    (h : List.Forall₂ (C.Like calls calls') es es') (i : ι) {columns columns' : List (List Float)}
    (hcolumns : C.columns columns columns') (index : Nat) :
    C.Relate i C.columns (evalRow calls columns index es) (evalRow calls' columns' index es') := by
  induction h generalizing columns columns' index with
  | nil => exact .pure hcolumns
  | cons he _ ih =>
    exact .bind (he i) fun v v' hv => .bind (hC.element i hv) fun x y hxy =>
      ih (columns_addElement hcolumns index hxy) _

theorem Computes.relate_evalRows (hC : C.Computes) {rows rows' : List (List Expr)}
    (h : List.Forall₂ (List.Forall₂ (C.Like calls calls')) rows rows') (i : ι)
    {columns columns' : List (List Float)} (hcolumns : C.columns columns columns') :
    C.Relate i C.columns (evalRows calls columns rows) (evalRows calls' columns' rows') := by
  induction h generalizing columns columns' with
  | nil => exact .pure hcolumns
  | cons hrow _ ih =>
    exact .bind (hC.relate_evalRow hrow i hcolumns 0) fun _ _ hcolumns' => ih hcolumns'

end Steps

/-! ## Expressions -/

namespace Like

variable {C : Comparison ι} {calls calls' : Calls}

theorem number (hC : C.Computes) (text : String) :
    C.Like calls calls' (.number text) (.number text) := by
  intro i
  rw [Expr.eval, Expr.eval]
  split
  · exact .pure (hC.number _)
  · exact .throw (hC.notNumeral _)

theorem name (hC : C.Computes) {text : String}
    (hbound : ∀ i env env', C.envs i env env' →
      Option.Rel C.values (env.vars.find? text) (env'.vars.find? text)) :
    C.Like calls calls' (.name text) (.name text) := by
  intro i
  rw [Expr.eval, Expr.eval]
  exact hC.relate_lookUp (hbound i)

theorem nothing (hC : C.Computes) : C.Like calls calls' .nothing .nothing := by
  intro i
  rw [Expr.eval, Expr.eval]
  exact .pure (hC.number _)

theorem literal (hC : C.Computes) {rows rows' : List (List Expr)}
    (h : List.Forall₂ (List.Forall₂ (C.Like calls calls')) rows rows') :
    C.Like calls calls' (.literal rows) (.literal rows') := by
  intro i
  rw [Expr.eval, Expr.eval]
  exact .bind (hC.relate_evalRows h i .nil) fun _ _ hcolumns => .ofExcept (hC.literal hcolumns)

theorem negation (hC : C.Computes) {e e' : Expr} (h : C.Like calls calls' e e') :
    C.Like calls calls' (.negation e) (.negation e') := by
  intro i
  rw [Expr.eval, Expr.eval]
  exact .bind (h i) fun _ _ hv => .ofExcept (hC.operate "*" hv (hC.number _))

theorem call (hC : C.Stores) (hcalls : C.CallsRelate calls calls') (function : String)
    {args args' : List Expr} (hargs : List.Forall₂ (C.Like calls calls') args args')
    (hfunction : ∀ i env env', C.envs i env env' →
      Option.Rel (C.RunAlike calls calls') (env.functions.find? function)
        (env'.functions.find? function)) :
    C.Like calls calls' (.call function args) (.call function args') := by
  intro i caller caller' hcaller
  obtain ⟨j, henter, hleave⟩ := hcalls i caller caller' hcaller
  rw [Expr.eval, Expr.eval]
  refine resultsRelate_inside hleave (Relate.bind (relate_evalAll hargs j)
    (fun values values' hvalues => ?_) _ _ henter)
  exact .get_bind fun callee callee' hcallee =>
    hC.relate_applyFunction j function (hfunction i _ _ (hleave callee callee' hcallee)) hvalues

theorem definition (hC : C.Computes) {function : String} {params params' : List String}
    {body body' : Node} (hdefine : ∀ i env env', C.envs i env env' →
      C.envs i (env.define function ⟨params, body⟩) (env'.define function ⟨params', body'⟩)) :
    C.Like calls calls' (.definition function params body)
      (.definition function params' body') := by
  intro i
  rw [Expr.eval, Expr.eval]
  exact .bind (.modify (hdefine i)) fun _ _ _ => .pure (hC.number _)

theorem assignment (hC : C.Stores) (target : String) {e e' : Expr}
    (h : C.Like calls calls' e e') :
    C.Like calls calls' (.assignment target e) (.assignment target e') := by
  intro i
  rw [Expr.eval, Expr.eval]
  exact .bind (h i) fun _ _ hv =>
    .bind (.modify fun _ _ henv => hC.setVariable henv target hv) fun _ _ _ => .pure hv

theorem misassignment (hC : C.Computes) {e e' : Expr} (h : C.Like calls calls' e e') :
    C.Like calls calls' (.misassignment e) (.misassignment e') := by
  intro i
  rw [Expr.eval, Expr.eval]
  exact .bind (h i) fun _ _ _ => .throw (hC.reported _)

theorem operation (hC : C.Computes) (operator : String) {l l' r r' : Expr}
    (hl : C.Like calls calls' l l') (hr : C.Like calls calls' r r') :
    C.Like calls calls' (.operation operator l r) (.operation operator l' r') := by
  intro i
  rw [Expr.eval, Expr.eval]
  exact .bind (hl i) fun _ _ hv => .bind (hr i) fun _ _ hw => .ofExcept (hC.operate operator hv hw)

/-- Expressions that fail at once with related errors are evaluated alike. -/
theorem report {e e' : Expr} {error error' : CalcError}
    (h : C.failures (.reported error) (.reported error'))
    (he : e.eval calls = Reckoner.report error) (he' : e'.eval calls' = Reckoner.report error') :
    C.Like calls calls' e e' := by
  intro i
  rw [he, he']
  exact .throw h

end Like

end Comparison

/-! ## Alike expressions -/

/-- Two expressions that are the same up to the nodes that their errors show and the bodies that
they define. -/
inductive Expr.Alike (bodies : Node → Node → Prop) (alike : Failure → Failure → Prop) :
    Expr → Expr → Prop
  | number (text : String) : Alike bodies alike (.number text) (.number text)
  | name (text : String) : Alike bodies alike (.name text) (.name text)
  | nothing : Alike bodies alike .nothing .nothing
  | literal {rows rows' : List (List Expr)}
    (h : List.Forall₂ (List.Forall₂ (Alike bodies alike)) rows rows') :
    Alike bodies alike (.literal rows) (.literal rows')
  | negation {operand operand' : Expr} (h : Alike bodies alike operand operand') :
    Alike bodies alike (.negation operand) (.negation operand')
  | unknownUnary (operator : String) :
    Alike bodies alike (.unknownUnary operator) (.unknownUnary operator)
  | call (function : String) {args args' : List Expr}
    (h : List.Forall₂ (Alike bodies alike) args args') :
    Alike bodies alike (.call function args) (.call function args')
  | definition (function : String) (params : List String) {body body' : Node}
    (h : bodies body body') :
    Alike bodies alike (.definition function params body) (.definition function params body')
  | assignment (target : String) {value value' : Expr} (h : Alike bodies alike value value') :
    Alike bodies alike (.assignment target value) (.assignment target value')
  | misassignment {value value' : Expr} (h : Alike bodies alike value value') :
    Alike bodies alike (.misassignment value) (.misassignment value')
  | operation (operator : String) {left left' right right' : Expr}
    (hl : Alike bodies alike left left') (hr : Alike bodies alike right right') :
    Alike bodies alike (.operation operator left right) (.operation operator left' right')
  | notApplicable {left left' right right' : Node}
    (h : alike (.reported (.notApplicable left right)) (.reported (.notApplicable left' right'))) :
    Alike bodies alike (.notApplicable left right) (.notApplicable left' right')
  | malformed {node node' : Node}
    (h : alike (.reported (.malformed node)) (.reported (.malformed node'))) :
    Alike bodies alike (.malformed node) (.malformed node')

/-- An expression is like itself where errors are. -/
theorem Expr.Alike.refl {alike : Failure → Failure → Prop}
    (hrefl : ∀ error, alike (.reported error) (.reported error)) (e : Expr) :
    Alike (· = ·) alike e e := by
  induction e using Expr.rec
    (motive_2 := fun rows => List.Forall₂ (List.Forall₂ (Alike (· = ·) alike)) rows rows)
    (motive_3 := fun es => List.Forall₂ (Alike (· = ·) alike) es es)
  case number text => exact .number text
  case name text => exact .name text
  case nothing => exact .nothing
  case literal rows ih => exact .literal ih
  case negation operand ih => exact .negation ih
  case unknownUnary operator => exact .unknownUnary operator
  case call function args ih => exact .call function ih
  case definition function params body => exact .definition function params rfl
  case assignment target value ih => exact .assignment target ih
  case misassignment value ih => exact .misassignment ih
  case operation operator left right ihl ihr => exact .operation operator ihl ihr
  case notApplicable left right => exact .notApplicable (hrefl _)
  case malformed node => exact .malformed (hrefl _)
  case nil => exact .nil
  case cons first rest ih ihrest => exact .cons ih ihrest
  case nil => exact .nil
  case cons first rest ih ihrest => exact .cons ih ihrest

mutual

/-- An expression and those that it is made of, the bodies of its definitions apart. The arguments
of a call are among them as evaluation cuts them. -/
def Expr.parts : Expr → List Expr
  | .number text => [.number text]
  | .name text => [.name text]
  | .nothing => [.nothing]
  | .literal rows => .literal rows :: partsOfRows rows
  | .negation operand => .negation operand :: operand.parts
  | .unknownUnary operator => [.unknownUnary operator]
  | .call function args => .call function args :: partsOfAll args
  | .definition function params body => [.definition function params body]
  | .assignment target value => .assignment target value :: value.parts
  | .misassignment value => .misassignment value :: value.parts
  | .operation operator left right => .operation operator left right :: (left.parts ++ right.parts)
  | .notApplicable left right => [.notApplicable left right]
  | .malformed node => [.malformed node]

def partsOfAll : List Expr → List Expr
  | [] => []
  | e :: rest => e.parts ++ partsOfAll rest

def partsOfRows : List (List Expr) → List Expr
  | [] => []
  | row :: rest => partsOfAll row ++ partsOfRows rest

end

namespace Comparison

variable {ι : Type} {C : Comparison ι} {bodies : Node → Node → Prop} {calls calls' : Calls}

/-- What the comparison has to know of a part of an expression: that the function it calls runs
alike, and that what it defines may become visible. -/
def Admits (C : Comparison ι) (bodies : Node → Node → Prop) (calls calls' : Calls) : Expr → Prop
  | .call function _ => ∀ i env env', C.envs i env env' →
      Option.Rel (C.RunAlike calls calls') (env.functions.find? function)
        (env'.functions.find? function)
  | .definition function params body => ∀ body', bodies body body' → ∀ i env env',
      C.envs i env env' →
        C.envs i (env.define function ⟨params, body⟩) (env'.define function ⟨params, body'⟩)
  | _ => True

mutual

/-- **Alike expressions are evaluated alike**, where the comparison admits their calls and
definitions. -/
theorem Respected.like_of_alike (hC : C.Respected) (hcalls : C.CallsRelate calls calls')
    {e e' : Expr} (he : e.Alike bodies C.failures e')
    (h : ∀ part ∈ e.parts, C.Admits bodies calls calls' part) : C.Like calls calls' e e' := by
  cases he with
  | number text => exact .number hC.toComputes text
  | name text => exact .name hC.toComputes fun _ _ _ henv => hC.bound henv text
  | nothing => exact .nothing hC.toComputes
  | literal hrows =>
    exact .literal hC.toComputes (hC.forall₂_rows_of_alike hcalls hrows (List.forall_mem_cons.mp h).2)
  | negation hoperand =>
    exact .negation hC.toComputes (hC.like_of_alike hcalls hoperand (List.forall_mem_cons.mp h).2)
  | unknownUnary operator => exact .report (hC.reported _) (by rw [Expr.eval]) (by rw [Expr.eval])
  | call function hargs =>
    obtain ⟨hfunction, hparts⟩ := List.forall_mem_cons.mp h
    exact .call hC.toStores hcalls function (hC.forall₂_of_alike hcalls hargs hparts) hfunction
  | definition function params hbody =>
    exact .definition hC.toComputes (h _ (List.mem_singleton_self _) _ hbody)
  | assignment target hvalue =>
    exact .assignment hC.toStores target
      (hC.like_of_alike hcalls hvalue (List.forall_mem_cons.mp h).2)
  | misassignment hvalue =>
    exact .misassignment hC.toComputes
      (hC.like_of_alike hcalls hvalue (List.forall_mem_cons.mp h).2)
  | operation operator hl hr =>
    obtain ⟨hleft, hright⟩ := List.forall_mem_append.mp (List.forall_mem_cons.mp h).2
    exact .operation hC.toComputes operator (hC.like_of_alike hcalls hl hleft)
      (hC.like_of_alike hcalls hr hright)
  | notApplicable hfailure => exact .report hfailure (by rw [Expr.eval]) (by rw [Expr.eval])
  | malformed hfailure => exact .report hfailure (by rw [Expr.eval]) (by rw [Expr.eval])

theorem Respected.forall₂_of_alike (hC : C.Respected) (hcalls : C.CallsRelate calls calls')
    {es es' : List Expr} (hes : List.Forall₂ (Expr.Alike bodies C.failures) es es')
    (h : ∀ part ∈ partsOfAll es, C.Admits bodies calls calls' part) :
    List.Forall₂ (C.Like calls calls') es es' := by
  cases hes with
  | nil => exact .nil
  | cons he hes =>
    obtain ⟨hfirst, hrest⟩ := List.forall_mem_append.mp h
    exact .cons (hC.like_of_alike hcalls he hfirst) (hC.forall₂_of_alike hcalls hes hrest)

theorem Respected.forall₂_rows_of_alike (hC : C.Respected) (hcalls : C.CallsRelate calls calls')
    {rows rows' : List (List Expr)}
    (hrows : List.Forall₂ (List.Forall₂ (Expr.Alike bodies C.failures)) rows rows')
    (h : ∀ part ∈ partsOfRows rows, C.Admits bodies calls calls' part) :
    List.Forall₂ (List.Forall₂ (C.Like calls calls')) rows rows' := by
  cases hrows with
  | nil => exact .nil
  | cons hrow hrows =>
    obtain ⟨hfirst, hrest⟩ := List.forall_mem_append.mp h
    exact .cons (hC.forall₂_of_alike hcalls hrow hfirst)
      (hC.forall₂_rows_of_alike hcalls hrows hrest)

end

/-! ## Where all functions are the same -/

/-- Two ways to make calls keep a comparison up in which related environments have the same
functions. -/
structure Simulates (C : Comparison ι) (calls calls' : Calls) : Prop where
  respected : C.Respected
  enter : C.CallsRelate calls calls'
  functions : ∀ {i env env'}, C.envs i env env' →
    ∀ name, env.functions.find? name = env'.functions.find? name
  define : ∀ {i env env'}, C.envs i env env' →
    ∀ name f, C.envs i (env.define name f) (env'.define name f)
  run : ∀ i body, C.Relate i C.values (calls.run body) (calls'.run body)

/-- Every function runs alike with itself. -/
theorem Simulates.runAlike (h : C.Simulates calls calls') {i : ι}
    {env env' : Environment} (henv : C.envs i env env') (name : String) :
    Option.Rel (C.RunAlike calls calls') (env.functions.find? name)
      (env'.functions.find? name) := by
  rw [h.functions henv name]
  cases env'.functions.find? name with
  | none => exact .none
  | some f => exact .some ⟨rfl, fun j => h.run j f.body⟩

/-- Where related environments have the same functions, any expression is admitted. -/
theorem Simulates.like_of_alike (h : C.Simulates calls calls') {e e' : Expr}
    (he : e.Alike (· = ·) C.failures e') : C.Like calls calls' e e' := by
  refine h.respected.like_of_alike h.enter he fun part _ => ?_
  cases part with
  | call function args => exact fun i env env' henv => h.runAlike henv function
  | definition function params body =>
    rintro _ rfl i env env' henv
    exact h.define henv function _
  | _ => trivial

/-- Two ways to enter and leave calls that keep environments related do so at any depth. -/
theorem simulates_nested (hC : C.Respected) (hrunaway : C.failures .runaway .runaway)
    {enter enter' : Environment → Environment}
    {leave leave' : Environment → Environment → Environment}
    (henter : ∀ i caller caller', C.envs i caller caller' →
      ∃ j, C.envs j (enter caller) (enter' caller') ∧
        ∀ callee callee', C.envs j callee callee' →
          C.envs i (leave caller callee) (leave' caller' callee'))
    (hfunctions : ∀ {i env env'}, C.envs i env env' →
      ∀ name, env.functions.find? name = env'.functions.find? name)
    (hdefine : ∀ {i env env'}, C.envs i env env' →
      ∀ name f, C.envs i (env.define name f) (env'.define name f))
    (depth : Nat) :
    C.Simulates (Calls.nested enter leave depth) (Calls.nested enter' leave' depth) := by
  induction depth with
  | zero => exact ⟨hC, henter, hfunctions, hdefine, fun i body => .throw hrunaway⟩
  | succ depth ih =>
    exact ⟨hC, henter, hfunctions, hdefine,
      fun i body => ih.like_of_alike (.refl hC.reported body.meaning) i⟩

end Comparison

end Reckoner
