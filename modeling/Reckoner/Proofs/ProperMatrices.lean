import Reckoner.Proofs.Frame
import Reckoner.Proofs.Uniformity

/-!
# Matrices are proper

A list in square brackets is only a matrix if it has a second column, and no operator makes a matrix
smaller than its operands. So nothing that is evaluated makes a matrix without rows or with less
than two columns out of values that are none (`evaluations_proper`): a single column is a vector
wherever it comes up.

Operators go by shapes (`ProperShape`). That a list has no empty columns is what its elements keep
up, one after the other. Evaluation is then gone through once (`yields_eval`), with what holds of a
call on its way: it leaves the layers around its own as they were, hence its caller proper. The
evaluations that an evaluation comes through are named one by one (`Evaluation.Needs`), arguments
and bodies among them, and all of them start where the values are proper.
-/

namespace Reckoner

/-- A matrix has at least one row and at least two columns, all of the same height. -/
def Value.Proper : Value → Prop
  | .scalar _ | .vector _ => True
  | .matrix m => 1 ≤ m.height ∧ 2 ≤ m.width ∧ ∀ column ∈ m.columns, column.length = m.height

def ProperShape : List Nat → Prop
  | [height, width] => 1 ≤ height ∧ 2 ≤ width
  | _ => True

theorem Value.proper_iff (v : Value) : v.Proper ↔ ProperShape v.shape := by
  cases v with
  | scalar | vector => exact Iff.rfl
  | matrix m => exact ⟨fun h => ⟨h.1, h.2.1⟩, fun h => ⟨h.1, h.2, m.rectangular⟩⟩

/-! ## Operators -/

namespace Tensor

variable {a b t : Tensor}

theorem proper_toValue? {v : Value} (h : t.toValue? = some v) (ht : ProperShape t.shape) :
    v.Proper := by
  obtain ⟨shape, entries, hlen⟩ := t
  match shape with
  | [] | [_] => exact Option.some.inj h ▸ trivial
  | [height, width] =>
    have hshape : v.shape = [height, width] := by
      have hwidth : width ≠ 0 := by
        have := ht.2
        omega
      rw [← Option.some.inj h]
      simp [Value.shape, Matrix.height, Matrix.width, heightOf_transposed, length_transposed,
        length_splitRows, hwidth]
    rw [Value.proper_iff, hshape]
    exact ht
  | _ :: _ :: _ :: _ => cases h

theorem proper_pointwise {f : Float → Float → Float} (h : pointwise f a b = .ok t)
    (ha : ProperShape a.shape) (hb : ProperShape b.shape) : ProperShape t.shape := by
  have hshape := shape_pointwise f a b
  rw [h] at hshape
  split at hshape
  · rw [Except.ok.inj hshape]
    exact ha
  · split at hshape
    · rw [Except.ok.inj hshape]
      exact hb
    · split at hshape
      · rw [Except.ok.inj hshape]
        exact ha
      · cases hshape

/-- A product is as high as its left operand and as wide as its right one. -/
theorem proper_product (h : product a b = .ok t) (ha : ProperShape a.shape)
    (hb : ProperShape b.shape) : ProperShape t.shape := by
  rw [product.eq_def] at h
  split at h
  · split at h
    · rw [← Except.ok.inj h]
      trivial
    · cases h
  · next height inner inner' width hleft hright =>
    split at h
    · rw [hleft] at ha
      rw [hright] at hb
      rw [← Except.ok.inj h]
      simp only [ofRows, List.length_map, length_splitRows]
      exact ⟨ha.1, hb.2⟩
    · cases h
  · cases h

end Tensor

theorem pointwise_of_entrywise {f : Float → Float → Float} {action op : String} {l r v : Value}
    (h : entrywise f action op l r = .ok v) : onTensors (Tensor.pointwise f) l r = .ok v := by
  unfold entrywise at h
  split at h
  · exact h
  · split at h
    · exact h
    · cases h
  · split at h
    · exact h
    · cases h
  · cases h

/-- Whatever an operator makes of two values is their combination, entry by entry or as a product
of grids. -/
theorem operate_cases {op : String} {l r v : Value} (h : operate op l r = .ok v) :
    (∃ f, onTensors (Tensor.pointwise f) l r = .ok v) ∨ onTensors Tensor.product l r = .ok v := by
  rw [operate] at h
  cases hop : Operator.ofText? op with
  | none => simp [hop] at h
  | some operator =>
    rw [hop] at h
    cases operator with
    | power =>
      change raise l r = .ok v at h
      unfold raise at h
      split at h
      · exact .inl ⟨_, h⟩
      · cases h
    | add | subtract => exact .inl ⟨_, pointwise_of_entrywise h⟩
    | multiply =>
      change multiply l r = .ok v at h
      unfold multiply at h
      split at h
      · exact .inl ⟨_, h⟩
      · exact .inl ⟨_, h⟩
      · split at h
        · exact .inr h
        · cases h
      · split at h
        · exact .inr h
        · cases h
      · cases h
    | divide =>
      change divide l r = .ok v at h
      unfold divide at h
      split at h
      · exact .inl ⟨_, h⟩
      · cases h
    | reserved => cases h

theorem proper_onTensors {f : Tensor → Tensor → Except ShapeMismatch Tensor}
    (hf : ∀ {a b t : Tensor}, f a b = .ok t → ProperShape a.shape → ProperShape b.shape →
      ProperShape t.shape) {l r v : Value} (h : onTensors f l r = .ok v) (hl : l.Proper)
    (hr : r.Proper) : v.Proper := by
  rw [Value.proper_iff, ← Value.shape_toTensor] at hl hr
  rw [onTensors] at h
  split at h
  · cases h
  · next t ht =>
    split at h
    · next w hw =>
      rw [← Except.ok.inj h]
      exact Tensor.proper_toValue? hw (hf ht hl hr)
    · cases h

/-- No operator makes an improper matrix of proper operands. -/
theorem proper_operate {op : String} {l r v : Value} (h : operate op l r = .ok v) (hl : l.Proper)
    (hr : r.Proper) : v.Proper := by
  rcases operate_cases h with ⟨f, hf⟩ | hproduct
  · exact proper_onTensors Tensor.proper_pointwise hf hl hr
  · exact proper_onTensors Tensor.proper_product hproduct hl hr

/-! ## Lists and built-in functions -/

/-- An element makes no column empty. -/
theorem filled_addElement {columns : List (List Float)} (h : ∀ column ∈ columns, column ≠ [])
    (index : Nat) (x : Float) : ∀ column ∈ addElement columns index x, column ≠ [] := by
  intro column hcolumn
  rw [addElement] at hcolumn
  split at hcolumn
  · obtain ⟨i, hi, rfl⟩ := List.mem_iff_getElem.mp hcolumn
    rw [List.getElem_modify]
    split
    · simp
    · exact h _ (List.getElem_mem _)
  · rcases List.mem_append.mp hcolumn with hold | hnew
    · exact h column hold
    · rw [List.mem_singleton.mp hnew]
      simp

/-- Columns that are not empty make a proper value: a matrix takes two of them. -/
theorem proper_valueOfColumns {columns : List (List Float)} {v : Value}
    (hfilled : ∀ column ∈ columns, column ≠ []) (h : valueOfColumns columns = .ok v) :
    v.Proper := by
  unfold valueOfColumns at h
  split at h
  · cases h
  · split at h
    · rw [← Except.ok.inj h]
      trivial
    · rw [← Except.ok.inj h]
      trivial
    · next hempty hsingle =>
      match columns with
      | [] => exact absurd rfl hempty
      | [column] => exact absurd rfl (hsingle column)
      | first :: second :: rest =>
        rw [Value.ofColumns, Matrix.ofColumns?] at h
        split at h
        · next m hm =>
          split at hm
          · next hrectangular =>
            rw [← Except.ok.inj h, ← Option.some.inj hm]
            have hhigh := List.length_pos_of_ne_nil (hfilled first List.mem_cons_self)
            exact ⟨hhigh, by simp [Matrix.width], hrectangular⟩
          · cases hm
        · cases h

theorem proper_callBuiltin {name : String} {args : List Value} {mode : TrigMode} {v : Value}
    (h : callBuiltin name args mode = .ok v) : v.Proper := by
  unfold callBuiltin at h
  split at h
  · cases h
  · split at h
    · cases hscalars : scalarArguments name args with
      | error failure => rw [hscalars] at h; cases h
      | ok xs =>
        rw [hscalars] at h
        rw [← Except.ok.inj h]
        trivial
    · cases h

/-! ## Environments -/

def Environment.Proper (env : Environment) : Prop :=
  ∀ name v, env.vars.find? name = some v → v.Proper

namespace Environment.Proper

variable {env : Environment}

/-- What an environment begins with is proper if its seed is. -/
theorem fresh {seed : Layer Value} (hseed : ∀ binding ∈ seed, binding.2.Proper) (mode : TrigMode)
    (cap : DigitCap) : (Environment.fresh seed mode cap).Proper := by
  have hinitial : ∀ binding ∈ initialVariables, binding.2.Proper := by
    simp [initialVariables, constants, Value.Proper]
  have hstart : ∀ binding ∈ Environment.startOf seed, binding.2.Proper := by
    refine List.foldlRecOn (motive := fun layer : Layer Value => ∀ binding ∈ layer, binding.2.Proper)
      seed _ hinitial fun layer hlayer next hnext binding hbinding => ?_
    rcases Layer.mem_set hbinding with hold | hnew
    · exact hlayer binding hold
    · exact hnew ▸ hseed next hnext
  intro name v hv
  rw [Environment.fresh, Scope.find?_ofLayer] at hv
  exact hstart _ (Layer.mem_of_find? hv)

theorem frame (h : env.Proper) : env.frame.Proper := by
  intro name v hv
  rw [Environment.frame, Scope.find?_enter] at hv
  exact h name v hv

theorem setVariable (h : env.Proper) (name : String) {v : Value} (hv : v.Proper) :
    (env.setVariable name v).Proper := by
  intro other w hw
  rw [Environment.setVariable] at hw
  by_cases hother : other = name
  · rw [hother, Scope.find?_set_self] at hw
    exact Option.some.inj hw ▸ hv
  · rw [Scope.find?_set_of_ne hother] at hw
    exact h other w hw

theorem setVariables (h : env.Proper) {bindings : List (String × Value)}
    (hbindings : ∀ binding ∈ bindings, binding.2.Proper) : (env.setVariables bindings).Proper := by
  induction bindings generalizing env with
  | nil => exact h
  | cons binding rest ih =>
    obtain ⟨hfirst, hrest⟩ := List.forall_mem_cons.mp hbindings
    exact ih (h.setVariable binding.1 hfirst) hrest

/-- The parameters of a function stand for its arguments. -/
theorem setArguments (h : env.Proper) (params : List String) {args : List Value}
    (hargs : ∀ v ∈ args, v.Proper) : (env.setVariables (params.zip args)).Proper :=
  h.setVariables fun _ hbinding => hargs _ (List.of_mem_zip hbinding).2

end Environment.Proper

/-- The values that are visible are proper, and the layers around the innermost ones are those of
another environment. -/
structure Environment.ProperWithin (around env : Environment) : Prop where
  proper : env.Proper
  vars : env.vars.outer = around.vars.outer
  functions : env.functions.outer = around.functions.outer

theorem Environment.outer_setVariables (env : Environment) (bindings : List (String × Value)) :
    (env.setVariables bindings).vars.outer = env.vars.outer ∧
      (env.setVariables bindings).functions = env.functions := by
  induction bindings generalizing env with
  | nil => exact ⟨rfl, rfl⟩
  | cons binding rest ih => exact ih (env.setVariable binding.1 binding.2)

/-! ## Computations -/

/-- Among proper values a computation comes to a result of some sort. However it ends, the values
are still proper and the layers around the innermost ones are as before. -/
def Eval.Yields {α : Type} (good : α → Prop) (m : Eval α) : Prop :=
  ∀ env : Environment, env.Proper →
    match m env with
    | .ok a env' => good a ∧ env.ProperWithin env'
    | .error _ env' => env.ProperWithin env'

namespace Eval.Yields

variable {α β : Type} {good : α → Prop} {fine : β → Prop}

protected theorem pure {a : α} (h : good a) : Yields good (Pure.pure a) :=
  fun _ henv => ⟨h, henv, rfl, rfl⟩

protected theorem throw (failure : Failure) : Yields good (throw failure : Eval α) :=
  fun _ henv => ⟨henv, rfl, rfl⟩

protected theorem ofExcept {x : Except Failure α} (h : ∀ a, x = .ok a → good a) :
    Yields good (ofExcept x) := by
  cases x with
  | ok a => exact .pure (h a rfl)
  | error failure => exact .throw failure

protected theorem modify {f : Environment → Environment}
    (h : ∀ env : Environment, env.Proper → env.ProperWithin (f env)) :
    Yields (fun _ => True) (modify f : Eval PUnit) :=
  fun env henv => ⟨trivial, h env henv⟩

protected theorem bind {m : Eval α} {f : α → Eval β} (hm : Yields good m)
    (hf : ∀ a, good a → Yields fine (f a)) : Yields fine (m >>= f) := by
  intro env henv
  have hfirst := hm env henv
  cases h : m env with
  | error failure env' =>
    rw [h] at hfirst
    rw [Eval.bind_of_error h]
    exact hfirst
  | ok a env' =>
    rw [h] at hfirst
    obtain ⟨ha, hproper, hvars, hfunctions⟩ := hfirst
    have hsecond := hf a ha env' hproper
    rw [Eval.bind_of_ok h]
    cases h' : f a env' with
    | ok b env'' =>
      rw [h'] at hsecond
      obtain ⟨hb, hproper', hvars', hfunctions'⟩ := hsecond
      exact ⟨hb, hproper', hvars'.trans hvars, hfunctions'.trans hfunctions⟩
    | error failure env'' =>
      rw [h'] at hsecond
      exact ⟨hsecond.proper, hsecond.vars.trans hvars, hsecond.functions.trans hfunctions⟩

/-- What depends on the environment may rely on proper values in it. -/
theorem get_bind {f : Environment → Eval β}
    (hf : ∀ env : Environment, env.Proper → Yields fine (f env)) : Yields fine (get >>= f) :=
  fun env henv => hf env henv env henv

end Eval.Yields

/-! ## Evaluation -/

/-- Calls are made in frames, and what they run yields proper values. -/
structure Calls.Proper (calls : Calls) : Prop where
  enter : calls.enter = Environment.frame
  leave : calls.leave = Environment.leave
  run : ∀ body, (calls.run body).Yields Value.Proper

section Steps

variable {calls : Calls}

/-- What happens in a frame leaves the caller as it was. -/
theorem yields_inside (hcalls : calls.Proper) {α : Type} {good : α → Prop} {m : Eval α}
    (hm : m.Yields good) : (inside calls m).Yields good := by
  intro env henv
  have hframe := hm env.frame henv.frame
  rw [inside, hcalls.enter, hcalls.leave]
  cases h : m env.frame with
  | ok a callee =>
    rw [h] at hframe
    obtain ⟨ha, -, hvars, hfunctions⟩ := hframe
    have hback : env.leave callee = env := Environment.leave_eq_of_outer hvars hfunctions
    show good a ∧ env.ProperWithin (env.leave callee)
    rw [hback]
    exact ⟨ha, henv, rfl, rfl⟩
  | error failure callee =>
    rw [h] at hframe
    have hback : env.leave callee = env :=
      Environment.leave_eq_of_outer hframe.vars hframe.functions
    show env.ProperWithin (env.leave callee)
    rw [hback]
    exact ⟨henv, rfl, rfl⟩

theorem yields_lookUp (name : String) : (lookUp name).Yields Value.Proper := by
  refine .get_bind fun env henv => ?_
  split
  · next v hv => exact .pure (henv name v hv)
  · exact .throw _

theorem yields_elementOf (v : Value) : (elementOf v).Yields fun _ => True := by
  cases v with
  | scalar x => exact .pure trivial
  | vector | matrix => exact .get_bind fun _ _ => .throw _

theorem yields_applyFunction (hcalls : calls.Proper) (name : String)
    (function? : Option Function) {args : List Value} (hargs : ∀ v ∈ args, v.Proper) :
    (applyFunction calls name function? args).Yields Value.Proper := by
  cases function? with
  | none => exact .get_bind fun env _ => .ofExcept fun v hv => proper_callBuiltin hv
  | some f =>
    rw [applyFunction]
    split
    · exact .throw _
    · refine .bind (.modify fun env henv => ⟨henv.setArguments f.params hargs, ?_, ?_⟩)
        fun _ _ => hcalls.run f.body
      · exact (env.outer_setVariables _).1
      · rw [(env.outer_setVariables _).2]

mutual

/-- An evaluation among proper values comes to a proper value and leaves proper values behind. -/
theorem yields_eval (hcalls : calls.Proper) (e : Expr) : (e.eval calls).Yields Value.Proper := by
  cases e with
  | number text =>
    rw [Expr.eval]
    split
    · exact .pure trivial
    · exact .throw _
  | name text =>
    rw [Expr.eval]
    exact yields_lookUp text
  | nothing =>
    rw [Expr.eval]
    exact .pure trivial
  | literal rows =>
    rw [Expr.eval]
    exact .bind (yields_evalRows hcalls rows (List.forall_mem_nil _)) fun columns hfilled =>
      .ofExcept fun v hv => proper_valueOfColumns hfilled hv
  | negation operand =>
    rw [Expr.eval]
    exact .bind (yields_eval hcalls operand) fun v hproper =>
      .ofExcept fun w hw => proper_operate hw hproper trivial
  | call function args =>
    rw [Expr.eval]
    refine .get_bind fun caller _ => yields_inside hcalls ?_
    exact .bind (yields_evalAll hcalls args) fun values hvalues =>
      .get_bind fun callee _ => yields_applyFunction hcalls function _ hvalues
  | definition function params body =>
    rw [Expr.eval]
    exact .bind (.modify fun env henv => ⟨henv, rfl, rfl⟩) fun _ _ => .pure trivial
  | assignment target value =>
    rw [Expr.eval]
    exact .bind (yields_eval hcalls value) fun v hproper =>
      .bind (.modify fun env henv => ⟨henv.setVariable target hproper, rfl, rfl⟩)
        fun _ _ => .pure hproper
  | misassignment value =>
    rw [Expr.eval]
    exact .bind (yields_eval hcalls value) fun _ _ => .throw _
  | operation operator left right =>
    rw [Expr.eval]
    exact .bind (yields_eval hcalls left) fun l hl => .bind (yields_eval hcalls right) fun r hr =>
      .ofExcept fun v hv => proper_operate hv hl hr
  | unknownUnary | notApplicable | malformed =>
    rw [Expr.eval]
    exact .throw _

theorem yields_evalAll (hcalls : calls.Proper) (es : List Expr) :
    (evalAll calls es).Yields fun values => ∀ v ∈ values, v.Proper := by
  cases es with
  | nil => exact .pure (List.forall_mem_nil _)
  | cons e rest =>
    rw [evalAll]
    exact .bind (yields_eval hcalls e) fun v hv => .bind (yields_evalAll hcalls rest)
      fun vs hvs => .pure (List.forall_mem_cons.mpr ⟨hv, hvs⟩)

theorem yields_evalRow (hcalls : calls.Proper) (es : List Expr) {columns : List (List Float)}
    (hfilled : ∀ column ∈ columns, column ≠ []) (index : Nat) :
    (evalRow calls columns index es).Yields fun columns => ∀ column ∈ columns, column ≠ [] := by
  cases es with
  | nil => exact .pure hfilled
  | cons e rest =>
    rw [evalRow]
    exact .bind (yields_eval hcalls e) fun v _ => .bind (yields_elementOf v) fun x _ =>
      yields_evalRow hcalls rest (filled_addElement hfilled index x) _

theorem yields_evalRows (hcalls : calls.Proper) (rows : List (List Expr))
    {columns : List (List Float)} (hfilled : ∀ column ∈ columns, column ≠ []) :
    (evalRows calls columns rows).Yields fun columns => ∀ column ∈ columns, column ≠ [] := by
  cases rows with
  | nil => exact .pure hfilled
  | cons row rest =>
    rw [evalRows]
    exact .bind (yields_evalRow hcalls row hfilled 0) fun _ hfilled' =>
      yields_evalRows hcalls rest hfilled'

end

end Steps

theorem proper_framed (depth : Nat) : (Calls.framed depth).Proper := by
  induction depth with
  | zero => exact ⟨rfl, rfl, fun body => .throw _⟩
  | succ depth ih => exact ⟨rfl, rfl, fun body => yields_eval ih body.meaning⟩

/-! ## The evaluations within an evaluation -/

/-- An expression in the environment that it is evaluated in, with calls nested at most `depth`
deep. -/
structure Evaluation where
  depth : Nat
  expr : Expr
  env : Environment

namespace Evaluation

def result (e : Evaluation) : EStateM.Result Failure Environment Value :=
  e.expr.eval (.framed e.depth) e.env

/-- The environment that the evaluation ends in, with a value or without. -/
def after (e : Evaluation) : Environment :=
  (e.expr.eval (.framed e.depth)).after e.env

/-- An evaluation comes through another one: that of an operand, of an element of a list or an
argument of a call with everything before it evaluated, or of the body that a call runs. -/
inductive Needs : Evaluation → Evaluation → Prop
  | operand {depth : Nat} {operand : Expr} {env : Environment} :
    Needs ⟨depth, .negation operand, env⟩ ⟨depth, operand, env⟩
  | assigned {depth : Nat} {target : String} {value : Expr} {env : Environment} :
    Needs ⟨depth, .assignment target value, env⟩ ⟨depth, value, env⟩
  | misassigned {depth : Nat} {value : Expr} {env : Environment} :
    Needs ⟨depth, .misassignment value, env⟩ ⟨depth, value, env⟩
  | left {depth : Nat} {operator : String} {left right : Expr} {env : Environment} :
    Needs ⟨depth, .operation operator left right, env⟩ ⟨depth, left, env⟩
  | right {depth : Nat} {operator : String} {left right : Expr} {env env' : Environment}
    {l : Value} (hleft : left.eval (.framed depth) env = .ok l env') :
    Needs ⟨depth, .operation operator left right, env⟩ ⟨depth, right, env'⟩
  | element {depth : Nat} {rows : List (List Expr)} {before behind : List Expr} {e : Expr}
    {env env' : Environment} {values : List Value} (hrows : rows.flatten = before ++ e :: behind)
    (hbefore : evalAll (.framed depth) before env = .ok values env') :
    Needs ⟨depth, .literal rows, env⟩ ⟨depth, e, env'⟩
  | argument {depth : Nat} {function : String} {args before behind : List Expr} {e : Expr}
    {env env' : Environment} {values : List Value} (hargs : args = before ++ e :: behind)
    (hbefore : evalAll (.framed depth) before env.frame = .ok values env') :
    Needs ⟨depth, .call function args, env⟩ ⟨depth, e, env'⟩
  | body {depth : Nat} {function : String} {args : List Expr} {env callee : Environment}
    {values : List Value} {f : Function}
    (hargs : evalAll (.framed (depth + 1)) args env.frame = .ok values callee)
    (hfunction : (env.leave callee).functions.find? function = some f)
    (hcount : f.params.length = values.length) :
    Needs ⟨depth + 1, .call function args, env⟩
      ⟨depth, f.body.meaning, callee.setVariables (f.params.zip values)⟩

/-- An evaluation among proper values comes to a proper value, if it does to a value, and leaves
proper values behind. -/
theorem proper_result (e : Evaluation) (h : e.env.Proper) :
    e.after.Proper ∧ ∀ v env, e.result = .ok v env → v.Proper := by
  have hyields := yields_eval (proper_framed e.depth) e.expr e.env h
  rw [after, Eval.after, result]
  cases hresult : e.expr.eval (.framed e.depth) e.env with
  | ok v env =>
    rw [hresult] at hyields
    refine ⟨hyields.2.proper, fun w env' hw => ?_⟩
    exact (EStateM.Result.ok.inj hw).1 ▸ hyields.1
  | error failure env =>
    rw [hresult] at hyields
    refine ⟨hyields.proper, fun v env' hv => ?_⟩
    cases hv

/-- Whatever an evaluation comes through starts among proper values if it does itself. -/
theorem Needs.proper {outer inner : Evaluation} (h : outer.Needs inner) (henv : outer.env.Proper) :
    inner.env.Proper := by
  have hall : ∀ {depth es values} {env env' : Environment}, env.Proper →
      evalAll (.framed depth) es env = .ok values env' →
      (∀ v ∈ values, v.Proper) ∧ env'.Proper := by
    intro depth es values env env' henv h
    have hyields := yields_evalAll (proper_framed depth) es env henv
    rw [h] at hyields
    exact ⟨hyields.1, hyields.2.proper⟩
  cases h with
  | operand | assigned | misassigned | left => exact henv
  | @right depth operator l r env env' v hleft =>
    have hyields := yields_eval (proper_framed depth) l env henv
    rw [hleft] at hyields
    exact hyields.2.proper
  | element hrows hbefore => exact (hall henv hbefore).2
  | argument hargs hbefore => exact (hall henv.frame hbefore).2
  | body hargs hfunction hcount =>
    obtain ⟨hvalues, hcallee⟩ := hall henv.frame hargs
    exact hcallee.setArguments _ hvalues

end Evaluation

/-- The environment after trees have been evaluated in order, those that fail among them. -/
def Environment.afterTrees (depth : Nat) (env : Environment) (trees : List Node) : Environment :=
  trees.foldl (fun env tree => (evalWithin depth tree).after env) env

theorem Environment.Proper.afterTrees (depth : Nat) {env : Environment} (henv : env.Proper)
    (trees : List Node) : (env.afterTrees depth trees).Proper := by
  induction trees generalizing env with
  | nil => exact henv
  | cons tree rest ih => exact ih (Evaluation.proper_result ⟨depth, tree.meaning, env⟩ henv).1

/-- **No evaluation makes an improper matrix.** Among values whose matrices have a row, two columns
and one height, whatever is evaluated after whatever else: each evaluation on the way, be it of an
operand, an element, an argument or a body in the frame of its call, starts among such values,
leaves such values behind however it ends, and has no other value itself. -/
theorem evaluations_proper {env : Environment} (henv : env.Proper) (depth : Nat)
    (earlier : List Node) (tree : Node) {inner : Evaluation}
    (hneeds : Relation.ReflTransGen Evaluation.Needs
      ⟨depth, tree.meaning, env.afterTrees depth earlier⟩ inner) :
    inner.env.Proper ∧ inner.after.Proper ∧ ∀ v env', inner.result = .ok v env' → v.Proper := by
  have hstart : inner.env.Proper := by
    induction hneeds with
    | refl => exact henv.afterTrees depth earlier
    | tail _ hlast ih => exact hlast.proper ih
  exact ⟨hstart, inner.proper_result hstart⟩

/-- The call `f()` runs the body `[1,2]` of the function among proper values. -/
theorem body_of_call_proper :
    let row := Node.group [.leaf ⟨.leftBracket, "[", 4, 5⟩, .leaf ⟨.number, "1", 5, 6⟩,
      .leaf ⟨.comma, ",", 6, 7⟩, .leaf ⟨.number, "2", 7, 8⟩]
    let env := Environment.standard.define "f" ⟨[], row⟩
    let tree := Node.group [.leaf ⟨.name, "f", 0, 1⟩, .group []]
    let body : Evaluation := ⟨0, row.meaning, env.frame⟩
    env.Proper ∧ Relation.ReflTransGen Evaluation.Needs ⟨1, tree.meaning, env⟩ body ∧
      body.env.Proper ∧ body.after.Proper ∧ ∀ v env', body.result = .ok v env' → v.Proper := by
  intro row env tree body
  have hproper : env.Proper :=
    Environment.Proper.fresh (List.forall_mem_nil _) .degrees .standard
  have hmeaning : tree.meaning = .call "f" [] := by
    simp [tree, Node.meaning_call, Node.arguments, Node.isLiteral]
  have hneeds : Relation.ReflTransGen Evaluation.Needs ⟨1, tree.meaning, env⟩ body := by
    rw [hmeaning]
    exact .single (.body (f := ⟨[], row⟩) rfl rfl rfl)
  exact ⟨hproper, hneeds, evaluations_proper hproper 1 [] tree hneeds⟩

end Reckoner
