import Reckoner.Proofs.Comparison
import Reckoner.Proofs.Operations

/-!
# What happens does not depend on the numbers

An evaluation looks at kinds, shapes, counts and names, and never at an entry. In two environments
that differ in nothing but their numbers (`Environment.SameShapes`), a tree has values of the same
kind and shape, fails for the same cause, or runs away in both, and the environments still differ in
nothing but their numbers afterwards (`evalWithin_sameShapes`).

Behind it are the shapes of the results: what refuses its operands does so by their shapes, which
give the shape of the result too. `Tensor.Uniform` says that of a combination of tensors, and every
operator, built-in function and list in square brackets inherits it.
-/

namespace Reckoner

/-! ## Values of one shape -/

structure Value.SameShape (v v' : Value) : Prop where
  kind : v.kind = v'.kind
  shape : v.shape = v'.shape

namespace Value.SameShape

variable {v v' : Value}

theorem refl (v : Value) : v.SameShape v := ⟨rfl, rfl⟩

/-- The length of a shape tells the kind. -/
theorem of_shape (h : v.shape = v'.shape) : v.SameShape v' := by
  refine ⟨?_, h⟩
  cases v <;> cases v' <;> first | rfl | simp [Value.shape] at h

protected theorem cases (h : v.SameShape v') :
    (∃ x y, v = .scalar x ∧ v' = .scalar y) ∨
      (∃ xs ys, v = .vector xs ∧ v' = .vector ys ∧ xs.length = ys.length) ∨
      ∃ m n, v = .matrix m ∧ v' = .matrix n ∧ m.height = n.height ∧ m.width = n.width := by
  have hshape := h.shape
  cases v with
  | scalar x =>
    cases v' with
    | scalar y => exact .inl ⟨x, y, rfl, rfl⟩
    | vector | matrix => simp [Value.shape] at hshape
  | vector xs =>
    cases v' with
    | vector ys => exact .inr (.inl ⟨xs, ys, rfl, rfl, by simpa [Value.shape] using hshape⟩)
    | scalar | matrix => simp [Value.shape] at hshape
  | matrix m =>
    cases v' with
    | matrix n => exact .inr (.inr ⟨m, n, rfl, rfl, by simpa [Value.shape] using hshape⟩)
    | scalar | vector => simp [Value.shape] at hshape

end Value.SameShape

/-! ## The shapes of results -/

/-- A combination of tensors goes by their shapes: to refuse them, and to shape its result. -/
def Tensor.Uniform (f : Tensor → Tensor → Except ShapeMismatch Tensor) : Prop :=
  ∀ a a' b b' : Tensor, a.shape = a'.shape → b.shape = b'.shape →
    (f a b).map shape = (f a' b').map shape

theorem Tensor.shape_pointwise (f : Float → Float → Float) (a b : Tensor) :
    (pointwise f a b).map shape =
      if a.shape = b.shape then .ok a.shape else if a.shape = [] then .ok b.shape
      else if b.shape = [] then .ok a.shape else .error ⟨a.shape, b.shape⟩ := by
  rw [pointwise]
  split
  · rfl
  · split
    · rfl
    · split <;> rfl

theorem Tensor.uniform_pointwise (f : Float → Float → Float) : Uniform (pointwise f) := by
  intro a a' b b' ha hb
  rw [shape_pointwise, shape_pointwise, ha, hb]

theorem Tensor.uniform_product : Uniform product := by
  rintro ⟨left, xs, hxs⟩ ⟨-, xs', hxs'⟩ ⟨right, ys, hys⟩ ⟨-, ys', hys'⟩ rfl rfl
  rw [product.eq_def, product.eq_def]
  match left, right with
  | [height, inner], [inner'] =>
    dsimp only
    split
    · simp [Except.map, ofItems, length_splitRows]
    · rfl
  | [height, inner], [inner', width] =>
    dsimp only
    split
    · simp [Except.map, ofRows, length_splitRows]
    · rfl
  | [], _ | [_], _ | _ :: _ :: _ :: _, _ | [_, _], [] | [_, _], _ :: _ :: _ :: _ => rfl

theorem heightOf_transposed (width : Nat) (rows : List (List Float)) :
    heightOf (transposed width rows) = if width = 0 then 0 else rows.length := by
  cases width with
  | zero => simp [transposed, heightOf]
  | succ width => simp [transposed, heightOf, List.range_succ_eq_map]

/-- The value of a tensor takes its shape from it. A grid without columns loses its height, whatever
its entries are. -/
theorem Tensor.shape_toValue? {t t' : Tensor} (h : t.shape = t'.shape) :
    t.toValue?.map Value.shape = t'.toValue?.map Value.shape := by
  obtain ⟨shape, entries, hlen⟩ := t
  obtain ⟨_, entries', hlen'⟩ := t'
  obtain rfl : shape = _ := h
  match shape with
  | [] => rfl
  | [size] => simp [toValue?, Value.shape, hlen, hlen']
  | [height, width] =>
    simp [toValue?, Value.shape, Matrix.height, Matrix.width, heightOf_transposed,
      length_transposed, length_splitRows]
  | _ :: _ :: _ :: _ => rfl

theorem shape_onTensors {f : Tensor → Tensor → Except ShapeMismatch Tensor}
    (hf : Tensor.Uniform f) {l l' r r' : Value} (hl : l.SameShape l') (hr : r.SameShape r') :
    (onTensors f l r).map Value.shape = (onTensors f l' r').map Value.shape := by
  have hresult := hf l.toTensor l'.toTensor r.toTensor r'.toTensor
    (by rw [l.shape_toTensor, l'.shape_toTensor, hl.shape])
    (by rw [r.shape_toTensor, r'.shape_toTensor, hr.shape])
  rw [onTensors, onTensors]
  generalize f l.toTensor r.toTensor = result at hresult
  generalize f l'.toTensor r'.toTensor = result' at hresult
  cases result with
  | error mismatch =>
    cases result' with
    | error mismatch' => rw [Except.error.inj hresult]
    | ok t' => cases hresult
  | ok t =>
    cases result' with
    | error mismatch' => cases hresult
    | ok t' =>
      have hshape : t.shape = t'.shape := Except.ok.inj hresult
      have hvalue := Tensor.shape_toValue? hshape
      dsimp only
      generalize t.toValue? = v? at hvalue
      generalize t'.toValue? = v?' at hvalue
      cases v? with
      | none =>
        cases v?' with
        | none => rw [hshape]
        | some v' => cases hvalue
      | some v =>
        cases v?' with
        | none => cases hvalue
        | some v' => exact congrArg Except.ok (Option.some.inj hvalue)

/-! ## Operators -/

section Operators

variable {l l' r r' : Value}

theorem shape_entrywise (f : Float → Float → Float) (action operator : String)
    (hl : l.SameShape l') (hr : r.SameShape r') :
    (entrywise f action operator l r).map Value.shape
      = (entrywise f action operator l' r').map Value.shape := by
  have hsame := shape_onTensors (Tensor.uniform_pointwise f) hl hr
  rcases hl.cases with ⟨x, x', rfl, rfl⟩ | ⟨xs, xs', rfl, rfl, hxs⟩ | ⟨m, m', rfl, rfl, hmh, hmw⟩
  all_goals
    rcases hr.cases with ⟨y, y', rfl, rfl⟩ | ⟨ys, ys', rfl, rfl, hys⟩ | ⟨n, n', rfl, rfl, hnh, hnw⟩
  case inl.inl => exact hsame
  case inr.inl.inr.inl =>
    rw [entrywise, entrywise, hxs, hys]
    split
    · exact hsame
    · rfl
  case inr.inr.inr.inr =>
    rw [entrywise, entrywise, hmh, hmw, hnh, hnw]
    split
    · exact hsame
    · rfl
  all_goals rfl

theorem shape_multiply (hl : l.SameShape l') (hr : r.SameShape r') :
    (multiply l r).map Value.shape = (multiply l' r').map Value.shape := by
  have hscaled := shape_onTensors (Tensor.uniform_pointwise (· * ·)) hl hr
  have hproduct := shape_onTensors Tensor.uniform_product hl hr
  rcases hl.cases with ⟨x, x', rfl, rfl⟩ | ⟨xs, xs', rfl, rfl, hxs⟩ | ⟨m, m', rfl, rfl, hmh, hmw⟩
  all_goals
    rcases hr.cases with ⟨y, y', rfl, rfl⟩ | ⟨ys, ys', rfl, rfl, hys⟩ | ⟨n, n', rfl, rfl, hnh, hnw⟩
  case inr.inr.inr.inl =>
    rw [multiply, multiply, hmw, hys]
    split
    · exact hproduct
    · rfl
  case inr.inr.inr.inr =>
    rw [multiply, multiply, hmw, hnh]
    split
    · exact hproduct
    · rfl
  case inr.inl.inr.inl | inr.inl.inr.inr => rfl
  all_goals exact hscaled

theorem shape_divide (hl : l.SameShape l') (hr : r.SameShape r') :
    (divide l r).map Value.shape = (divide l' r').map Value.shape := by
  have hscaled := shape_onTensors (Tensor.uniform_pointwise (· / ·)) hl hr
  rcases hr.cases with ⟨y, y', rfl, rfl⟩ | ⟨ys, ys', rfl, rfl, hys⟩ | ⟨n, n', rfl, rfl, hnh, hnw⟩
  · exact hscaled
  all_goals
    rw [divide.eq_def, divide.eq_def, hl.kind]
    rfl

theorem shape_raise (hl : l.SameShape l') (hr : r.SameShape r') :
    (raise l r).map Value.shape = (raise l' r').map Value.shape := by
  have hscaled := shape_onTensors (Tensor.uniform_pointwise Float.pow) hl hr
  rcases hl.cases with ⟨x, x', rfl, rfl⟩ | ⟨xs, xs', rfl, rfl, hxs⟩ | ⟨m, m', rfl, rfl, hmh, hmw⟩
  all_goals
    rcases hr.cases with ⟨y, y', rfl, rfl⟩ | ⟨ys, ys', rfl, rfl, hys⟩ | ⟨n, n', rfl, rfl, hnh, hnw⟩
  case inl.inl => exact hscaled
  all_goals rfl

theorem shape_operate (op : String) (hl : l.SameShape l') (hr : r.SameShape r') :
    (operate op l r).map Value.shape = (operate op l' r').map Value.shape := by
  rw [operate, operate]
  cases Operator.ofText? op with
  | none => rfl
  | some operator =>
    cases operator with
    | power => exact shape_raise hl hr
    | add => exact shape_entrywise _ _ _ hl hr
    | subtract => exact shape_entrywise _ _ _ hl hr
    | multiply => exact shape_multiply hl hr
    | divide => exact shape_divide hl hr
    | reserved => rfl

end Operators

/-! ## Built-in functions and lists -/

/-- Which argument is refused, if any, does not depend on the numbers. -/
theorem outcomesRelate_scalarArguments (function : String) {args args' : List Value}
    (h : List.Forall₂ Value.SameShape args args') :
    OutcomesRelate (· = ·) (fun _ _ => True) (scalarArguments function args)
      (scalarArguments function args') := by
  induction h with
  | nil => exact .ok trivial
  | @cons v v' rest rest' hv _ ih =>
    rcases hv.cases with ⟨x, y, rfl, rfl⟩ | ⟨xs, ys, rfl, rfl, -⟩ | ⟨m, n, rfl, rfl, -⟩
    · rw [scalarArguments, scalarArguments]
      generalize scalarArguments function rest = result at ih
      generalize scalarArguments function rest' = result' at ih
      cases ih with
      | ok => exact .ok trivial
      | error h => exact .error h
    · exact .error rfl
    · exact .error rfl

theorem shape_callBuiltin (name : String) {args args' : List Value}
    (h : List.Forall₂ Value.SameShape args args') (mode : TrigMode) :
    (callBuiltin name args mode).map Value.shape
      = (callBuiltin name args' mode).map Value.shape := by
  have hscalars := outcomesRelate_scalarArguments name h
  rw [callBuiltin, callBuiltin, h.length_eq]
  cases Builtin.ofName? name with
  | none => rfl
  | some f =>
    dsimp only
    split
    · generalize scalarArguments name args = result at hscalars
      generalize scalarArguments name args' = result' at hscalars
      cases hscalars with
      | ok => rfl
      | error h => rw [h]
    · rfl

theorem heightOf_congr {columns columns' : List (List Float)}
    (h : List.Forall₂ (fun column column' => column.length = column'.length) columns columns') :
    heightOf columns = heightOf columns' := by
  cases h with
  | nil => rfl
  | cons hcolumn _ => exact hcolumn

theorem shape_ofColumns {columns columns' : List (List Float)}
    (h : List.Forall₂ (fun column column' => column.length = column'.length) columns columns')
    (hcolumns : ∀ column ∈ columns, column.length = heightOf columns)
    (hcolumns' : ∀ column ∈ columns', column.length = heightOf columns') :
    (Value.ofColumns columns).map Value.shape = (Value.ofColumns columns').map Value.shape := by
  rw [Value.ofColumns, Value.ofColumns, Matrix.ofColumns?, Matrix.ofColumns?, dif_pos hcolumns,
    dif_pos hcolumns']
  simp [Except.map, Value.shape, Matrix.height, Matrix.width, heightOf_congr h, h.length_eq]

/-- A list in square brackets goes by the lengths of its columns. -/
theorem shape_valueOfColumns {columns columns' : List (List Float)}
    (h : List.Forall₂ (fun column column' => column.length = column'.length) columns columns') :
    (valueOfColumns columns).map Value.shape = (valueOfColumns columns').map Value.shape := by
  have hlengths : columns.map List.length = columns'.map List.length :=
    List.forall₂_eq_eq_eq ▸ List.forall₂_map_left_iff.mpr (List.forall₂_map_right_iff.mpr h)
  have hany : (columns.any fun column => column.length ≠ heightOf columns)
      = columns'.any fun column => column.length ≠ heightOf columns' := by
    have hanyLengths := congrArg (List.any · fun length => length ≠ heightOf columns) hlengths
    simpa [List.any_map, Function.comp_def, heightOf_congr h] using hanyLengths
  unfold valueOfColumns
  rw [← hany]
  split
  · rfl
  · next hequal =>
    have hcolumns : ∀ column ∈ columns, column.length = heightOf columns := by
      simpa using hequal
    have hcolumns' : ∀ column ∈ columns', column.length = heightOf columns' := by
      rw [hany] at hequal
      simpa using hequal
    cases h with
    | nil => rfl
    | cons hcolumn hrest =>
      cases hrest with
      | nil => exact congrArg (fun size => Except.ok [size]) hcolumn
      | cons hsecond hothers =>
        exact shape_ofColumns (.cons hcolumn (.cons hsecond hothers)) hcolumns hcolumns'

/-! ## Environments of one shape -/

/-- Two scopes have the same names, layer by layer, and bind them to what is related. -/
def Scope.Matches {α : Type} (R : α → α → Prop) (s s' : Scope α) : Prop :=
  List.Forall₂ (fun layer layer' : Layer α =>
    ∀ name, Option.Rel R (layer.find? name) (layer'.find? name)) s.layers s'.layers

/-- Layers that are related one by one still are when the innermost ones are left. -/
theorem Scope.forall₂_layers_leave {α : Type} {R : Layer α → Layer α → Prop} {s s' : Scope α}
    (h : List.Forall₂ R s.layers s'.layers) :
    List.Forall₂ R s.leave.layers s'.leave.layers := by
  obtain ⟨inner, outer⟩ := s
  obtain ⟨inner', outer'⟩ := s'
  cases h with
  | cons hinner houter =>
    cases houter with
    | nil => exact .cons hinner .nil
    | cons hnext hrest => exact .cons hnext hrest

namespace Scope.Matches

variable {α : Type} {R : α → α → Prop} {s s' : Scope α}

theorem refl (hR : ∀ a, R a a) (s : Scope α) : s.Matches R s := by
  refine List.forall₂_same.mpr fun layer _ name => ?_
  cases layer.find? name with
  | none => exact .none
  | some a => exact .some (hR a)

theorem find? (h : s.Matches R s') (name : String) :
    Option.Rel R (s.find? name) (s'.find? name) := by
  rw [Matches] at h
  rw [Scope.find?, Scope.find?]
  generalize s.layers = layers at h
  generalize s'.layers = layers' at h
  induction h with
  | nil => exact .none
  | cons hlayer _ ih =>
    rw [List.findSome?_cons, List.findSome?_cons]
    have hfirst := hlayer name
    generalize Layer.find? name _ = found at hfirst
    generalize Layer.find? name _ = found' at hfirst
    cases hfirst with
    | none => exact ih
    | some h => exact .some h

theorem enter (h : s.Matches R s') : s.enter.Matches R s'.enter :=
  .cons (fun _ => .none) h

theorem leave (h : s.Matches R s') : s.leave.Matches R s'.leave :=
  forall₂_layers_leave h

theorem set (h : s.Matches R s') (name : String) {a a' : α} (ha : R a a') :
    (s.set name a).Matches R (s'.set name a') := by
  cases h with
  | cons hinner houter =>
    refine .cons (fun other => ?_) houter
    rw [Scope.set, Scope.set]
    by_cases hother : other = name
    · rw [hother, Layer.find?_set_self, Layer.find?_set_self]
      exact .some ha
    · rw [Layer.find?_set_of_ne hother, Layer.find?_set_of_ne hother]
      exact hinner other

end Scope.Matches

/-- Two environments differ in nothing but the numbers of their variables, the cap on displayed
digits and the variables to begin with. -/
structure Environment.SameShapes (env env' : Environment) : Prop where
  mode : env.mode = env'.mode
  vars : env.vars.Matches Value.SameShape env'.vars
  functions : env.functions.Matches (· = ·) env'.functions

namespace Environment.SameShapes

variable {env env' : Environment}

theorem refl (env : Environment) : env.SameShapes env :=
  ⟨rfl, .refl .refl _, .refl (fun _ => rfl) _⟩

theorem setVariable (h : env.SameShapes env') (name : String) {v v' : Value}
    (hv : v.SameShape v') : (env.setVariable name v).SameShapes (env'.setVariable name v') :=
  { h with vars := h.vars.set name hv }

theorem define (h : env.SameShapes env') (name : String) (f : Function) :
    (env.define name f).SameShapes (env'.define name f) :=
  { h with functions := h.functions.set name rfl }

theorem frame (h : env.SameShapes env') : env.frame.SameShapes env'.frame :=
  ⟨h.mode, h.vars.enter, h.functions.enter⟩

theorem leave (h : env.SameShapes env') {callee callee' : Environment}
    (hcallee : callee.SameShapes callee') : (env.leave callee).SameShapes (env'.leave callee') :=
  ⟨h.mode, hcallee.vars.leave, hcallee.functions.leave⟩

theorem find?_functions (h : env.SameShapes env') (name : String) :
    env.functions.find? name = env'.functions.find? name := by
  have hfound := h.functions.find? name
  generalize env.functions.find? name = found at hfound
  generalize env'.functions.find? name = found' at hfound
  cases hfound with
  | none => rfl
  | some h => rw [h]

end Environment.SameShapes

/-! ## Evaluation -/

/-- Two failures are the same, but for the numbers that are on display in what a list cannot
contain. -/
inductive Failure.SameCause : Failure → Failure → Prop
  | same (failure : Failure) : SameCause failure failure
  | contents (contents contents' : String) :
    SameCause (.reported (.invalidVectorContents contents))
      (.reported (.invalidVectorContents contents'))

def byShape : Comparison Unit :=
  ⟨fun _ => Environment.SameShapes, Value.SameShape, Failure.SameCause⟩

theorem outcomesRelate_of_shape {x x' : Except Failure Value}
    (h : x.map Value.shape = x'.map Value.shape) :
    OutcomesRelate Failure.SameCause Value.SameShape x x' := by
  cases x with
  | error failure =>
    cases x' with
    | error failure' => exact Except.error.inj h ▸ .error (.same failure)
    | ok v' => cases h
  | ok v =>
    cases x' with
    | error failure' => cases h
    | ok v' => exact .ok (.of_shape (Except.ok.inj h))

theorem relate_elementOf {v v' : Value} (hv : v.SameShape v') :
    byShape.Relate () byShape.numbers (elementOf v) (elementOf v') := by
  rcases hv.cases with ⟨x, y, rfl, rfl⟩ | ⟨xs, ys, rfl, rfl, -⟩ | ⟨m, n, rfl, rfl, -⟩
  · exact .pure hv
  · exact .get_bind fun env env' _ => .throw (.contents _ _)
  · exact .get_bind fun env env' _ => .throw (.contents _ _)

theorem respected_byShape : byShape.Respected where
  reported error := .same _
  notNumeral text := .same _
  number x := .refl _
  bound henv := henv.vars.find?
  setVariable henv name _ _ hv := henv.setVariable name hv
  element i _ _ hv := relate_elementOf hv
  literal h := outcomesRelate_of_shape (shape_valueOfColumns (h.imp fun _ _ hcolumn =>
    hcolumn.length_eq))
  operate operator _ _ _ _ hl hr := outcomesRelate_of_shape (shape_operate operator hl hr)
  builtin henv name _ _ hargs := by
    rw [henv.mode]
    exact outcomesRelate_of_shape (shape_callBuiltin name hargs _)

theorem simulates_byShape (depth : Nat) :
    byShape.Simulates (.framed depth) (.framed depth) :=
  Comparison.simulates_nested respected_byShape (.same _)
    (fun _ _ _ hcaller => ⟨(), hcaller.frame, fun _ _ hcallee => hcaller.leave hcallee⟩)
    (fun henv => henv.find?_functions) (fun henv => henv.define) depth

/-- **What happens does not depend on the numbers.** In two environments that differ in nothing but
their numbers, a tree has values of one kind and shape or fails for the same cause, at any depth of
calls, and leaves environments behind that differ in nothing but their numbers; it runs away at
every depth in both or in none. -/
theorem evalWithin_sameShapes (tree : Node) {env env' : Environment} (h : env.SameShapes env') :
    (∀ depth, ResultsRelate Environment.SameShapes Failure.SameCause Value.SameShape
      (evalWithin depth tree env) (evalWithin depth tree env')) ∧
    ((∀ depth, ∃ after, evalWithin depth tree env = .error .runaway after) ↔
      ∀ depth, ∃ after, evalWithin depth tree env' = .error .runaway after) := by
  have hrelate : ∀ depth, ResultsRelate Environment.SameShapes Failure.SameCause Value.SameShape
      (evalWithin depth tree env) (evalWithin depth tree env') := fun depth =>
    (simulates_byShape depth).like_of_alike (.refl (fun _ => .same _) tree.meaning) () env env' h
  refine ⟨hrelate, forall_congr' fun depth => ?_⟩
  refine (hrelate depth).fails_iff fun f f' hf => ?_
  cases hf with
  | same => rfl
  | contents => simp

/-- The call `half(x)`, where `x` is 1 in one environment and no number in the other. -/
theorem half_of_number_and_nan :
    let body := Node.group [.leaf ⟨.name, "v", 8, 9⟩, .leaf ⟨.operator, "/", 9, 10⟩,
      .leaf ⟨.number, "2", 10, 11⟩]
    let base := Environment.standard.define "half" ⟨["v"], body⟩
    let env := base.setVariable "x" (.scalar 1)
    let env' := base.setVariable "x" (.scalar (0 / 0))
    let tree := Node.group [.leaf ⟨.name, "half", 0, 4⟩, .group [.leaf ⟨.name, "x", 5, 6⟩]]
    env.SameShapes env' ∧
      (∀ depth, ResultsRelate Environment.SameShapes Failure.SameCause Value.SameShape
        (evalWithin depth tree env) (evalWithin depth tree env')) ∧
      ((∀ depth, ∃ after, evalWithin depth tree env = .error .runaway after) ↔
        ∀ depth, ∃ after, evalWithin depth tree env' = .error .runaway after) := by
  intro body base env env' tree
  have hsame : env.SameShapes env' :=
    (Environment.SameShapes.refl base).setVariable "x" (.of_shape rfl)
  exact ⟨hsame, evalWithin_sameShapes tree hsame⟩

end Reckoner
