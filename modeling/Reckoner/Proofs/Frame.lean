import Mathlib.Logic.Relation
import Reckoner.Evaluation
import Reckoner.Proofs.Shapes

/-!
# What an evaluation may change

Evaluating a tree writes only where the tree itself says so (`evalWithin_changesOnly`). The
settings and the layers around the innermost one stay as they are, nothing that is bound loses its
binding, and a binding of the innermost layer can only change under a name that some assignment of
the tree gives a value to, or some definition of it a body. Assignments in the argument of a call,
in the body of a definition, or in whatever a call runs do not count: a call leaves the environment
of its caller as it was (`after_inside`), however it ends.

A frame shares the layers of its caller, so this has to be an invariant of every computation, the
ones in frames among them: what the body of a function may do to the layer of its call is all it
may do to any layer. `Eval.Keeps` is that invariant, and it is closed under the steps that
evaluation is made of.
-/

namespace Reckoner

/-! ## Changes that touch only some names -/

/-- The innermost layer of a scope changes under some names only, and no name is taken away. -/
structure Scope.ChangesOnly {α : Type} (names : String → Prop) (before after : Scope α) :
    Prop where
  outer : after.outer = before.outer
  kept : before.inner.names <+: after.inner.names
  frame : ∀ name, ¬names name → after.inner.find? name = before.inner.find? name

/-- Only variables and functions of some names change, in the innermost layer. -/
structure Environment.ChangesOnly (vars functions : String → Prop)
    (before after : Environment) : Prop where
  mode : after.mode = before.mode
  cap : after.cap = before.cap
  seed : after.seed = before.seed
  vars : before.vars.ChangesOnly vars after.vars
  functions : before.functions.ChangesOnly functions after.functions

/-- The names of a layer keep their places when one of them is bound again. -/
theorem Layer.names_set {α : Type} (name : String) (a : α) (layer : Layer α) :
    layer.names <+: (layer.set name a).names := by
  induction layer with
  | nil => exact List.nil_prefix
  | cons binding rest ih =>
    by_cases h : binding.1 = name
    · simp [Layer.set, h, Layer.names]
    · simpa [Layer.set, h, Layer.names] using ih

theorem Layer.mem_names_iff {α : Type} {name : String} {layer : Layer α} :
    name ∈ layer.names ↔ ∃ a, layer.find? name = some a := by
  constructor
  · intro h
    induction layer with
    | nil => cases h
    | cons binding rest ih =>
      rw [Layer.find?]
      split
      · exact ⟨_, rfl⟩
      · next hname =>
        exact ih ((List.mem_cons.mp h).resolve_left (Ne.symm hname))
  · rintro ⟨a, ha⟩
    exact List.mem_map_of_mem (Layer.mem_of_find? ha)

theorem Layer.mem_names_set {α : Type} {name other : String} {a : α} {layer : Layer α} :
    other ∈ (layer.set name a).names ↔ other ∈ layer.names ∨ other = name := by
  by_cases hother : other = name
  · have hbound := Layer.find?_set_self name a layer
    simp only [hother, or_true, iff_true]
    exact Layer.mem_names_iff.mpr ⟨a, hbound⟩
  · rw [Layer.mem_names_iff, Layer.find?_set_of_ne hother, ← Layer.mem_names_iff]
    simp [hother]

namespace Scope.ChangesOnly

variable {α : Type} {names more : String → Prop} {s₁ s₂ s₃ : Scope α}

theorem refl (s : Scope α) : s.ChangesOnly names s :=
  ⟨rfl, List.prefix_refl _, fun _ _ => rfl⟩

theorem trans (h : s₁.ChangesOnly names s₂) (h' : s₂.ChangesOnly names s₃) :
    s₁.ChangesOnly names s₃ where
  outer := h'.outer.trans h.outer
  kept := h.kept.trans h'.kept
  frame name hname := (h'.frame name hname).trans (h.frame name hname)

theorem mono (hle : ∀ name, names name → more name) (h : s₁.ChangesOnly names s₂) :
    s₁.ChangesOnly more s₂ where
  outer := h.outer
  kept := h.kept
  frame name hname := h.frame name fun hn => hname (hle name hn)

/-- What a name outside of the changes is bound to stays visible. -/
theorem find?_eq (h : s₁.ChangesOnly names s₂) {name : String} (hname : ¬names name) :
    s₂.find? name = s₁.find? name := by
  rw [Scope.find?_eq, h.outer, h.frame name hname, ← Scope.find?_eq]

/-- What has a binding keeps one. -/
theorem bound (h : s₁.ChangesOnly names s₂) {name : String}
    (hbound : ∃ a, s₁.find? name = some a) : ∃ a, s₂.find? name = some a := by
  simp only [Scope.find?_eq, h.outer, Option.or_eq_some_iff] at hbound ⊢
  obtain ⟨a, hinner | ⟨-, houter⟩⟩ := hbound
  · have hkept := h.kept.subset (Layer.mem_names_iff.mpr ⟨a, hinner⟩)
    obtain ⟨b, hb⟩ := Layer.mem_names_iff.mp hkept
    exact ⟨b, .inl hb⟩
  · cases hfound : s₂.inner.find? name with
    | none => exact ⟨a, .inr ⟨rfl, houter⟩⟩
    | some b => exact ⟨b, .inl rfl⟩

theorem set {name : String} (hname : names name) (s : Scope α) (a : α) :
    s.ChangesOnly names (s.set name a) where
  outer := rfl
  kept := Layer.names_set name a s.inner
  frame other hother := by
    have hne : other ≠ name := fun heq => hother (heq ▸ hname)
    exact Layer.find?_set_of_ne hne a s.inner

end Scope.ChangesOnly

namespace Environment.ChangesOnly

variable {vars vars' functions functions' : String → Prop} {env₁ env₂ env₃ : Environment}

theorem refl (env : Environment) : env.ChangesOnly vars functions env :=
  ⟨rfl, rfl, rfl, .refl _, .refl _⟩

theorem trans (h : env₁.ChangesOnly vars functions env₂)
    (h' : env₂.ChangesOnly vars functions env₃) : env₁.ChangesOnly vars functions env₃ where
  mode := h'.mode.trans h.mode
  cap := h'.cap.trans h.cap
  seed := h'.seed.trans h.seed
  vars := h.vars.trans h'.vars
  functions := h.functions.trans h'.functions

theorem mono (hvars : ∀ name, vars name → vars' name)
    (hfunctions : ∀ name, functions name → functions' name)
    (h : env₁.ChangesOnly vars functions env₂) : env₁.ChangesOnly vars' functions' env₂ :=
  ⟨h.mode, h.cap, h.seed, h.vars.mono hvars, h.functions.mono hfunctions⟩

theorem setVariable {name : String} (hname : vars name) (env : Environment) (v : Value) :
    env.ChangesOnly vars functions (env.setVariable name v) :=
  ⟨rfl, rfl, rfl, .set hname _ v, .refl _⟩

theorem setVariables (hall : ∀ name, vars name) (env : Environment)
    (bindings : List (String × Value)) :
    env.ChangesOnly vars functions (env.setVariables bindings) := by
  induction bindings generalizing env with
  | nil => exact .refl env
  | cons binding rest ih => exact (setVariable (hall _) env _).trans (ih _)

theorem define {name : String} (hname : functions name) (env : Environment) (f : Function) :
    env.ChangesOnly vars functions (env.define name f) :=
  ⟨rfl, rfl, rfl, .refl _, .set hname _ f⟩

/-- Leaving a frame gives the caller back, whatever happened in the layer of the frame. -/
theorem leave_eq {caller callee : Environment}
    (h : caller.frame.ChangesOnly vars functions callee) : caller.leave callee = caller :=
  leave_eq_of_outer h.vars.outer h.functions.outer

end Environment.ChangesOnly

/-! ## Computations -/

/-- The environment that a computation ends in, with a value or without. -/
def Eval.after {α : Type} (m : Eval α) (env : Environment) : Environment :=
  match m env with
  | .ok _ env' => env'
  | .error _ env' => env'

/-- A computation changes only variables and functions of some names. -/
def Eval.Keeps {α : Type} (vars functions : String → Prop) (m : Eval α) : Prop :=
  ∀ env : Environment, env.ChangesOnly vars functions (m.after env)

namespace Eval.Keeps

open Environment (ChangesOnly)

variable {α β : Type} {vars vars' functions functions' : String → Prop}

protected theorem mono (hvars : ∀ name, vars name → vars' name)
    (hfunctions : ∀ name, functions name → functions' name) {m : Eval α}
    (h : Keeps vars functions m) : Keeps vars' functions' m :=
  fun env => (h env).mono hvars hfunctions

protected theorem pure (a : α) : Keeps vars functions (Pure.pure a) := ChangesOnly.refl

protected theorem throw (failure : Failure) : Keeps vars functions (throw failure : Eval α) :=
  ChangesOnly.refl

protected theorem report (error : CalcError) : Keeps vars functions (report error : Eval α) :=
  ChangesOnly.refl

protected theorem get : Keeps vars functions (get : Eval Environment) :=
  ChangesOnly.refl

protected theorem ofExcept (x : Except Failure α) : Keeps vars functions (ofExcept x : Eval α) := by
  cases x
  · exact .throw _
  · exact .pure _

protected theorem modify {f : Environment → Environment}
    (h : ∀ env : Environment, env.ChangesOnly vars functions (f env)) :
    Keeps vars functions (modify f : Eval PUnit) := h

/-- What two computations keep they keep one after the other, also when the first one fails. -/
protected theorem bind {m : Eval α} {f : α → Eval β} (hm : Keeps vars functions m)
    (hf : ∀ a, Keeps vars functions (f a)) : Keeps vars functions (m >>= f) := by
  intro env
  have hfirst := hm env
  rw [after] at hfirst ⊢
  cases h : m env with
  | ok a env' =>
    rw [h] at hfirst
    rw [bind_of_ok h]
    exact hfirst.trans (hf a env')
  | error failure env' =>
    rw [h] at hfirst
    rw [bind_of_error h]
    exact hfirst

end Eval.Keeps

/-! ## The assignments and the definitions of a tree -/

def Node.assigned? (node : Node) : Option String :=
  node.assignment?.bind fun sides => sides.1.name?

def Node.defined? (node : Node) : Option String :=
  node.assignment?.bind fun sides => sides.1.signature?.map Prod.fst

/-- The children of a node but for the argument of a call and for the body of a definition. -/
def Node.parts : Node → List Node
  | .leaf _ => []
  | .group children =>
    match children with
    | [.leaf t, right] => if t.kind = .name then [.leaf t] else [.leaf t, right]
    | [left, op, right] =>
      match (group [left, op, right]).assignment? with
      | some (named, stored) =>
        if named.signature?.isSome then [named, op] else [named, op, stored]
      | none => [left, op, right]
    | _ => children

/-- A node that a tree has outside the arguments of its calls and the bodies of its definitions. -/
def Node.Reaches : Node → Node → Prop :=
  Relation.ReflTransGen fun node part => part ∈ node.parts

def Node.Assigns (tree : Node) (name : String) : Prop :=
  ∃ node, tree.Reaches node ∧ node.assigned? = some name

def Node.Defines (tree : Node) (name : String) : Prop :=
  ∃ node, tree.Reaches node ∧ node.defined? = some name

theorem Node.Assigns.of_part {tree part : Node} (h : part ∈ tree.parts) {name : String}
    (hpart : part.Assigns name) : tree.Assigns name := by
  obtain ⟨node, hreach, hname⟩ := hpart
  exact ⟨node, .head h hreach, hname⟩

theorem Node.Defines.of_part {tree part : Node} (h : part ∈ tree.parts) {name : String}
    (hpart : part.Defines name) : tree.Defines name := by
  obtain ⟨node, hreach, hname⟩ := hpart
  exact ⟨node, .head h hreach, hname⟩

theorem Eval.Keeps.of_part {α : Type} {m : Eval α} {tree part : Node} (h : part ∈ tree.parts)
    (hpart : Eval.Keeps part.Assigns part.Defines m) : Eval.Keeps tree.Assigns tree.Defines m :=
  hpart.mono (fun _ => .of_part h) (fun _ => .of_part h)

/-! ## Evaluation -/

/-- Calls run in frames, and whatever they run keeps to the innermost layer. -/
structure Calls.Framed (calls : Calls) : Prop where
  enter : calls.enter = Environment.frame
  leave : calls.leave = Environment.leave
  run : ∀ body, Eval.Keeps (fun _ => True) (fun _ => True) (calls.run body)

section Eval

variable {calls : Calls} {vars functions : String → Prop}

/-- What runs in a frame and keeps to its innermost layer leaves the caller as it was. -/
theorem after_inside {α : Type} (hcalls : calls.Framed) {m : Eval α}
    (hm : m.Keeps vars functions) (env : Environment) : (inside calls m).after env = env := by
  have hframe := hm env.frame
  rw [Eval.after] at hframe ⊢
  rw [inside, hcalls.enter, hcalls.leave]
  cases h : m env.frame with
  | ok a callee =>
    rw [h] at hframe
    exact hframe.leave_eq
  | error failure callee =>
    rw [h] at hframe
    exact hframe.leave_eq

theorem keeps_applyFunction (hcalls : calls.Framed) (name : String) (function? : Option Function)
    (args : List Value) :
    (applyFunction calls name function? args).Keeps (fun _ => True) (fun _ => True) := by
  cases function? with
  | none => exact .bind .get fun env => .ofExcept _
  | some f =>
    rw [applyFunction]
    split
    · exact .report _
    · exact .bind (.modify fun env => .setVariables (fun _ => trivial) env _) fun _ => hcalls.run _

theorem keeps_elementOf (v : Value) : (elementOf v).Keeps vars functions := by
  cases v with
  | scalar x => exact .pure x
  | vector | matrix => exact .bind .get fun env => .report _

theorem keeps_lookUp (name : String) : (lookUp name).Keeps vars functions := by
  refine .bind .get fun env => ?_
  split
  · exact .pure _
  · exact .report _

theorem keeps_evalAll {es : List Expr} (h : ∀ e ∈ es, (e.eval calls).Keeps vars functions) :
    (evalAll calls es).Keeps vars functions := by
  induction es with
  | nil => exact .pure _
  | cons e rest ih =>
    obtain ⟨he, hrest⟩ := List.forall_mem_cons.mp h
    exact .bind he fun v => .bind (ih hrest) fun vs => .pure _

theorem keeps_evalRow {row : List Expr} (h : ∀ e ∈ row, (e.eval calls).Keeps vars functions)
    (columns : List (List Float)) (index : Nat) :
    (evalRow calls columns index row).Keeps vars functions := by
  induction row generalizing columns index with
  | nil => exact .pure _
  | cons e rest ih =>
    obtain ⟨he, hrest⟩ := List.forall_mem_cons.mp h
    exact .bind he fun v => .bind (keeps_elementOf v) fun x => ih hrest _ _

theorem keeps_evalRows {rows : List (List Expr)}
    (h : ∀ row ∈ rows, ∀ e ∈ row, (e.eval calls).Keeps vars functions)
    (columns : List (List Float)) : (evalRows calls columns rows).Keeps vars functions := by
  induction rows generalizing columns with
  | nil => exact .pure _
  | cons row rest ih =>
    obtain ⟨hrow, hrest⟩ := List.forall_mem_cons.mp h
    exact .bind (keeps_evalRow hrow columns 0) fun _ => ih hrest _

theorem after_call (hcalls : calls.Framed) (function : String) {args : List Expr}
    (hargs : ∀ e ∈ args, (e.eval calls).Keeps (fun _ => True) (fun _ => True))
    (env : Environment) : ((Expr.call function args).eval calls).after env = env := by
  rw [Expr.eval]
  refine after_inside hcalls (.bind (keeps_evalAll hargs) fun values => ?_) env
  exact .bind .get fun callee => keeps_applyFunction hcalls _ _ _

end Eval

theorem Node.parts_of_isLiteral {children : List Node} (h : Node.isLiteral children = true) :
    (Node.group children).parts = children := by
  match children with
  | [.leaf t, right] =>
    have hk : t.kind ≠ .name := by
      intro hk
      simp [isLiteral, isLeafOf, hk] at h
    simp [parts, hk]
  | [left, .leaf t, right] => simp [parts, assignment?, h]
  | [left, .group _, right] => simp [parts, assignment?]
  | [.group _, right] => rfl
  | [] | [_] | _ :: _ :: _ :: _ :: _ => simp [parts]

/-- A tree keeps every binding but those of the names that it assigns and defines itself. -/
theorem keeps_eval {calls : Calls} (hcalls : calls.Framed) (tree : Node) :
    (tree.meaning.eval calls).Keeps tree.Assigns tree.Defines := by
  induction tree using Node.meaningInduction with
  | number t hk hm =>
    rw [hm, Expr.eval]
    split
    · exact .pure _
    · exact .throw _
  | name t hk hm =>
    rw [hm, Expr.eval]
    exact keeps_lookUp _
  | literal children hlit hm ih =>
    have hrows : ∀ row ∈ literalRows children, ∀ node ∈ row,
        (node.meaning.eval calls).Keeps (Node.group children).Assigns
          (Node.group children).Defines := by
      intro row hr node hn
      refine .of_part ?_ (ih row hr node hn)
      rw [Node.parts_of_isLiteral hlit]
      exact mem_of_mem_literalRows hr hn
    rw [hm, Expr.eval]
    refine .bind (keeps_evalRows (fun row hr e he => ?_) []) fun columns => .ofExcept _
    obtain ⟨nodes, hnodes, rfl⟩ := List.mem_map.mp hr
    obtain ⟨node, hnode, rfl⟩ := List.mem_map.mp he
    exact hrows nodes hnodes node hnode
  | nothing hm =>
    rw [hm, Expr.eval]
    exact .pure _
  | wrapped child hlit hm ih =>
    rw [hm]
    exact .of_part (by simp [Node.parts]) ih
  | negation t right hk htext hm ih =>
    rw [hm, Expr.eval]
    refine .bind (.of_part ?_ ih) fun v => .ofExcept _
    simp [Node.parts, hk]
  | unknownUnary t right hk hunary htext hm =>
    rw [hm, Expr.eval]
    exact .report _
  | call t right hk hm ih =>
    intro env
    rw [hm, after_call hcalls]
    · exact .refl env
    · intro e he
      obtain ⟨arg, harg, rfl⟩ := List.mem_map.mp he
      exact (ih arg harg).mono (fun _ _ => trivial) (fun _ _ => trivial)
  | notApplicable left right hlit hunary hname hm =>
    rw [hm, Expr.eval]
    exact .report _
  | definition left op right named stored function params ha hs hm =>
    rw [hm, Expr.eval]
    have hdefines : (Node.group [left, op, right]).Defines function :=
      ⟨_, .refl, by simp [Node.defined?, ha, hs]⟩
    exact .bind (.modify fun env => .define hdefines env _) fun _ => .pure _
  | assignment left op right named stored target ha hs hn hm ih =>
    rw [hm, Expr.eval]
    have hassigns : (Node.group [left, op, right]).Assigns target :=
      ⟨_, .refl, by simp [Node.assigned?, ha, hn]⟩
    refine .bind (.of_part ?_ ih) fun v =>
      .bind (.modify fun env => .setVariable hassigns env v) fun _ => .pure _
    simp [Node.parts, ha, hs]
  | misassignment left op right named stored ha hs hn hm ih =>
    rw [hm, Expr.eval]
    refine .bind (.of_part ?_ ih) fun v => .report _
    simp [Node.parts, ha, hs]
  | operation left t right hlit hop hm ihl ihr =>
    have hparts : (Node.group [left, .leaf t, right]).parts = [left, .leaf t, right] := by
      simp [Node.parts, Node.assignment?, hop]
    rw [hm, Expr.eval]
    exact .bind (.of_part (by simp [hparts]) ihl) fun l =>
      .bind (.of_part (by simp [hparts]) ihr) fun r => .ofExcept _
  | malformed children hlit hlen hshape hm =>
    rw [hm, Expr.eval]
    exact .report _

/-! ## Calls nested to any depth -/

theorem framed_framed (depth : Nat) : (Calls.framed depth).Framed := by
  induction depth with
  | zero => exact ⟨rfl, rfl, fun body => .throw _⟩
  | succ depth ih =>
    refine ⟨rfl, rfl, fun body => ?_⟩
    exact (keeps_eval ih body).mono (fun _ _ => trivial) (fun _ _ => trivial)

/-- **Evaluation writes only what its tree assigns and defines.** However the evaluation of a tree
ends, the environment has changed in the innermost layer only, under the names of assignments and
definitions that are outside every argument and every body; a call has changed nothing at all. -/
theorem evalWithin_changesOnly (depth : Nat) (tree : Node) (env : Environment) :
    env.ChangesOnly tree.Assigns tree.Defines ((evalWithin depth tree).after env) ∧
      ∀ callee argument, callee.kind = .name → tree = .group [.leaf callee, argument] →
        (evalWithin depth tree).after env = env := by
  refine ⟨keeps_eval (framed_framed depth) tree env, fun callee argument hk htree => ?_⟩
  rw [evalWithin, htree, Node.meaning_call hk]
  refine after_call (framed_framed depth) _ (fun e he => ?_) env
  obtain ⟨arg, -, rfl⟩ := List.mem_map.mp he
  exact (keeps_eval (framed_framed depth) arg).mono (fun _ _ => trivial) (fun _ _ => trivial)

/-- The call `f(a=5)` of a function whose body is `a=x` leaves no `a` behind. -/
theorem assigning_call_changes_nothing :
    let a := Node.leaf ⟨.name, "a", 2, 3⟩
    let op := Node.leaf ⟨.operator, "=", 3, 4⟩
    let env := Environment.standard.define "f"
      ⟨["x"], .group [.group [a, op, .leaf ⟨.name, "x", 4, 5⟩]]⟩
    let call := Node.group [.leaf ⟨.name, "f", 0, 1⟩,
      .group [.group [a, op, .leaf ⟨.number, "5", 4, 5⟩]]]
    (evalWithin 2 call).after env = env :=
  (evalWithin_changesOnly 2 _ _).2 _ _ rfl rfl

end Reckoner
