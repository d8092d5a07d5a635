import Reckoner.Proofs.Frame
import Reckoner.Proofs.Lexemes

/-!
# Trees that evaluate

A tree without definitions comes to a value only if its shape is one that has a value
(`evaluable_of_eval`). A leaf that is neither a number nor a name never does: evaluation would have
to find it among the variables, and these have names (`Environment.Named`), which evaluation keeps
up because all that it assigns to are names of the line.

A definition has a value whatever its body is. The trees to keep it out of are those in
`Node.components`: the children of a group, and the pieces into which the argument of a call is
cut, which are no nodes of the tree.
-/

namespace Reckoner

/-! ## Shapes with a value -/

/-- A tree of the shapes that can have a value, definitions apart. -/
inductive Node.Evaluable : Node → Prop
  | number {t : Token} : t.kind = .number → Evaluable (.leaf t)
  | name {t : Token} : t.kind = .name → Evaluable (.leaf t)
  | literal {children} : isLiteral children = true →
      (∀ row ∈ literalRows children, ∀ node ∈ row, Evaluable node) → Evaluable (.group children)
  | nothing : Evaluable (.group [])
  | wrapped {child} : Evaluable child → Evaluable (.group [child])
  | negation {t : Token} {operand} : t.kind = .operator → t.text = "-" → Evaluable operand →
      Evaluable (.group [.leaf t, operand])
  | call {t : Token} {argument} : t.kind = .name →
      (∀ arg ∈ argument.arguments, Evaluable arg) → Evaluable (.group [.leaf t, argument])
  | operation {t : Token} {left right} : t.kind = .operator → t.text ∈ operatorTiers.flatten →
      Evaluable left → Evaluable right → Evaluable (.group [left, .leaf t, right])

/-! ## Names -/

/-- The text is read as a single name. -/
def IsName (text : String) : Prop :=
  ∃ t, scan text = [t] ∧ t.kind = .name

/-- Every variable that is visible has a name. -/
def Environment.Named (env : Environment) : Prop :=
  ∀ name, env.vars.find? name ≠ none → IsName name

/-- Every leaf could stand in a line. -/
def Node.Lexed (tree : Node) : Prop :=
  tree.AllLeaves Token.Lexed

theorem Token.Lexed.kind_of_isName {t : Token} (h : t.Lexed) (hname : IsName t.text) :
    t.kind = .name := by
  obtain ⟨again, hscan, hkind⟩ := h.scan_text
  obtain ⟨u, hu, hk⟩ := hname
  obtain rfl := List.singleton_inj.mp (hscan.symm.trans hu)
  exact hkind.symm.trans hk

theorem Token.Lexed.isName {t : Token} (h : t.Lexed) (hk : t.kind = .name) : IsName t.text := by
  obtain ⟨again, hscan, hkind⟩ := h.scan_text
  exact ⟨again, hscan, hkind.trans hk⟩

theorem Node.mem_of_mem_parts {children : List Node} {part : Node}
    (h : part ∈ (Node.group children).parts) : part ∈ children := by
  match children with
  | [.leaf t, right] =>
    rw [parts] at h
    split at h
    · exact List.mem_of_mem_take (i := 1) h
    · exact h
  | [left, op, right] =>
    rw [parts] at h
    split at h
    · next named stored hsides =>
      obtain ⟨hnamed, hstored⟩ := mem_of_assignment?_eq_some hsides
      have hop : op ∈ [left, op, right] := by simp
      have hlast : ∀ n ∈ [op, stored], n ∈ [left, op, right] :=
        List.forall_mem_cons.mpr ⟨hop, List.forall_mem_singleton.mpr hstored⟩
      split at h
      · exact List.forall_mem_cons.mpr ⟨hnamed, List.forall_mem_singleton.mpr hop⟩ part h
      · exact List.forall_mem_cons.mpr ⟨hnamed, hlast⟩ part h
    · exact h
  | [] => cases h
  | [.group _, right] | [_] | _ :: _ :: _ :: _ :: _ => simpa [parts] using h

/-- What a line assigns to has a name. -/
theorem Node.Assigns.isName {tree : Node} (hlexed : tree.Lexed) {name : String}
    (h : tree.Assigns name) : IsName name := by
  obtain ⟨node, hreach, hname⟩ := h
  have hnode : node.Lexed := by
    clear hname
    induction hreach with
    | refl => exact hlexed
    | @tail node part _ hpart ih =>
      cases node with
      | leaf t => cases hpart
      | group children => exact ih.of_mem (mem_of_mem_parts hpart)
  obtain ⟨⟨named, stored⟩, hsides, htarget⟩ := Option.bind_eq_some_iff.mp hname
  obtain ⟨left, op, right, rfl, -⟩ := assignment?_eq_some hsides
  have hnamed := (mem_of_assignment?_eq_some hsides).1
  cases named with
  | group children => cases htarget
  | leaf t =>
    simp only [name?, Option.ite_none_right_eq_some, Option.some.injEq] at htarget
    obtain ⟨hk, rfl⟩ := htarget
    exact (hnode.of_mem hnamed).leaf.isName hk

theorem Environment.ChangesOnly.named {vars functions : String → Prop} {env env' : Environment}
    (h : env.ChangesOnly vars functions env') (hvars : ∀ name, vars name → IsName name)
    (henv : env.Named) : env'.Named := by
  intro name hfound
  by_cases hname : vars name
  · exact hvars name hname
  · refine henv name ?_
    rwa [h.vars.find?_eq hname] at hfound

theorem isName_of_kinds {name : String} (h : (scan name).map Token.kind = [.name]) :
    IsName name := by
  obtain ⟨t, hscan, hk⟩ := List.map_eq_singleton_iff.mp h
  exact ⟨t, hscan, hk⟩

theorem isName_of_mem_initialVariables {name : String} (h : name ∈ initialVariables.names) :
    IsName name := by
  have hnames : ∀ name ∈ initialVariables.names, (scan name).map Token.kind = [.name] := by
    decide +kernel
  exact isName_of_kinds (hnames name h)

/-- A fresh environment binds the names of its seed and those to begin with. -/
theorem mem_names_startOf {seed : Layer Value} {name : String} :
    name ∈ (Environment.startOf seed).names
      ↔ name ∈ initialVariables.names ∨ name ∈ seed.names := by
  have hfold : ∀ layer : Layer Value,
      name ∈ (seed.foldl (fun layer binding => layer.set binding.1 binding.2) layer).names
        ↔ name ∈ layer.names ∨ name ∈ seed.names := by
    induction seed with
    | nil => simp [Layer.names]
    | cons binding rest ih =>
      intro layer
      rw [List.foldl_cons, ih, Layer.mem_names_set, Layer.names, Layer.names, Layer.names,
        List.map_cons, List.mem_cons, or_assoc]
  exact hfold initialVariables

theorem named_fresh {seed : Layer Value} (hseed : ∀ name ∈ seed.names, IsName name)
    (mode : TrigMode) (cap : DigitCap) : (Environment.fresh seed mode cap).Named := by
  intro name hfound
  rw [Environment.fresh, Scope.find?_ofLayer, Option.ne_none_iff_exists'] at hfound
  rcases mem_names_startOf.mp (Layer.mem_names_iff.mpr hfound) with hinitial | hname
  · exact isName_of_mem_initialVariables hinitial
  · exact hseed name hname

/-! ## Definitions -/

def Node.children : Node → List Node
  | .leaf _ => []
  | .group children => children

/-- The trees that evaluating a node may evaluate: its children, and of a call also the pieces of
the argument. -/
def Node.components : Node → List Node
  | .group [.leaf t, right] =>
    if t.kind = .name then .leaf t :: right :: right.arguments else [.leaf t, right]
  | node => node.children

/-- No definition is in the tree, where `parts` says what is in a node. -/
def Node.DefinitionFree (parts : Node → List Node) (tree : Node) : Prop :=
  ∀ node, Relation.ReflTransGen (fun node part => part ∈ parts node) tree node →
    node.defined? = none

theorem Node.definitionFree_iff {parts : Node → List Node} {tree : Node} :
    tree.DefinitionFree parts
      ↔ tree.defined? = none ∧ ∀ part ∈ parts tree, part.DefinitionFree parts := by
  constructor
  · exact fun h => ⟨h tree .refl, fun part hpart node hnode => h node (.head hpart hnode)⟩
  · rintro ⟨hroot, hparts⟩ node hnode
    rcases hnode.cases_head with rfl | ⟨part, hpart, hrest⟩
    · exact hroot
    · exact hparts part hpart node hrest

theorem Node.definitionFree_leaf {parts : Node → List Node} {t : Token}
    (h : parts (.leaf t) = []) : DefinitionFree parts (.leaf t) :=
  definitionFree_iff.mpr ⟨rfl, by rw [h]; exact List.forall_mem_nil _⟩

theorem Node.mem_components {children : List Node} {node : Node} (h : node ∈ children) :
    node ∈ (Node.group children).components := by
  rw [components.eq_def]
  split
  · next t right heq =>
    obtain rfl := Node.group.inj heq
    split
    · exact List.mem_append_left right.arguments h
    · exact h
  · exact h

theorem Node.mem_components_of_mem_arguments {t : Token} {right arg : Node} (hk : t.kind = .name)
    (harg : arg ∈ right.arguments) : arg ∈ (Node.group [.leaf t, right]).components := by
  simp [components, hk, harg]

theorem Node.DefinitionFree.of_mem {children : List Node} {node : Node}
    (h : (Node.group children).DefinitionFree components) (hnode : node ∈ children) :
    node.DefinitionFree components :=
  (definitionFree_iff.mp h).2 node (mem_components hnode)

theorem Node.DefinitionFree.of_mem_arguments {t : Token} {right arg : Node}
    (h : (Node.group [.leaf t, right]).DefinitionFree components) (hk : t.kind = .name)
    (harg : arg ∈ right.arguments) : arg.DefinitionFree components :=
  (definitionFree_iff.mp h).2 arg (mem_components_of_mem_arguments hk harg)

theorem Node.AllLeaves.of_mem_components {P : Token → Prop} {node part : Node}
    (h : node.AllLeaves P) (hpart : part ∈ node.components) : part.AllLeaves P := by
  cases node with
  | leaf t => cases hpart
  | group children =>
    rw [components.eq_def] at hpart
    split at hpart
    · next t right heq =>
      obtain rfl := Node.group.inj heq
      split at hpart
      · rcases List.mem_append.mp (show part ∈ [.leaf t, right] ++ right.arguments from hpart) with
          hmem | harg
        · exact h.of_mem hmem
        · exact (h.of_mem (by simp)).of_mem_arguments harg
      · exact h.of_mem hpart
    · exact h.of_mem hpart

/-- A tree without an assignment operator defines nothing. -/
theorem Node.definitionFree_of_leaves {tree : Node}
    (h : tree.AllLeaves fun t => t.text ∉ assignmentOperators) :
    tree.DefinitionFree components := by
  intro node hnode
  have hleaves : node.AllLeaves fun t => t.text ∉ assignmentOperators := by
    induction hnode with
    | refl => exact h
    | tail _ hpart ih => exact ih.of_mem_components hpart
  cases hsides : node.assignment? with
  | none => rw [defined?, hsides, Option.bind_none]
  | some sides =>
    obtain ⟨left, op, right, rfl, -, hop, -⟩ := assignment?_eq_some hsides
    have hleaf : (Node.leaf op).AllLeaves fun t => t.text ∉ assignmentOperators :=
      hleaves.of_mem (by simp)
    exact absurd hop hleaf.leaf

/-! ## Evaluation -/

theorem Eval.bind_eq_ok {α β : Type} {m : Eval α} {f : α → Eval β} {env env' : Environment} {b : β}
    (h : (m >>= f) env = .ok b env') :
    ∃ a env₁, m env = .ok a env₁ ∧ f a env₁ = .ok b env' := by
  cases hm : m env with
  | ok a env₁ =>
    rw [bind_of_ok hm] at h
    exact ⟨a, env₁, rfl, h⟩
  | error failure env₁ =>
    rw [bind_of_error hm] at h
    cases h

theorem named_of_eval {calls : Calls} (hcalls : calls.Framed) {tree : Node} (hlexed : tree.Lexed)
    {env env' : Environment} {v : Value} (henv : env.Named)
    (h : tree.meaning.eval calls env = .ok v env') : env'.Named := by
  have hkeeps := keeps_eval hcalls tree env
  rw [Eval.after, h] at hkeeps
  exact hkeeps.named (fun _ hname => hname.isName hlexed) henv

section Rows

variable {calls : Calls} {I : Environment → Prop} {P : Node → Prop} {nodes : List Node}

/-- What each of some nodes shows when it comes to a value, all of them show when they all do. -/
theorem forall_of_evalAll
    (hstep : ∀ node ∈ nodes, ∀ env env' v, I env → node.meaning.eval calls env = .ok v env' →
      P node ∧ I env') {env env' : Environment} {vs : List Value} (henv : I env)
    (h : evalAll calls (nodes.map Node.meaning) env = .ok vs env') : ∀ node ∈ nodes, P node := by
  induction nodes generalizing env env' vs with
  | nil => exact List.forall_mem_nil _
  | cons node rest ih =>
    obtain ⟨hnode, hrest⟩ := List.forall_mem_cons.mp hstep
    obtain ⟨v, env₁, hv, h⟩ := Eval.bind_eq_ok h
    obtain ⟨vs', env₂, hvs, -⟩ := Eval.bind_eq_ok h
    obtain ⟨hP, henv₁⟩ := hnode env env₁ v henv hv
    exact List.forall_mem_cons.mpr ⟨hP, ih hrest henv₁ hvs⟩

theorem elementOf_eq_ok {v : Value} {env env' : Environment} {x : Float}
    (h : elementOf v env = .ok x env') : env' = env := by
  cases v with
  | scalar y => exact (EStateM.Result.ok.inj h).2.symm
  | vector | matrix => cases h

theorem forall_of_evalRow
    (hstep : ∀ node ∈ nodes, ∀ env env' v, I env → node.meaning.eval calls env = .ok v env' →
      P node ∧ I env') {columns columns' : List (List Float)} {index : Nat}
    {env env' : Environment} (henv : I env)
    (h : evalRow calls columns index (nodes.map Node.meaning) env = .ok columns' env') :
    (∀ node ∈ nodes, P node) ∧ I env' := by
  induction nodes generalizing columns index env with
  | nil => exact ⟨List.forall_mem_nil _, (EStateM.Result.ok.inj h).2 ▸ henv⟩
  | cons node rest ih =>
    obtain ⟨hnode, hrest⟩ := List.forall_mem_cons.mp hstep
    obtain ⟨v, env₁, hv, helement⟩ := Eval.bind_eq_ok h
    obtain ⟨x, env₂, hx, hrow⟩ := Eval.bind_eq_ok helement
    obtain ⟨hP, henv₁⟩ := hnode env env₁ v henv hv
    obtain rfl := elementOf_eq_ok hx
    obtain ⟨hall, henv'⟩ := ih hrest henv₁ hrow
    exact ⟨List.forall_mem_cons.mpr ⟨hP, hall⟩, henv'⟩

theorem forall_of_evalRows {rows : List (List Node)}
    (hstep : ∀ row ∈ rows, ∀ node ∈ row, ∀ env env' v, I env →
      node.meaning.eval calls env = .ok v env' → P node ∧ I env')
    {columns columns' : List (List Float)} {env env' : Environment} (henv : I env)
    (h : evalRows calls columns (rows.map fun row => row.map Node.meaning) env
      = .ok columns' env') : ∀ row ∈ rows, ∀ node ∈ row, P node := by
  induction rows generalizing columns env with
  | nil => exact List.forall_mem_nil _
  | cons row rest ih =>
    obtain ⟨hrow, hrest⟩ := List.forall_mem_cons.mp hstep
    obtain ⟨columns₁, env₁, hcolumns, h⟩ := Eval.bind_eq_ok h
    obtain ⟨hall, henv₁⟩ := forall_of_evalRow hrow henv hcolumns
    exact List.forall_mem_cons.mpr ⟨hall, ih hrest henv₁ h⟩

end Rows

theorem lookUp_eq_ok {name : String} {env env' : Environment} {v : Value}
    (h : lookUp name env = .ok v env') : env.vars.find? name = some v := by
  obtain ⟨got, env₁, hget, hfound⟩ := Eval.bind_eq_ok h
  obtain ⟨rfl, rfl⟩ := EStateM.Result.ok.inj hget
  cases hw : env.vars.find? name with
  | none =>
    rw [hw] at hfound
    cases hfound
  | some w =>
    rw [hw] at hfound
    rw [(EStateM.Result.ok.inj hfound).1]

theorem text_mem_of_operate {op : String} {l r v : Value} (h : operate op l r = .ok v) :
    op ∈ operatorTiers.flatten := by
  rw [operate] at h
  have hknown : ∀ operator, Operator.ofText? op = some operator → op ∈ operatorTiers.flatten := by
    unfold Operator.ofText?
    split <;> simp [operatorTiers]
  cases hop : Operator.ofText? op with
  | none =>
    rw [hop] at h
    cases h
  | some operator => exact hknown operator hop

theorem ofExcept_eq_ok {α : Type} {x : Except Failure α} {env env' : Environment} {a : α}
    (h : (ofExcept x : Eval α) env = .ok a env') : x = .ok a ∧ env' = env := by
  cases x with
  | error failure => cases h
  | ok b =>
    obtain ⟨rfl, rfl⟩ := EStateM.Result.ok.inj h
    exact ⟨rfl, rfl⟩

theorem inside_eq_ok {α : Type} {calls : Calls} {m : Eval α} {env env' : Environment} {a : α}
    (h : inside calls m env = .ok a env') :
    ∃ callee, m (calls.enter env) = .ok a callee ∧ env' = calls.leave env callee := by
  rw [inside] at h
  cases hm : m (calls.enter env) with
  | ok b callee =>
    rw [hm] at h
    obtain ⟨rfl, rfl⟩ := EStateM.Result.ok.inj h
    exact ⟨callee, rfl, rfl⟩
  | error failure callee =>
    rw [hm] at h
    cases h

theorem Calls.Framed.named_enter {calls : Calls} (hcalls : calls.Framed) {env : Environment}
    (henv : env.Named) : (calls.enter env).Named := by
  intro name hfound
  rw [hcalls.enter, Environment.frame, Scope.find?_enter] at hfound
  exact henv name hfound

/-- A leaf that comes to a value is a number or a name. -/
theorem kind_of_eval {calls : Calls} {t : Token} (hlexed : t.Lexed) {env env' : Environment}
    {v : Value} (henv : env.Named) (h : (Node.leaf t).meaning.eval calls env = .ok v env') :
    t.kind = .number ∨ t.kind = .name := by
  by_cases hk : t.kind = .number
  · exact .inl hk
  · -- what is looked up is bound and so a name, and its text is all that makes a leaf one
    rw [Node.meaning, if_neg hk, Expr.eval] at h
    have hbound : env.vars.find? t.text ≠ none := by
      rw [lookUp_eq_ok h]
      exact Option.some_ne_none v
    exact .inr (hlexed.kind_of_isName (henv _ hbound))

/-- A tree that comes to a value has a shape with a value. -/
theorem evaluable_of_eval {calls : Calls} (hcalls : calls.Framed) {tree : Node}
    (hlexed : tree.Lexed) (hfree : tree.DefinitionFree Node.components)
    {env env' : Environment} {v : Value}
    (henv : env.Named) (h : tree.meaning.eval calls env = .ok v env') : tree.Evaluable := by
  induction tree using Node.meaningInduction generalizing env env' v with
  | number t hk hm => exact .number hk
  | name t hk hm =>
    rcases kind_of_eval hlexed.leaf henv h with hnumber | hname
    · exact .number hnumber
    · exact .name hname
  | literal children hlit hm ih =>
    rw [hm, Expr.eval] at h
    obtain ⟨columns, env₁, hrows, -⟩ := Eval.bind_eq_ok h
    refine .literal hlit (forall_of_evalRows (I := Environment.Named)
      (fun row hr node hn env₂ env₃ w henv₂ hw => ?_) henv hrows)
    have hmem := mem_of_mem_literalRows hr hn
    exact ⟨ih row hr node hn (hlexed.of_mem hmem)
      (hfree.of_mem hmem) henv₂ hw,
      named_of_eval hcalls (hlexed.of_mem hmem) henv₂ hw⟩
  | nothing hm => exact .nothing
  | wrapped child hlit hm ih =>
    rw [hm] at h
    have hmem := List.mem_singleton_self child
    exact .wrapped (ih (hlexed.of_mem hmem) (hfree.of_mem hmem) henv h)
  | negation t right hk htext hm ih =>
    rw [hm, Expr.eval] at h
    obtain ⟨w, env₁, hw, -⟩ := Eval.bind_eq_ok h
    have hmem : right ∈ [.leaf t, right] := by simp
    exact .negation hk htext (ih (hlexed.of_mem hmem) (hfree.of_mem hmem) henv hw)
  | unknownUnary t right hk hunary htext hm =>
    rw [hm] at h
    cases h
  | call t right hk hm ih =>
    rw [hm, Expr.eval] at h
    obtain ⟨caller, env₁, hget, hinside⟩ := Eval.bind_eq_ok h
    obtain ⟨rfl, rfl⟩ := EStateM.Result.ok.inj hget
    obtain ⟨callee, hbody, -⟩ := inside_eq_ok hinside
    obtain ⟨values, env₂, hargs, -⟩ := Eval.bind_eq_ok hbody
    refine .call hk (forall_of_evalAll (I := Environment.Named)
      (fun arg harg env₃ env₄ w henv₃ hw => ?_) (hcalls.named_enter henv) hargs)
    have hright : right ∈ [.leaf t, right] := by simp
    have hlexedArg : arg.Lexed := (hlexed.of_mem hright).of_mem_arguments harg
    exact ⟨ih arg harg hlexedArg (hfree.of_mem_arguments hk harg) henv₃ hw,
      named_of_eval hcalls hlexedArg henv₃ hw⟩
  | notApplicable left right hlit hunary hname hm =>
    rw [hm] at h
    cases h
  | definition left op right named stored function params ha hs hm =>
    have hnone := hfree _ .refl
    rw [Node.defined?, ha] at hnone
    simp [hs] at hnone
  | assignment left op right named stored target ha hs hn hm ih =>
    rw [hm, Expr.eval] at h
    obtain ⟨w, env₁, hw, -⟩ := Eval.bind_eq_ok h
    obtain ⟨l, t, r, heq, hk, htext, hsides⟩ := Node.assignment?_eq_some ha
    obtain ⟨rfl, rfl, rfl⟩ : left = l ∧ op = .leaf t ∧ right = r := by simpa using heq
    have hnamed : named.Evaluable := by
      cases named with
      | group children => cases hn
      | leaf u => exact .name (Option.ite_none_right_eq_some.mp hn).1
    have htier : t.text ∈ operatorTiers.flatten := by
      revert htext
      generalize t.text = text
      revert text
      decide
    rw [assignmentSides] at hsides
    split at hsides
    · obtain ⟨rfl, rfl⟩ := Prod.mk.inj hsides
      have hmem : stored ∈ [named, .leaf t, stored] := by simp
      exact .operation hk htier hnamed (ih (hlexed.of_mem hmem) (hfree.of_mem hmem) henv hw)
    · obtain ⟨rfl, rfl⟩ := Prod.mk.inj hsides
      have hmem : stored ∈ [stored, .leaf t, named] := by simp
      exact .operation hk htier (ih (hlexed.of_mem hmem) (hfree.of_mem hmem) henv hw) hnamed
  | misassignment left op right named stored ha hs hn hm ih =>
    rw [hm, Expr.eval] at h
    obtain ⟨w, env₁, -, hreport⟩ := Eval.bind_eq_ok h
    cases hreport
  | operation left t right hlit hop hm ihl ihr =>
    rw [hm, Expr.eval] at h
    obtain ⟨l, env₁, hl, hrest⟩ := Eval.bind_eq_ok h
    obtain ⟨r, env₂, hr, happly⟩ := Eval.bind_eq_ok hrest
    have hleft : left ∈ [left, .leaf t, right] := by simp
    have hright : right ∈ [left, .leaf t, right] := by simp
    have hmiddle : .leaf t ∈ [left, .leaf t, right] := by simp
    have henv₁ := named_of_eval hcalls (hlexed.of_mem hleft) henv hl
    have htext := text_mem_of_operate (ofExcept_eq_ok happly).1
    have ht : t.Lexed := (hlexed.of_mem hmiddle).leaf
    exact .operation (ht.kind_of_text_mem htext) htext
      (ihl (hlexed.of_mem hleft) (hfree.of_mem hleft) henv hl)
      (ihr (hlexed.of_mem hright) (hfree.of_mem hright) henv₁ hr)
  | malformed children hlit hlen hshape hm =>
    rw [hm] at h
    cases h

end Reckoner
