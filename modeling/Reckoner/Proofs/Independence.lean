import Reckoner.Proofs.Footprint
import Reckoner.Proofs.Segments

/-!
# Independent lines

Two lines that do not meddle with each other can change places (`lines_commute`). What a line may
meddle with are the names that it assigns or defines (`Node.WritesTo`), and it has to keep away from
everything that the other line can come across (`Environment.Mentions`).

One line leaves an environment behind that the other one cannot tell from the one before
(`agreeBut_after`), so each comes to the same in both orders, also when it fails half way. A name
in the end is bound to what one of the lines has written, or to what was there before, and no line
writes over what the other one has written.
-/

namespace Reckoner

/-! ## Two computations in both orders -/

def Eval.outcome {α : Type} (m : Eval α) (env : Environment) : Except Failure α :=
  match m env with
  | .ok a _ => .ok a
  | .error failure _ => .error failure

/-- Two computations can change places: each comes to the same before the other one and after it,
with a value or without, and both orders end in the same bindings. -/
structure Eval.Commute {α β : Type} (m : Eval α) (m' : Eval β) (env : Environment) : Prop where
  first : m.outcome (m'.after env) = m.outcome env
  second : m'.outcome (m.after env) = m'.outcome env
  same : (m'.after (m.after env)).SameBindings (m.after (m'.after env))

theorem ResultsRelate.outcome_eq {α : Type} {envs : Environment → Environment → Prop}
    {m m' : Eval α} {env env' : Environment} (h : ResultsRelate envs (· = ·) (· = ·) (m env) (m' env')) :
    m.outcome env = m'.outcome env' := by
  rw [Eval.outcome, Eval.outcome]
  generalize m env = result at h
  generalize m' env' = result' at h
  cases h with
  | ok ha => exact congrArg Except.ok ha
  | error hfailure => exact congrArg Except.error hfailure

/-! ## What a line writes and what it comes across -/

def Node.WritesTo (tree : Node) (name : String) : Prop :=
  ∃ node, tree.Contains node ∧ (node.assigned? = some name ∨ node.defined? = some name)

/-- What evaluating a tree can come across: the leaves of the tree, those of the bodies of the
functions that are visible, and the parameters of these. -/
inductive Environment.Mentions (env : Environment) (tree : Node) : String → Prop
  | leaf {t : Token} (h : t ∈ tree.leaves) : env.Mentions tree t.text
  | body {name : String} {f : Function} {t : Token} (hf : env.functions.find? name = some f)
    (h : t ∈ f.body.leaves) : env.Mentions tree t.text
  | param {name param : String} {f : Function} (hf : env.functions.find? name = some f)
    (h : param ∈ f.params) : env.Mentions tree param

theorem Node.Reaches.contains {tree node : Node} (h : tree.Reaches node) : tree.Contains node := by
  refine Relation.ReflTransGen.mono (fun node part hpart => ?_) _ _ h
  cases node with
  | leaf t => exact hpart
  | group children => exact mem_of_mem_parts hpart

theorem Node.Assigns.writesTo {tree : Node} {name : String} (h : tree.Assigns name) :
    tree.WritesTo name :=
  have ⟨node, hreach, hname⟩ := h
  ⟨node, hreach.contains, .inl hname⟩

theorem Node.Defines.writesTo {tree : Node} {name : String} (h : tree.Defines name) :
    tree.WritesTo name :=
  have ⟨node, hreach, hname⟩ := h
  ⟨node, hreach.contains, .inr hname⟩

theorem Node.writesTo_leaf {t : Token} {name : String} : ¬(Node.leaf t).WritesTo name := by
  rintro ⟨node, hnode, hname⟩
  rcases hnode.cases_head with rfl | ⟨part, hpart, -⟩
  · rcases hname with hname | hname <;> cases hname
  · cases hpart

/-- What a group writes it writes itself, or a child does. -/
theorem Node.writesTo_group {children : List Node} {name : String} :
    (Node.group children).WritesTo name
      ↔ (Node.group children).assigned? = some name ∨ (Node.group children).defined? = some name
        ∨ ∃ child ∈ children, child.WritesTo name := by
  constructor
  · rintro ⟨node, hnode, hname⟩
    rcases hnode.cases_head with rfl | ⟨child, hchild, hrest⟩
    · exact or_assoc.mp (.inl hname)
    · exact .inr (.inr ⟨child, hchild, node, hrest, hname⟩)
  · rintro (hname | hname | ⟨child, hchild, node, hnode, hname⟩)
    · exact ⟨_, .refl, .inl hname⟩
    · exact ⟨_, .refl, .inr hname⟩
    · exact ⟨node, hnode.of_mem hchild, hname⟩

theorem Node.name?_eq_some {node : Node} {name : String} (h : node.name? = some name) :
    ∃ t, node = .leaf t ∧ t.text = name := by
  cases node with
  | group children => cases h
  | leaf t =>
    simp only [name?, Option.ite_none_right_eq_some, Option.some.injEq] at h
    exact ⟨t, rfl, h.2⟩

/-- The name that a node assigns a value to, or defines a function of, stands in it. -/
theorem Node.exists_leaf_of_written {node : Node} {name : String}
    (h : node.assigned? = some name ∨ node.defined? = some name) :
    ∃ t ∈ node.leaves, t.text = name := by
  have hleaf : ∀ named stored, node.assignment? = some (named, stored) →
      ∀ t ∈ named.leaves, t ∈ node.leaves := by
    intro named stored hsides t ht
    obtain ⟨left, op, right, rfl, -⟩ := assignment?_eq_some hsides
    have hnamed := (mem_of_assignment?_eq_some hsides).1
    exact AllLeaves.of_mem (P := (· ∈ (Node.group [left, .leaf op, right]).leaves))
      (fun _ h => h) hnamed t ht
  rcases h with h | h
  · obtain ⟨⟨named, stored⟩, hsides, hname⟩ := Option.bind_eq_some_iff.mp h
    obtain ⟨t, rfl, htext⟩ := name?_eq_some hname
    exact ⟨t, hleaf _ _ hsides t (List.mem_singleton_self t), htext⟩
  · obtain ⟨⟨named, stored⟩, hsides, hname⟩ := Option.bind_eq_some_iff.mp h
    obtain ⟨⟨function, params⟩, hsignature, rfl⟩ := Option.map_eq_some_iff.mp hname
    obtain ⟨callee, parameters, rfl, -, hcallee, -⟩ := signature?_eq_some.mp hsignature
    obtain ⟨t, rfl, htext⟩ := name?_eq_some hcallee
    exact ⟨t, hleaf _ _ hsides t (by simp [leaves, leavesAll_eq_flatMap]), htext⟩

/-- A name that a line writes is one that it mentions. -/
theorem Node.WritesTo.mentions {tree : Node} {name : String} (h : tree.WritesTo name)
    (env : Environment) : env.Mentions tree name := by
  obtain ⟨node, hnode, hname⟩ := h
  obtain ⟨t, ht, rfl⟩ := exists_leaf_of_written hname
  refine .leaf ?_
  clear hname
  induction hnode using Relation.ReflTransGen.head_induction_on with
  | refl => exact ht
  | @head tree child hchild _ ih =>
    cases tree with
    | leaf u => cases hchild
    | group children => exact AllLeaves.of_mem (fun _ h => h) hchild t ih

/-! ## Both orders -/

section Orders

variable {tree tree' : Node} {env : Environment}

theorem avoids_of_disjoint (h : ∀ name, tree.WritesTo name → ¬env.Mentions tree' name) :
    tree'.Avoids tree.WritesTo :=
  fun t ht hwritten => h t.text hwritten (.leaf ht)

/-- A line leaves an environment behind that differs from the one before only in what it writes. -/
theorem agreeBut_after (depth : Nat)
    (h : ∀ name, tree.WritesTo name → ¬env.Mentions tree' name) :
    env.AgreeBut tree.WritesTo ((evalWithin depth tree).after env) :=
  .of_changesOnly (keeps_eval (framed_framed depth) tree env) (fun _ hname => hname.writesTo)
    (fun _ hname => hname.writesTo) fun _ _ hf t ht hwritten => h t.text hwritten (.body hf ht)

/-- What a line comes to does not depend on another one that keeps away from it. -/
theorem resultsRelate_after (depth : Nat)
    (h : ∀ name, tree.WritesTo name → ¬env.Mentions tree' name) :
    ResultsRelate (Environment.AgreeBut tree.WritesTo) (· = ·) (· = ·)
      (evalWithin depth tree' env) (evalWithin depth tree' ((evalWithin depth tree).after env)) :=
  resultsRelate_of_avoids depth (avoids_of_disjoint h) (agreeBut_after depth h)

/-- A scope that both orders have written to in the end. It is `s` to begin with, `s₁` after the
first line alone and `s₁₂` after the second line was next, and so on. -/
theorem Scope.find?_of_orders {α : Type} {writes writes' : String → Prop} {s₁ s₂ s₁₂ s₂₁ : Scope α}
    (hdisjoint : ∀ name, writes name → ¬writes' name) (hnext : s₁.ChangesOnly writes' s₁₂)
    (hnext' : s₂.ChangesOnly writes s₂₁) (hagree : s₂.AgreeBut writes s₁₂)
    (hagree' : s₁.AgreeBut writes' s₂₁) (name : String) : s₁₂.find? name = s₂₁.find? name := by
  by_cases hname : writes name
  · have hother := hdisjoint name hname
    exact (hnext.find?_eq hother).trans (hagree' name hother)
  · exact (hagree name hname).symm.trans (hnext'.find?_eq hname).symm

/-- Trees that keep away from each other can be evaluated in both orders. -/
theorem commute_evalWithin (depth : Nat)
    (h : ∀ name, tree.WritesTo name → ¬env.Mentions tree' name)
    (h' : ∀ name, tree'.WritesTo name → ¬env.Mentions tree name) :
    Eval.Commute (evalWithin depth tree) (evalWithin depth tree') env := by
  have hrelate := resultsRelate_after depth h
  have hrelate' := resultsRelate_after depth h'
  have hkeeps := keeps_eval (framed_framed depth) tree
  have hkeeps' := keeps_eval (framed_framed depth) tree'
  have hdisjoint : ∀ name, tree.WritesTo name → ¬tree'.WritesTo name := fun name hname hname' =>
    h name hname (hname'.mentions env)
  have hwrites : ∀ env : Environment, env.ChangesOnly tree.WritesTo tree.WritesTo
      ((evalWithin depth tree).after env) := fun env =>
    (hkeeps env).mono (fun _ hname => hname.writesTo) fun _ hname => hname.writesTo
  have hwrites' : ∀ env : Environment, env.ChangesOnly tree'.WritesTo tree'.WritesTo
      ((evalWithin depth tree').after env) := fun env =>
    (hkeeps' env).mono (fun _ hname => hname.writesTo) fun _ hname => hname.writesTo
  have hnext := hwrites' ((evalWithin depth tree).after env)
  have hnext' := hwrites ((evalWithin depth tree').after env)
  refine ⟨hrelate'.outcome_eq.symm, hrelate.outcome_eq.symm, ?_⟩
  exact {
    mode := (hnext.mode.trans (hwrites env).mode).trans (hnext'.mode.trans (hwrites' env).mode).symm
    cap := (hnext.cap.trans (hwrites env).cap).trans (hnext'.cap.trans (hwrites' env).cap).symm
    seed := (hnext.seed.trans (hwrites env).seed).trans (hnext'.seed.trans (hwrites' env).seed).symm
    vars := Scope.find?_of_orders hdisjoint hnext.vars hnext'.vars hrelate.after.vars
      hrelate'.after.vars
    functions := Scope.find?_of_orders hdisjoint hnext.functions hnext'.functions
      hrelate.after.functions hrelate'.after.functions }

end Orders

theorem evalLine_of_parse {line : String} {tree : Node} (h : parse line = .ok tree) :
    evalLine line = evalWithin callLimit tree := by
  rw [evalLine, h]
  rfl

/-- **Independent lines commute.** If no name that one of two lines writes is among those that the
other one mentions, itself or in the functions that are visible, then both come to the same in both
orders, whether they fail or not, and the same variables and functions are visible in the end. This
is so at any depth of calls. -/
theorem lines_commute {line line' : String} {tree tree' : Node} {env : Environment}
    (hparse : parse line = .ok tree) (hparse' : parse line' = .ok tree')
    (h : ∀ name, tree.WritesTo name → ¬env.Mentions tree' name)
    (h' : ∀ name, tree'.WritesTo name → ¬env.Mentions tree name) :
    (∀ depth, Eval.Commute (evalWithin depth tree) (evalWithin depth tree') env) ∧
      Eval.Commute (evalLine line) (evalLine line') env := by
  have hcommute := fun depth => commute_evalWithin depth h h'
  rw [evalLine_of_parse hparse, evalLine_of_parse hparse']
  exact ⟨hcommute, hcommute callLimit⟩

/-- The lines `a = half(6)` and `[b = 1, c]`, where `half(x)` is `x / 2`. The second one fails at
`c`, but not before it has given `b` a value. -/
theorem half_and_failure_commute :
    let token := fun (kind : TokenKind) (text : String) (start stop : Int) =>
      Node.leaf ⟨kind, text, start, stop⟩
    let half : Function := ⟨["x"], .group [token .name "x" 10 11, token .operator "/" 12 13,
      token .number "2" 14 15]⟩
    let env := Environment.standard.define "half" half
    let tree := Node.group [.group [token .name "a" 0 1, token .operator "=" 2 3,
      .group [token .name "half" 4 8, .group [token .number "6" 9 10]]]]
    let tree' := Node.group [.group [token .leftBracket "[" 0 1,
      .group [token .name "b" 1 2, token .operator "=" 3 4, token .number "1" 5 6],
      token .comma "," 6 7, token .name "c" 8 9]]
    parse "a = half(6)" = .ok tree ∧ parse "[b = 1, c]" = .ok tree' ∧
      (∀ name, tree.WritesTo name → ¬env.Mentions tree' name) ∧
      (∀ name, tree'.WritesTo name → ¬env.Mentions tree name) ∧
      (∀ depth, Eval.Commute (evalWithin depth tree) (evalWithin depth tree') env) ∧
      Eval.Commute (evalLine "a = half(6)") (evalLine "[b = 1, c]") env := by
  intro token half env tree tree'
  have hscan : scan "a = half(6)" = [⟨.name, "a", 0, 1⟩, ⟨.operator, "=", 2, 3⟩,
      ⟨.name, "half", 4, 8⟩, ⟨.leftParen, "(", 8, 9⟩, ⟨.number, "6", 9, 10⟩,
      ⟨.rightParen, ")", 10, 11⟩] := by
    decide +kernel
  have hscan' : scan "[b = 1, c]" = [⟨.leftBracket, "[", 0, 1⟩, ⟨.name, "b", 1, 2⟩,
      ⟨.operator, "=", 3, 4⟩, ⟨.number, "1", 5, 6⟩, ⟨.comma, ",", 6, 7⟩, ⟨.name, "c", 8, 9⟩,
      ⟨.rightBracket, "]", 9, 10⟩] := by
    decide +kernel
  have hparse : parse "a = half(6)" = .ok tree := by
    rw [parse, hscan]
    rfl
  have hparse' : parse "[b = 1, c]" = .ok tree' := by
    rw [parse, hscan']
    rfl
  have hwrites : ∀ name, tree.WritesTo name → name = "a" := by
    simp +contextual [tree, token, Node.writesTo_group, Node.writesTo_leaf, Node.assigned?,
      Node.defined?, Node.assignment?, Node.isLiteral, Node.isLeafOf, assignmentOperators,
      assignmentSides, Node.name?, Node.signature?]
  have hwrites' : ∀ name, tree'.WritesTo name → name = "b" := by
    simp +contextual [tree', token, Node.writesTo_group, Node.writesTo_leaf, Node.assigned?,
      Node.defined?, Node.assignment?, Node.isLiteral, Node.isLeafOf, assignmentOperators,
      assignmentSides, Node.name?, Node.signature?]
  have hmentions : ∀ (node : Node) name, env.Mentions node name →
      name ∈ node.leaves.map Token.text ++ ["x", "/", "2"] := by
    rintro node name (h | ⟨hf, h⟩ | ⟨hf, h⟩)
    · exact List.mem_append_left _ (List.mem_map_of_mem h)
    · obtain rfl := eq_of_find?_define hf
      exact List.mem_append_right _ (List.mem_map_of_mem (f := Token.text) h)
    · obtain rfl := eq_of_find?_define hf
      exact List.mem_append_right _ (List.mem_of_mem_take (i := 1) h)
  have hdisjoint : ∀ name, tree.WritesTo name → ¬env.Mentions tree' name := by
    intro name hname h
    obtain rfl := hwrites name hname
    exact absurd (hmentions tree' _ h) (by decide +kernel)
  have hdisjoint' : ∀ name, tree'.WritesTo name → ¬env.Mentions tree name := by
    intro name hname h
    obtain rfl := hwrites' name hname
    exact absurd (hmentions tree _ h) (by decide +kernel)
  exact ⟨hparse, hparse', hdisjoint, hdisjoint',
    lines_commute hparse hparse' hdisjoint hdisjoint'⟩

end Reckoner
