import Reckoner.Proofs.Evaluable
import Reckoner.Proofs.Journal
import Reckoner.Proofs.ProperMatrices

/-!
# Lines that look like definitions

A session looks at a tree, apart from evaluating it, to tell whether it was a definition. What it
looks for is the shape `name(parameters) = body` or its mirror image, inside any parentheses
(`Node.definition?`). Evaluation takes a tree of this shape for a definition unless it stands in
square brackets, and then it stores the function and does nothing else (`Node.StoresFunction`).

In square brackets one shape is left, since `[` would have to be the side that is named otherwise:
the list `[=> name(parameters)]` looks like a definition and is none (`Node.ListsArrow`). It is the
only tree on which look and evaluation differ (`definesFunction_agrees`).
-/

namespace Reckoner

namespace Node

/-! ## The look of a definition -/

def unwrapped : Node → Node
  | .group [child] => if isLiteral [child] then .group [child] else child.unwrapped
  | node => node

/-- The function that a node names and gives a body, by its look. -/
def definition? : Node → Option (String × Function)
  | .group [left, .leaf op, right] =>
    if op.kind = .operator ∧ op.text ∈ assignmentOperators then
      (assignmentSides op.text left right).1.signature?.map fun (name, params) =>
        (name, ⟨params, (assignmentSides op.text left right).2⟩)
    else none
  | _ => none

/-- A list in square brackets of an arrow and a call that could be named. -/
def ListsArrow (node : Node) : Prop :=
  ∃ opener arrow call signature, node = .group [.leaf opener, .leaf arrow, call] ∧
    opener.kind = .leftBracket ∧ arrow.kind = .operator ∧ arrow.text = "=>" ∧
    call.signature? = some signature

theorem definition?_eq_some {node : Node} {name : String} {f : Function}
    (h : node.definition? = some (name, f)) :
    ∃ left op right named, node = .group [left, .leaf op, right] ∧ op.kind = .operator ∧
      op.text ∈ assignmentOperators ∧ assignmentSides op.text left right = (named, f.body) ∧
      named.signature? = some (name, f.params) := by
  unfold definition? at h
  split at h
  · next left op right =>
    split at h
    · next hop =>
      obtain ⟨signature, hsignature, heq⟩ := Option.map_eq_some_iff.mp h
      obtain ⟨rfl, rfl⟩ := Prod.mk.inj heq
      exact ⟨left, op, right, _, rfl, hop.1, hop.2, rfl, hsignature⟩
    · cases h
  · cases h

/-- The look is looked for inside any parentheses. -/
theorem definesFunction_eq (tree : Node) :
    tree.definesFunction = tree.unwrapped.definition?.isSome := by
  fun_induction unwrapped tree with
  | case1 child hlit =>
    cases child with
    | leaf t => rfl
    | group children => cases hlit
  | case2 child hlit ih => rw [definesFunction, ih]
  | case3 node hwrapped =>
    unfold definesFunction
    split
    · next child => exact absurd rfl (hwrapped child)
    · next left op right =>
      rw [definition?]
      by_cases hop : op.kind = .operator ∧ op.text ∈ assignmentOperators
      · simp [hop]
      · rw [if_neg hop, Option.isSome_none]
        simp only [Bool.and_eq_false_iff, beq_eq_false_iff_ne, List.contains_eq_mem,
          decide_eq_false_iff_not]
        exact .inl (Decidable.not_and_iff_not_or_not.mp hop)
    · next hassignment =>
      rw [definition?.eq_def]
      split
      · exact absurd rfl (hassignment _ _ _)
      · rfl

theorem definesFunction_iff {tree : Node} :
    tree.definesFunction = true ↔ ∃ name f, tree.unwrapped.definition? = some (name, f) := by
  rw [definesFunction_eq, Option.isSome_iff_exists, Prod.exists]

/-! ## What evaluation makes of it -/

theorem meaning_unwrapped (tree : Node) : tree.unwrapped.meaning = tree.meaning := by
  fun_induction unwrapped tree with
  | case1 => rfl
  | case2 child hlit ih => rw [meaning_wrapped hlit, ih]
  | case3 => rfl

/-- A list that looks like a definition is one of an arrow and a call. -/
theorem listsArrow_of_definition? {children : List Node} {binding : String × Function}
    (h : (group children).definition? = some binding) (hlit : isLiteral children = true) :
    (group children).ListsArrow := by
  obtain ⟨left, op, right, named, heq, hk, htext, hsides, hsignature⟩ := definition?_eq_some h
  obtain rfl := Node.group.inj heq
  cases left with
  | group nodes => cases hlit
  | leaf opener =>
    rw [assignmentSides] at hsides
    split at hsides
    · -- the bracket would be the side that is named
      obtain ⟨rfl, -⟩ := Prod.mk.inj hsides
      cases hsignature
    · next harrow =>
      obtain ⟨rfl, -⟩ := Prod.mk.inj hsides
      refine ⟨opener, op, _, _, rfl, by simpa [isLiteral, isLeafOf] using hlit, hk, ?_, hsignature⟩
      simpa [assignmentOperators, harrow] using htext

theorem ListsArrow.looksLikeDefinition {node : Node} (h : node.ListsArrow) :
    ∃ name f, node.definition? = some (name, f) := by
  obtain ⟨opener, arrow, called, signature, rfl, -, hk, htext, hsignature⟩ := h
  refine ⟨signature.1, ⟨signature.2, .leaf opener⟩, ?_⟩
  rw [definition?, if_pos ⟨hk, by simp [htext, assignmentOperators]⟩, htext]
  simp [assignmentSides, hsignature]

/-- Anything else that looks like a definition means one. -/
theorem meaning_of_definition? {node : Node} {name : String} {f : Function}
    (h : node.definition? = some (name, f)) (hlist : ¬node.ListsArrow) :
    node.meaning = .definition name f.params f.body := by
  obtain ⟨left, op, right, named, rfl, hk, htext, hsides, hsignature⟩ := definition?_eq_some h
  have hlit : isLiteral [left, .leaf op, right] ≠ true :=
    fun hlit => hlist (listsArrow_of_definition? h hlit)
  have hassignment : (group [left, .leaf op, right]).assignment? = some (named, f.body) := by
    rw [assignment?, if_pos ⟨hlit, hk, htext⟩, hsides]
  rw [meaning_assignment hassignment, hsignature]

/-- What means a definition looks like one. -/
theorem definition?_of_meaning {node : Node} {name : String} {params : List String} {body : Node}
    (h : node.meaning = .definition name params body) :
    node.unwrapped.definition? = some (name, ⟨params, body⟩) := by
  induction node using meaningInduction with
  | wrapped child hlit hmeaning ih =>
    rw [unwrapped, if_neg hlit]
    exact ih (hmeaning.symm.trans h)
  | definition left op right named stored function params' hsides hsignature hmeaning =>
    obtain ⟨rfl, rfl, rfl⟩ := Expr.definition.inj (hmeaning.symm.trans h)
    obtain ⟨left', op', right', heq, hk, htext, hpair⟩ := assignment?_eq_some hsides
    obtain ⟨rfl, rfl, rfl⟩ : left = left' ∧ op = .leaf op' ∧ right = right' := by simpa using heq
    rw [unwrapped, definition?, if_pos ⟨hk, htext⟩, ← hpair, hsignature]
    · rfl
    · exact fun child heq => by cases heq
  | number t _ hmeaning | name t _ hmeaning | literal _ _ hmeaning _ | nothing hmeaning
  | negation _ _ _ _ hmeaning _ | unknownUnary _ _ _ _ _ hmeaning | call _ _ _ hmeaning _
  | notApplicable _ _ _ _ _ hmeaning | assignment _ _ _ _ _ _ _ _ _ hmeaning _
  | misassignment _ _ _ _ _ _ _ _ hmeaning _ | operation _ _ _ _ _ hmeaning _ _
  | malformed _ _ _ _ hmeaning => cases hmeaning.symm.trans h

/-- Evaluating the tree stores a function and does nothing else: it comes to zero in every
environment, and no other evaluation, of a leaf or of anything, is needed for it. -/
structure StoresFunction (tree : Node) (name : String) (f : Function) : Prop where
  result : ∀ depth env, evalWithin depth tree env = .ok (.scalar 0) (env.define name f)
  alone : ∀ depth env inner, ¬Evaluation.Needs ⟨depth, tree.meaning, env⟩ inner

theorem storesFunction_of_meaning {tree : Node} {name : String} {f : Function}
    (h : tree.meaning = .definition name f.params f.body) : tree.StoresFunction name f where
  result depth env := by
    rw [evalWithin, h, Expr.eval]
    rfl
  alone depth env inner hneeds := by
    rw [h] at hneeds
    cases hneeds

/-- A list of an arrow and a call has these two for its elements. -/
theorem ListsArrow.meaning_eq {node : Node} (h : node.ListsArrow) :
    ∃ function args, node.meaning = .literal [[.name "=>", .call function args]] := by
  obtain ⟨opener, arrow, called, signature, rfl, ho, hk, htext, hsignature⟩ := h
  obtain ⟨callee, params, rfl, -, hname, -⟩ := signature?_eq_some.mp hsignature
  cases callee with
  | group nodes => cases hname
  | leaf t =>
    have hcallee : t.kind = .name := by
      rw [name?] at hname
      split at hname
      · assumption
      · cases hname
    have hrows : literalRows [.leaf opener, .leaf arrow, .group [.leaf t, params]]
        = [[.leaf arrow, .group [.leaf t, params]]] := by
      simp [literalRows, cutAt, isLeafOf, hk]
    have harrow : (leaf arrow).meaning = .name "=>" := by
      rw [meaning, if_neg (by simp [hk]), htext]
    refine ⟨t.text, params.arguments.map meaning, ?_⟩
    rw [meaning_literal (by simp [isLiteral, isLeafOf, ho]), hrows, List.map_singleton,
      List.map_cons, List.map_singleton, harrow, meaning_call hcallee]

end Node

/-! ## Agreement -/

/-- A list in square brackets is no scalar. -/
theorem ne_scalar_of_valueOfColumns {columns : List (List Float)} {v : Value}
    (h : valueOfColumns columns = .ok v) (x : Float) : v ≠ .scalar x := by
  rintro rfl
  unfold valueOfColumns at h
  split at h
  · cases h
  · split at h
    · cases h
    · cases h
    · rw [Value.ofColumns] at h
      split at h <;> cases h

/-- A list of an arrow and a call has a value only where a variable has the name of the arrow. -/
theorem bound_of_eval_listsArrow {calls : Calls} {tree : Node} (h : tree.unwrapped.ListsArrow)
    {env env' : Environment} {v : Value} (heval : tree.meaning.eval calls env = .ok v env') :
    ∃ w, env.vars.find? "=>" = some w := by
  obtain ⟨function, args, hmeaning⟩ := h.meaning_eq
  rw [← tree.meaning_unwrapped, hmeaning, Expr.eval] at heval
  obtain ⟨columns, env₁, hrows, -⟩ := Eval.bind_eq_ok heval
  rw [evalRows] at hrows
  obtain ⟨columns₁, env₂, hrow, -⟩ := Eval.bind_eq_ok hrows
  rw [evalRow] at hrow
  obtain ⟨w, env₃, harrow, -⟩ := Eval.bind_eq_ok hrow
  rw [Expr.eval] at harrow
  exact ⟨w, lookUp_eq_ok harrow⟩

/-- What a list of an arrow and a call does: it writes nothing, and does not come to a scalar. -/
theorem evalWithin_listsArrow {tree : Node} (h : tree.unwrapped.ListsArrow) (depth : Nat)
    (env : Environment) :
    (evalWithin depth tree).after env = env ∧
      ∀ x env', evalWithin depth tree env ≠ .ok (.scalar x) env' := by
  obtain ⟨function, args, hmeaning⟩ := h.meaning_eq
  rw [Node.meaning_unwrapped] at hmeaning
  rw [evalWithin, hmeaning]
  constructor
  · rw [writes_journal (framed_framed depth)]
    simp [Expr.journal, journalOfRows, journalOfRow, Eval.onward_nothing, Environment.writeAll]
  · intro x env' hresult
    rw [Expr.eval] at hresult
    obtain ⟨columns, env₁, -, hvalue⟩ := Eval.bind_eq_ok hresult
    exact ne_scalar_of_valueOfColumns (ofExcept_eq_ok hvalue).1 x rfl

/-- **The look of a tree and its evaluation.** A tree that looks like a definition stores the
function that it names, with the parameters and the body that it gives, and does nothing else, or
else it is a list of an arrow and a call, which stores nothing and is no zero. No other tree is
taken for a definition. -/
theorem definesFunction_agrees (tree : Node) :
    (tree.definesFunction = true ↔ tree.unwrapped.ListsArrow ∨
      ∃ name f, tree.unwrapped.definition? = some (name, f) ∧ tree.StoresFunction name f) ∧
    ((∃ name params body, tree.meaning = .definition name params body) ↔
      tree.definesFunction = true ∧ ¬tree.unwrapped.ListsArrow) ∧
    (tree.unwrapped.ListsArrow → ∀ depth env, (evalWithin depth tree).after env = env ∧
      ∀ x env', evalWithin depth tree env ≠ .ok (.scalar x) env') := by
  have hmeaning : ∀ {name f}, tree.unwrapped.definition? = some (name, f) →
      ¬tree.unwrapped.ListsArrow → tree.meaning = .definition name f.params f.body := by
    intro name f h hlist
    rw [← tree.meaning_unwrapped]
    exact Node.meaning_of_definition? h hlist
  refine ⟨⟨fun h => ?_, ?_⟩, ⟨?_, ?_⟩, evalWithin_listsArrow⟩
  · by_cases hlist : tree.unwrapped.ListsArrow
    · exact .inl hlist
    · obtain ⟨name, f, hdefinition⟩ := Node.definesFunction_iff.mp h
      exact .inr ⟨name, f, hdefinition, Node.storesFunction_of_meaning (hmeaning hdefinition hlist)⟩
  · rintro (hlist | ⟨name, f, hdefinition, -⟩)
    · exact Node.definesFunction_iff.mpr hlist.looksLikeDefinition
    · exact Node.definesFunction_iff.mpr ⟨name, f, hdefinition⟩
  · rintro ⟨name, params, body, h⟩
    refine ⟨Node.definesFunction_iff.mpr ⟨name, _, Node.definition?_of_meaning h⟩, fun hlist => ?_⟩
    obtain ⟨function, args, hliteral⟩ := hlist.meaning_eq
    rw [Node.meaning_unwrapped, h] at hliteral
    cases hliteral
  · rintro ⟨h, hlist⟩
    obtain ⟨name, f, hdefinition⟩ := Node.definesFunction_iff.mp h
    exact ⟨name, f.params, f.body, hmeaning hdefinition hlist⟩

/-- A list of an arrow and a call is the difference: it looks like a definition, and evaluating it
fails for want of a variable of the arrow's name. -/
theorem definesFunction_of_arrow_in_list :
    ∃ tree, parse "[=>f(x)]" = .ok tree ∧ tree.definesFunction = true ∧
      evalTree tree .standard = .error (.reported (.unknownIdentifier "=>")) .standard := by
  let opener : Token := ⟨.leftBracket, "[", 0, 1⟩
  let arrow : Token := ⟨.operator, "=>", 1, 3⟩
  let called : Node := .group [.leaf ⟨.name, "f", 3, 4⟩, .group [.leaf ⟨.name, "x", 5, 6⟩]]
  let list : Node := .group [.leaf opener, .leaf arrow, called]
  have hscan : scan "[=>f(x)]" = [opener, arrow, ⟨.name, "f", 3, 4⟩, ⟨.leftParen, "(", 4, 5⟩,
      ⟨.name, "x", 5, 6⟩, ⟨.rightParen, ")", 6, 7⟩, ⟨.rightBracket, "]", 7, 8⟩] := by
    decide +kernel
  have hparse : parse "[=>f(x)]" = .ok (.group [list]) := by
    rw [parse, hscan]
    rfl
  have hlist : (Node.group [list]).unwrapped.ListsArrow :=
    ⟨opener, arrow, called, ("f", ["x"]), rfl, rfl, rfl, rfl, rfl⟩
  obtain ⟨function, args, hmeaning⟩ := hlist.meaning_eq
  rw [Node.meaning_unwrapped] at hmeaning
  refine ⟨.group [list], hparse, Node.definesFunction_iff.mpr hlist.looksLikeDefinition, ?_⟩
  rw [evalTree, evalWithin, hmeaning]
  rfl

end Reckoner
