import Reckoner.Proofs.Definitions
import Reckoner.Proofs.Printing

/-!
# What functions have for bodies

Folding makes an assignment only of operands, but evaluation takes any row of three nodes with an
arrow or an equals sign in the middle for one. In a row that folding has left alone, the node behind
`=` can be an operator, a separator or a brace. An assignment to a variable evaluates it and fails;
a definition stores it as it is (`Node.DefinesHollow`), and only a call fails, if there is one.

Such definitions are the only way for a function to come by a body that is no operand
(`bodies_after_evalLine`). The functions that are visible after a line were visible before it or
were defined by the line itself, as calls take their definitions with them, and what the line
defines stands in its tree (`exists_of_define_mem_journal`).
-/

namespace Reckoner

def Environment.OperandBodies (env : Environment) : Prop :=
  ∀ name f, env.functions.find? name = some f → f.body.isOperand = true

namespace Node

def DefinesAs (node : Node) (name : String) (f : Function) : Prop :=
  ∃ named, node.assignment? = some (named, f.body) ∧ named.signature? = some (name, f.params)

/-- The node defines the function, and what it gives it for a body is an operator, a separator or a
brace. -/
structure DefinesHollow (node : Node) (name : String) (f : Function) : Prop where
  defines : node.DefinesAs name f
  body : ∃ t, f.body = .leaf t ∧
    t.kind ∈ [TokenKind.operator, .comma, .semicolon, .leftBrace, .rightBrace]

theorem DefinesAs.meaning_eq {node : Node} {name : String} {f : Function}
    (h : node.DefinesAs name f) : node.meaning = .definition name f.params f.body := by
  obtain ⟨named, hsides, hsignature⟩ := h
  cases node with
  | leaf t => cases hsides
  | group children => rw [meaning_assignment hsides, hsignature]

end Node

/-! ## What is defined stands in the tree -/

/-- After some writes a function is visible if it was so before or if it is one of those written. -/
theorem Environment.find?_or_mem_of_writeAll {writes : List Write} {env : Environment}
    {name : String} {f : Function} (h : (env.writeAll writes).functions.find? name = some f) :
    env.functions.find? name = some f ∨ .define name f ∈ writes := by
  induction writes generalizing env with
  | nil => exact .inl h
  | cons first rest ih =>
    rcases ih h with hfirst | hrest
    · cases first with
      | assign target v => exact .inl hfirst
      | define function g =>
        by_cases hname : name = function
        · subst hname
          obtain rfl := Option.some.inj ((Scope.find?_set_self _ _ _).symm.trans hfirst)
          exact .inr List.mem_cons_self
        · exact .inl ((Scope.find?_set_of_ne hname _ _).symm.trans hfirst)
    · exact .inr (List.mem_cons_of_mem _ hrest)

section Journals

variable {calls : Calls} {write : Write}

theorem Eval.mem_onward {α : Type} {m : Eval α} {rest : α → Environment → List Write}
    {env : Environment} (h : write ∈ m.onward rest env) : ∃ a env', write ∈ rest a env' := by
  unfold onward at h
  split at h
  · exact ⟨_, _, h⟩
  · cases h

theorem exists_of_mem_journalOfRow {es : List Expr} {env : Environment}
    (h : write ∈ journalOfRow calls es env) : ∃ e ∈ es, ∃ env', write ∈ e.journal calls env' := by
  induction es generalizing env with
  | nil => cases h
  | cons e rest ih =>
    rw [journalOfRow] at h
    rcases List.mem_append.mp h with he | honward
    · exact ⟨e, List.mem_cons_self, env, he⟩
    · obtain ⟨x, env₁, hrest⟩ := Eval.mem_onward honward
      obtain ⟨e', he', hwrite⟩ := ih hrest
      exact ⟨e', List.mem_cons_of_mem e he', hwrite⟩

theorem exists_of_mem_journalOfRows {rows : List (List Expr)} {columns : List (List Float)}
    {env : Environment} (h : write ∈ journalOfRows calls columns rows env) :
    ∃ row ∈ rows, ∃ e ∈ row, ∃ env', write ∈ e.journal calls env' := by
  induction rows generalizing columns env with
  | nil => cases h
  | cons row rest ih =>
    rw [journalOfRows] at h
    rcases List.mem_append.mp h with hrow | honward
    · exact ⟨row, List.mem_cons_self, exists_of_mem_journalOfRow hrow⟩
    · obtain ⟨columns', env₁, hrest⟩ := Eval.mem_onward honward
      obtain ⟨row', hrow', hwrite⟩ := ih hrest
      exact ⟨row', List.mem_cons_of_mem row hrow', hwrite⟩

/-- A function that evaluating a tree defines is defined by a node of the tree, outside the
arguments of its calls and the bodies of its definitions. -/
theorem exists_of_define_mem_journal {name : String} {f : Function} {tree : Node}
    {env : Environment} (h : .define name f ∈ tree.meaning.journal calls env) :
    ∃ node, tree.Reaches node ∧ node.DefinesAs name f := by
  have hpart : ∀ {node part : Node}, part ∈ node.parts →
      (∃ inner, part.Reaches inner ∧ inner.DefinesAs name f) →
      ∃ inner, node.Reaches inner ∧ inner.DefinesAs name f :=
    fun hpart ⟨inner, hreach, hdefines⟩ => ⟨inner, .head hpart hreach, hdefines⟩
  induction tree using Node.meaningInduction generalizing env with
  | literal children hlit hm ih =>
    rw [hm, Expr.journal] at h
    obtain ⟨row, hrow, e, he, env', hwrite⟩ := exists_of_mem_journalOfRows h
    obtain ⟨nodes, hnodes, rfl⟩ := List.mem_map.mp hrow
    obtain ⟨node, hnode, rfl⟩ := List.mem_map.mp he
    refine hpart ?_ (ih nodes hnodes node hnode hwrite)
    rw [Node.parts_of_isLiteral hlit]
    exact mem_of_mem_literalRows hnodes hnode
  | wrapped child hlit hm ih =>
    rw [hm] at h
    exact hpart (by simp [Node.parts]) (ih h)
  | negation t right hk htext hm ih =>
    rw [hm, Expr.journal] at h
    exact hpart (by simp [Node.parts, hk]) (ih h)
  | definition left op right named stored function params hsides hsignature hm =>
    rw [hm, Expr.journal, List.mem_singleton] at h
    obtain ⟨rfl, rfl⟩ := Write.define.inj h
    exact ⟨_, .refl, named, hsides, hsignature⟩
  | assignment left op right named stored target hsides hsignature hname hm ih =>
    rw [hm, Expr.journal] at h
    rcases List.mem_append.mp h with hstored | honward
    · exact hpart (by simp [Node.parts, hsides, hsignature]) (ih hstored)
    · obtain ⟨v, env', htarget⟩ := Eval.mem_onward honward
      cases List.mem_singleton.mp htarget
  | misassignment left op right named stored hsides hsignature hname hm ih =>
    rw [hm, Expr.journal] at h
    exact hpart (by simp [Node.parts, hsides, hsignature]) (ih h)
  | operation left t right hlit hop hm ihl ihr =>
    have hparts : (Node.group [left, .leaf t, right]).parts = [left, .leaf t, right] := by
      simp [Node.parts, Node.assignment?, hop]
    rw [hm, Expr.journal] at h
    rcases List.mem_append.mp h with hleft | honward
    · exact hpart (by simp [hparts]) (ihl hleft)
    · obtain ⟨l, env', hright⟩ := Eval.mem_onward honward
      exact hpart (by simp [hparts]) (ihr hright)
  | number _ _ hm | name _ _ hm | nothing hm | unknownUnary _ _ _ _ _ hm | call _ _ _ hm _
  | notApplicable _ _ _ _ _ hm | malformed _ _ _ _ hm =>
    rw [hm, Expr.journal] at h
    cases h

end Journals

/-! ## What stands in the tree of a line -/

theorem Node.Regular.of_mem {children row : List Node} (h : (Node.group children).Regular)
    (hrow : .group row ∈ children) : (Node.group row).Regular := by
  cases h with
  | group hnodes => exact hnodes _ hrow
  | literal _ _ hnodes =>
    rcases List.mem_cons.mp hrow with heq | hrow
    · cases heq
    · exact hnodes _ hrow

theorem Node.Regular.of_reaches {tree : Node} (h : tree.Regular) {row : List Node}
    (hreach : tree.Reaches (.group row)) : (Node.group row).Regular := by
  generalize hnode : Node.group row = node at hreach
  induction hreach generalizing row with
  | refl => exact h
  | @tail node part _ hpart ih =>
    cases node with
    | leaf t => cases hpart
    | group children =>
      subst hnode
      exact (ih rfl).of_mem (mem_of_mem_parts hpart)

/-- A node of the tree of a line that defines a function gives it an operand for a body or defines
it hollow: no leaf of the tree is a bracket but those in front of lists. -/
theorem Node.Regular.definesHollow {node : Node} (h : node.Regular) {name : String} {f : Function}
    (hdefines : node.DefinesAs name f) :
    f.body.isOperand = true ∨ node.DefinesHollow name f := by
  obtain ⟨named, hsides, hsignature⟩ := hdefines
  cases h with
  | leaf => cases hsides
  | @literal opener row hk =>
    obtain ⟨left, op, right, heq, -⟩ := assignment?_eq_some hsides
    have hlit : isLiteral [left, .leaf op, right] = true := by
      rw [← Node.group.inj heq, isLiteral, isLeafOf, hk]
      rfl
    rw [heq, assignment?, if_neg fun hop => hop.1 hlit] at hsides
    cases hsides
  | group hrow =>
    have hbody := hrow f.body (mem_of_assignment?_eq_some hsides).2
    cases hnode : f.body with
    | group children => exact .inl rfl
    | leaf t =>
      rw [hnode] at hbody
      cases hoperand : (Node.leaf t).isOperand with
      | true => exact .inl rfl
      | false =>
        refine .inr ⟨⟨named, hsides, hsignature⟩, t, hnode, ?_⟩
        cases hbody with
        | leaf _ hopener hcloser =>
          rw [isOperand] at hoperand
          cases hk : t.kind <;> simp_all [TokenKind.closer?, TokenKind.isCloser]

/-! ## Lines -/

/-- **Bodies of functions.** After a line in an environment where the bodies of functions are
operands, whether it has a value or fails, the body of every visible function is one too, unless a
node of its tree defines the function hollow. A line that is a hollow definition, inside any
parentheses, is not refused: its value is zero, and the function is there. -/
theorem bodies_after_evalLine {env : Environment} (henv : env.OperandBodies) (line : String) :
    (∀ name f, ((evalLine line).after env).functions.find? name = some f →
      f.body.isOperand = true ∨
        ∃ tree node, parse line = .ok tree ∧ tree.Reaches node ∧ node.DefinesHollow name f) ∧
    (∀ tree name f, parse line = .ok tree → tree.unwrapped.DefinesHollow name f →
      evalLine line env = .ok (.scalar 0) (env.define name f)) := by
  constructor
  · intro name f hfound
    rw [evalLine] at hfound
    cases hparse : parse line with
    | error bracket =>
      rw [hparse] at hfound
      exact .inl (henv name f hfound)
    | ok tree =>
      simp only [hparse, evalTree, evalWithin] at hfound
      rw [writes_journal (framed_framed callLimit)] at hfound
      rcases Environment.find?_or_mem_of_writeAll hfound with hold | hmem
      · exact .inl (henv name f hold)
      · obtain ⟨node, hreach, hdefines⟩ := exists_of_define_mem_journal hmem
        have hregular : node.Regular := by
          cases node with
          | leaf t =>
            obtain ⟨named, hsides, -⟩ := hdefines
            cases hsides
          | group row => exact (regular_of_buildTree hparse).of_reaches hreach
        exact (hregular.definesHollow hdefines).imp_right
          fun hhollow => ⟨tree, node, rfl, hreach, hhollow⟩
  · intro tree name f hparse hhollow
    have hmeaning := hhollow.defines.meaning_eq
    rw [Node.meaning_unwrapped] at hmeaning
    simp only [evalLine, hparse, evalTree]
    exact (Node.storesFunction_of_meaning hmeaning).result callLimit env

/-- A line that is the hollow definition of a `+`, in parentheses, adds it to the functions. -/
theorem bodies_after_hollow_line :
    let known : Function := ⟨["x"], .leaf ⟨.name, "x", 0, 1⟩⟩
    let env := Environment.standard.define "g" known
    let hollow : Function := ⟨["x"], .leaf ⟨.operator, "+", 8, 9⟩⟩
    env.OperandBodies ∧ evalLine "(f(x) = +)" env = .ok (.scalar 0) (env.define "f" hollow) := by
  intro known env hollow
  have henv : env.OperandBodies := by
    intro name f hfound
    by_cases hname : name = "g"
    · subst hname
      obtain rfl := Option.some.inj ((Scope.find?_set_self _ _ _).symm.trans hfound)
      rfl
    · cases (Scope.find?_set_of_ne hname _ _).symm.trans hfound
  have hscan : scan "(f(x) = +)" = [⟨.leftParen, "(", 0, 1⟩, ⟨.name, "f", 1, 2⟩,
      ⟨.leftParen, "(", 2, 3⟩, ⟨.name, "x", 3, 4⟩, ⟨.rightParen, ")", 4, 5⟩,
      ⟨.operator, "=", 6, 7⟩, ⟨.operator, "+", 8, 9⟩, ⟨.rightParen, ")", 9, 10⟩] := by
    decide +kernel
  have hparse : parse "(f(x) = +)" = .ok (.group [.group [.group [.leaf ⟨.name, "f", 1, 2⟩,
      .group [.leaf ⟨.name, "x", 3, 4⟩]], .leaf ⟨.operator, "=", 6, 7⟩,
      .leaf ⟨.operator, "+", 8, 9⟩]]) := by
    rw [parse, hscan]
    rfl
  refine ⟨henv, (bodies_after_evalLine henv _).2 _ "f" hollow hparse ⟨⟨_, rfl, rfl⟩, _, rfl, ?_⟩⟩
  exact List.mem_cons_self

/-- The line `f(x) = +` gives the function a body that is no operand. -/
theorem operator_becomes_body :
    let env := Environment.standard.define "f" ⟨["x"], .leaf ⟨.operator, "+", 7, 8⟩⟩
    Environment.standard.OperandBodies ∧
      evalLine "f(x) = +" .standard = .ok (.scalar 0) env ∧ ¬env.OperandBodies := by
  intro env
  have hscan : scan "f(x) = +" = [⟨.name, "f", 0, 1⟩, ⟨.leftParen, "(", 1, 2⟩,
      ⟨.name, "x", 2, 3⟩, ⟨.rightParen, ")", 3, 4⟩, ⟨.operator, "=", 5, 6⟩,
      ⟨.operator, "+", 7, 8⟩] := by
    decide +kernel
  have hparse : parse "f(x) = +" = .ok (.group [.group [.leaf ⟨.name, "f", 0, 1⟩,
      .group [.leaf ⟨.name, "x", 2, 3⟩]], .leaf ⟨.operator, "=", 5, 6⟩,
      .leaf ⟨.operator, "+", 7, 8⟩]) := by
    rw [parse, hscan]
    rfl
  refine ⟨?_, ?_, fun henv => ?_⟩
  · intro name f hfound
    cases hfound
  · simp only [evalLine, hparse, evalTree, evalWithin]
    rw [Node.meaning_assignment rfl]
    rfl
  · cases henv "f" _ (Scope.find?_set_self _ _ _)

end Reckoner
