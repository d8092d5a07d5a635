import Reckoner.Expr

/-!
# The shapes of trees

`Node.meaning` tells the shapes of a tree apart; an induction over a tree has to go by the same
cases. `Node.meaningInduction` is that induction, with the meaning of the shape at hand in every
case.
-/

namespace Reckoner

/-! ## Parts of a shape -/

/-- The sides of an assignment, the one that is named first. -/
def Node.assignment? : Node → Option (Node × Node)
  | .group [left, .leaf t, right] =>
    if ¬isLiteral [left, .leaf t, right] ∧ t.kind = .operator ∧ t.text ∈ assignmentOperators then
      some (assignmentSides t.text left right)
    else none
  | _ => none

/-- The elements of a list in square brackets, by rows. -/
def literalRows (children : List Node) : List (List Node) :=
  (cutAt .semicolon (children.drop 1)).map fun row => row.filter fun node => !node.isLeafOf .comma

theorem mem_of_mem_cutAt {kind : TokenKind} {nodes piece : List Node} {node : Node}
    (hp : piece ∈ cutAt kind nodes) (hn : node ∈ piece) : node ∈ nodes := by
  induction nodes generalizing piece with
  | nil =>
    rw [List.mem_singleton.mp hp] at hn
    cases hn
  | cons first rest ih =>
    simp only [cutAt] at hp
    split at hp
    · rcases List.mem_cons.mp hp with rfl | hp
      · cases hn
      · exact List.mem_cons_of_mem _ (ih hp hn)
    · split at hp
      · next piece' pieces heq =>
        rcases List.mem_cons.mp hp with rfl | hp
        · rcases List.mem_cons.mp hn with rfl | hn
          · exact List.mem_cons_self
          · exact List.mem_cons_of_mem _ (ih (heq ▸ List.mem_cons_self) hn)
        · exact List.mem_cons_of_mem _ (ih (heq ▸ List.mem_cons_of_mem _ hp) hn)
      · rw [List.mem_singleton.mp hp, List.mem_singleton] at hn
        exact hn ▸ List.mem_cons_self

theorem mem_of_mem_literalRows {children row : List Node} {node : Node}
    (hr : row ∈ literalRows children) (hn : node ∈ row) : node ∈ children := by
  obtain ⟨piece, hp, rfl⟩ := List.mem_map.mp hr
  exact List.mem_of_mem_drop (mem_of_mem_cutAt hp (List.mem_filter.mp hn).1)

/-! ## Leaves -/

def Node.AllLeaves (P : Token → Prop) (tree : Node) : Prop :=
  ∀ t ∈ tree.leaves, P t

namespace Node.AllLeaves

variable {P : Token → Prop}

theorem leaf {t : Token} (h : AllLeaves P (.leaf t)) : P t :=
  h t (List.mem_singleton_self t)

theorem of_mem {children : List Node} {node : Node} (h : AllLeaves P (.group children))
    (hnode : node ∈ children) : AllLeaves P node := by
  intro t ht
  refine h t ?_
  rw [leaves, leavesAll_eq_flatMap]
  exact List.mem_flatMap_of_mem hnode ht

theorem of_mem_arguments {node arg : Node} (h : AllLeaves P node) (harg : arg ∈ node.arguments) :
    AllLeaves P arg := by
  cases node with
  | leaf t => exact List.mem_singleton.mp harg ▸ h
  | group children =>
    rw [arguments] at harg
    split at harg
    · exact List.mem_singleton.mp harg ▸ h
    · split at harg
      · cases harg
      · obtain ⟨piece, hp, rfl⟩ := List.mem_map.mp harg
        intro t ht
        rw [leaves, leavesAll_eq_flatMap] at ht
        obtain ⟨child, hchild, ht⟩ := List.mem_flatMap.mp ht
        exact h.of_mem (mem_of_mem_cutAt hp hchild) t ht

end Node.AllLeaves

/-! ## Assignments and calls -/

theorem Node.assignment?_eq_some {node named stored : Node}
    (h : node.assignment? = some (named, stored)) :
    ∃ left op right, node = .group [left, .leaf op, right] ∧ op.kind = .operator
      ∧ op.text ∈ assignmentOperators ∧ (named, stored) = assignmentSides op.text left right := by
  rw [assignment?.eq_def] at h
  split at h
  · next left t right =>
    split at h
    · next hop => exact ⟨left, t, right, rfl, hop.2.1, hop.2.2, (Option.some.inj h).symm⟩
    · cases h
  · cases h

/-- The sides of an assignment are the two nodes at its operator. -/
theorem Node.mem_of_assignment?_eq_some {children : List Node} {named stored : Node}
    (h : (Node.group children).assignment? = some (named, stored)) :
    named ∈ children ∧ stored ∈ children := by
  obtain ⟨left, op, right, heq, -, -, hsides⟩ := assignment?_eq_some h
  obtain rfl := Node.group.inj heq
  rw [assignmentSides] at hsides
  split at hsides <;> obtain ⟨rfl, rfl⟩ := Prod.mk.inj hsides <;> simp

theorem Node.signature?_eq_some {node : Node} {function : String} {names : List String} :
    node.signature? = some (function, names) ↔
      ∃ callee params, node = .group [callee, params] ∧ isLiteral [callee, params] = false ∧
        callee.name? = some function ∧ params.parameters? = some names := by
  constructor
  · intro h
    rw [signature?.eq_def] at h
    split at h
    · next callee params =>
      split at h
      · cases h
      · next hlit =>
        split at h
        · next name list hname hlist =>
          obtain ⟨rfl, rfl⟩ := Prod.mk.inj (Option.some.inj h)
          exact ⟨callee, params, rfl, by simpa using hlit, hname, hlist⟩
        · cases h
    · cases h
  · rintro ⟨callee, params, rfl, hlit, hname, hlist⟩
    rw [signature?, hlit, if_neg Bool.false_ne_true, hname, hlist]

/-! ## The meaning of each shape -/

theorem Node.not_isLiteral_of_kind {t : Token} (h : t.kind ≠ .leftBracket) (rest : List Node) :
    isLiteral (.leaf t :: rest) ≠ true := by
  simp [isLiteral, isLeafOf, h]

theorem Node.meaning_literal {children : List Node} (hlit : isLiteral children = true) :
    (group children).meaning = .literal ((literalRows children).map (·.map meaning)) := by
  rw [meaning.eq_def]
  simp [hlit, literalRows]

theorem Node.meaning_wrapped {child : Node} (hlit : isLiteral [child] ≠ true) :
    (group [child]).meaning = child.meaning := by
  rw [meaning, if_neg hlit]

theorem Node.meaning_negation {t : Token} (hk : t.kind = .operator) (htext : t.text = "-")
    (right : Node) : (group [.leaf t, right]).meaning = .negation right.meaning := by
  have hlit := not_isLiteral_of_kind (t := t) (by simp [hk]) [right]
  have hunary : t.text ∈ unaryOperators := by simp [htext, unaryOperators]
  rw [meaning, if_neg hlit, if_pos ⟨hk, hunary⟩, if_pos htext]

theorem Node.meaning_unknownUnary {t : Token} (hk : t.kind = .operator)
    (hunary : t.text ∈ unaryOperators) (htext : t.text ≠ "-") (right : Node) :
    (group [.leaf t, right]).meaning = .unknownUnary t.text := by
  have hlit := not_isLiteral_of_kind (t := t) (by simp [hk]) [right]
  rw [meaning, if_neg hlit, if_pos ⟨hk, hunary⟩, if_neg htext]

theorem Node.meaning_call {callee : Token} (h : callee.kind = .name) (argument : Node) :
    (group [.leaf callee, argument]).meaning
      = .call callee.text (argument.arguments.map meaning) := by
  have hlit := not_isLiteral_of_kind (t := callee) (by simp [h]) [argument]
  rw [meaning, if_neg hlit, if_neg (by simp [h]), if_pos h]
  simp

theorem Node.meaning_notApplicable {left right : Node} (hlit : isLiteral [left, right] ≠ true)
    (hunary : left.isOperatorIn unaryOperators ≠ true) (hname : left.isLeafOf .name ≠ true) :
    (group [left, right]).meaning = .notApplicable left right := by
  cases left with
  | leaf t =>
    have hop : ¬(t.kind = .operator ∧ t.text ∈ unaryOperators) := by
      simpa [isOperatorIn] using hunary
    have hk : t.kind ≠ .name := by simpa [isLeafOf] using hname
    rw [meaning, if_neg hlit, if_neg hop, if_neg hk]
  | group nodes =>
    rw [meaning, if_neg hlit]
    intro t heq
    cases heq

/-- What an assignment means depends on its sides alone. -/
theorem Node.meaning_assignment {children : List Node} {named stored : Node}
    (h : (group children).assignment? = some (named, stored)) :
    (group children).meaning = match named.signature? with
      | some (function, params) => .definition function params stored
      | none => match named.name? with
        | some target => .assignment target stored.meaning
        | none => .misassignment stored.meaning := by
  obtain ⟨left, op, right, heq, -⟩ := assignment?_eq_some h
  obtain rfl := Node.group.inj heq
  rw [assignment?] at h
  split at h
  · next hop =>
    have hsides := Option.some.inj h
    rw [meaning, if_neg hop.1, if_pos hop.2]
    cases hs : named.signature? with
    | some signature => simp only [hsides, hs]
    | none => cases hn : named.name? <;> simp only [hsides, hs, hn]
  · cases h

theorem Node.meaning_operation {left right : Node} {t : Token}
    (hlit : isLiteral [left, .leaf t, right] ≠ true)
    (hop : ¬(t.kind = .operator ∧ t.text ∈ assignmentOperators)) :
    (group [left, .leaf t, right]).meaning = .operation t.text left.meaning right.meaning := by
  rw [meaning, if_neg hlit, if_neg hop]

theorem Node.meaning_malformed {children : List Node} (hlit : isLiteral children ≠ true)
    (hlen : 3 ≤ children.length) (hshape : ∀ left t right, children ≠ [left, .leaf t, right]) :
    (group children).meaning = .malformed (.group children) := by
  rw [meaning, if_neg hlit]
  -- the equation of the last case asks that no case before it applies
  all_goals
    intros
    subst_vars
    first
    | exact hshape _ _ _ rfl
    | simp at hlen

/-! ## Induction -/

@[elab_as_elim]
theorem Node.meaningInduction {motive : Node → Prop}
    (number : ∀ t, t.kind = .number → (leaf t).meaning = .number t.text → motive (.leaf t))
    (name : ∀ t, t.kind ≠ .number → (leaf t).meaning = .name t.text → motive (.leaf t))
    (literal : ∀ children, isLiteral children = true →
      (group children).meaning = .literal ((literalRows children).map (·.map meaning)) →
      (∀ row ∈ literalRows children, ∀ node ∈ row, motive node) → motive (.group children))
    (nothing : (group []).meaning = .nothing → motive (.group []))
    (wrapped : ∀ child, isLiteral [child] ≠ true → (group [child]).meaning = child.meaning →
      motive child → motive (.group [child]))
    (negation : ∀ t right, t.kind = .operator → t.text = "-" →
      (group [.leaf t, right]).meaning = .negation right.meaning →
      motive right → motive (.group [.leaf t, right]))
    (unknownUnary : ∀ t right, t.kind = .operator → t.text ∈ unaryOperators → t.text ≠ "-" →
      (group [.leaf t, right]).meaning = .unknownUnary t.text →
      motive (.group [.leaf t, right]))
    (call : ∀ t right, t.kind = .name →
      (group [.leaf t, right]).meaning = .call t.text (right.arguments.map meaning) →
      (∀ arg ∈ right.arguments, motive arg) → motive (.group [.leaf t, right]))
    (notApplicable : ∀ left right, isLiteral [left, right] ≠ true →
      left.isOperatorIn unaryOperators ≠ true → left.isLeafOf .name ≠ true →
      (group [left, right]).meaning = .notApplicable left right →
      motive (.group [left, right]))
    (definition : ∀ left op right named stored function params,
      (group [left, op, right]).assignment? = some (named, stored) →
      named.signature? = some (function, params) →
      (group [left, op, right]).meaning = .definition function params stored →
      motive (.group [left, op, right]))
    (assignment : ∀ left op right named stored target,
      (group [left, op, right]).assignment? = some (named, stored) →
      named.signature? = none → named.name? = some target →
      (group [left, op, right]).meaning = .assignment target stored.meaning →
      motive stored → motive (.group [left, op, right]))
    (misassignment : ∀ left op right named stored,
      (group [left, op, right]).assignment? = some (named, stored) →
      named.signature? = none → named.name? = none →
      (group [left, op, right]).meaning = .misassignment stored.meaning →
      motive stored → motive (.group [left, op, right]))
    (operation : ∀ left t right, isLiteral [left, .leaf t, right] ≠ true →
      ¬(t.kind = .operator ∧ t.text ∈ assignmentOperators) →
      (group [left, .leaf t, right]).meaning = .operation t.text left.meaning right.meaning →
      motive left → motive right → motive (.group [left, .leaf t, right]))
    (malformed : ∀ children, isLiteral children ≠ true → 3 ≤ children.length →
      (∀ left t right, children ≠ [left, .leaf t, right]) →
      (group children).meaning = .malformed (.group children) → motive (.group children))
    (node : Node) : motive node := by
  induction hsize : sizeOf node using Nat.strongRecOn generalizing node with
  | ind size ih =>
    cases node with
    | leaf t =>
      by_cases hk : t.kind = .number
      · exact number t hk (by rw [meaning, if_pos hk])
      · exact name t hk (by rw [meaning, if_neg hk])
    | group children =>
      have hsmaller : ∀ child ∈ children, sizeOf child < size := by
        intro child hchild
        have hlt := List.sizeOf_lt_of_mem hchild
        rw [group.sizeOf_spec] at hsize
        omega
      have ihchild : ∀ child ∈ children, motive child :=
        fun child hchild => ih _ (hsmaller child hchild) child rfl
      by_cases hlit : isLiteral children = true
      · exact literal children hlit (meaning_literal hlit)
          fun row hr node hn => ihchild node (mem_of_mem_literalRows hr hn)
      · rcases children with _ | ⟨left, _ | ⟨op, _ | ⟨right, _ | ⟨fourth, rest⟩⟩⟩⟩
        · exact nothing (by rw [meaning, if_neg hlit])
        · exact wrapped left hlit (meaning_wrapped hlit) (ihchild left (by simp))
        · cases left with
          | leaf t =>
            by_cases hop : t.kind = .operator ∧ t.text ∈ unaryOperators
            · by_cases htext : t.text = "-"
              · exact negation t op hop.1 htext (meaning_negation hop.1 htext op)
                  (ihchild op (by simp))
              · exact unknownUnary t op hop.1 hop.2 htext
                  (meaning_unknownUnary hop.1 hop.2 htext op)
            · by_cases hk : t.kind = .name
              · refine call t op hk (meaning_call hk op) fun arg harg => ih _ ?_ arg rfl
                have hle := sizeOf_le_of_mem_arguments harg
                exact Nat.lt_of_le_of_lt hle (hsmaller op (by simp))
              · have hunary : (leaf t).isOperatorIn unaryOperators ≠ true := by
                  simpa [isOperatorIn] using hop
                have hname : (leaf t).isLeafOf .name ≠ true := by simpa [isLeafOf] using hk
                exact notApplicable _ op hlit hunary hname
                  (meaning_notApplicable hlit hunary hname)
          | group nodes =>
            have hunary : (group nodes).isOperatorIn unaryOperators ≠ true := Bool.false_ne_true
            have hname : (group nodes).isLeafOf .name ≠ true := Bool.false_ne_true
            exact notApplicable _ op hlit hunary hname (meaning_notApplicable hlit hunary hname)
        · cases op with
          | leaf t =>
            by_cases hop : t.kind = .operator ∧ t.text ∈ assignmentOperators
            · rcases hpair : assignmentSides t.text left right with ⟨named, stored⟩
              have hsides : (group [left, .leaf t, right]).assignment? = some (named, stored) := by
                rw [assignment?, if_pos ⟨hlit, hop⟩, hpair]
              have hstored := ihchild _ (mem_of_assignment?_eq_some hsides).2
              have hmeaning := meaning_assignment hsides
              cases hs : named.signature? with
              | some signature =>
                rw [hs] at hmeaning
                exact definition left _ right named stored _ _ hsides hs hmeaning
              | none =>
                rw [hs] at hmeaning
                cases hn : named.name? with
                | some target =>
                  rw [hn] at hmeaning
                  exact assignment left _ right named stored target hsides hs hn hmeaning hstored
                | none =>
                  rw [hn] at hmeaning
                  exact misassignment left _ right named stored hsides hs hn hmeaning hstored
            · exact operation left t right hlit hop (meaning_operation hlit hop)
                (ihchild left (by simp)) (ihchild right (by simp))
          | group nodes =>
            have hshape : ∀ l t r, [left, .group nodes, right] ≠ [l, .leaf t, r] := by simp
            exact malformed _ hlit (by simp) hshape (meaning_malformed hlit (by simp) hshape)
        · have hshape : ∀ l t r, left :: op :: right :: fourth :: rest ≠ [l, .leaf t, r] := by simp
          exact malformed _ hlit (by simp) hshape (meaning_malformed hlit (by simp) hshape)

end Reckoner
