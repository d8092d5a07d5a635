import Reckoner.Proofs.Arrangement
import Reckoner.Proofs.Evaluable

/-!
# What arranging leaves behind

A row that does not come down to one node is not arranged into nothing: whatever fits no rule stays
in it. `Settled` says how a node of an arranged row can still stand between its neighbours
(`settled_arrange`): an operand in front of another operand never has a value, a unary operator
where it could be applied has nothing behind it, and no binary operator is left between operands.

Each pass adds to this and keeps what the passes before it have brought about. Pairing leaves no
operands side by side. Wrapping can bring some together, but only by making an operand of an
operator and something that is none, and that operand has no value. Folding makes an operand that
has no value unless both of its sides have one.
-/

namespace Reckoner

/-! ## Operands with a value -/

/-- A row that begins with an operand is no list. -/
theorem not_isLiteral_of_isOperand {first : Node} {rest : List Node}
    (h : first.isOperand = true) : Node.isLiteral (first :: rest) ≠ true := by
  rw [Node.isLiteral, Node.isLeafOf_of_isOperand h (by decide) (by decide)]
  exact Bool.false_ne_true

namespace Node.Evaluable

theorem isOperand {node : Node} (h : node.Evaluable) : node.isOperand = true := by
  cases h with
  | number hk | name hk => simp [Node.isOperand, hk]
  | literal | nothing | wrapped | negation | call | operation => rfl

theorem of_literal {children : List Node} (hlit : isLiteral children = true)
    (h : (Node.group children).Evaluable) :
    ∀ row ∈ literalRows children, ∀ node ∈ row, node.Evaluable := by
  cases h with
  | literal _ hrows => exact hrows
  | nothing => cases hlit
  | wrapped hchild => exact absurd hlit (not_isLiteral_of_isOperand hchild.isOperand)
  | negation hk | call hk => simp [isLiteral, isLeafOf, hk] at hlit
  | operation _ _ hleft => exact absurd hlit (not_isLiteral_of_isOperand hleft.isOperand)

/-- Only a name is applied to an operand behind it. -/
theorem of_paired {left right : Node} (hleft : left.isOperand = true)
    (h : (Node.group [left, right]).Evaluable) :
    ∃ t, left = .leaf t ∧ t.kind = .name ∧ ∀ arg ∈ right.arguments, arg.Evaluable := by
  cases h with
  | literal hlit => exact absurd hlit (not_isLiteral_of_isOperand hleft)
  | negation hk => simp [Node.isOperand, hk] at hleft
  | @call t _ hk hargs => exact ⟨t, rfl, hk, hargs⟩

/-- Behind a unary operator stands an operand with a value. -/
theorem of_prefixed {op operand : Node} (hop : op.isOperatorIn unaryOperators = true)
    (h : (Node.group [op, operand]).Evaluable) : operand.Evaluable := by
  cases h with
  | literal hlit =>
    cases op with
    | leaf t =>
      simp only [isLiteral, isLeafOf, isOperatorIn, Bool.and_eq_true, beq_iff_eq] at hlit hop
      rw [hlit] at hop
      cases hop.1
    | group children => cases hop
  | negation _ _ hoperand => exact hoperand
  | call hk => simp [isOperatorIn, hk] at hop

/-- On both sides of a binary operator stand operands with a value. -/
theorem of_joined {left op right : Node} (hleft : left.isOperand = true)
    (h : (Node.group [left, op, right]).Evaluable) : left.Evaluable ∧ right.Evaluable := by
  cases h with
  | literal hlit => exact absurd hlit (not_isLiteral_of_isOperand hleft)
  | operation _ _ hl hr => exact ⟨hl, hr⟩

end Node.Evaluable

/-! ## Rows without pairs -/

/-- No two operands stand side by side in a row behind `previous`. -/
def Unpaired : Option Node → List Node → Prop
  | _, [] => True
  | previous, node :: rest =>
    (∀ p, previous = some p → p.isOperand = true → node.isOperand = false)
      ∧ Unpaired (some node) rest

theorem unpaired_pairFrom {previous : Option Node} {current : Node} {row : List Node}
    (h : ∀ p, previous = some p → p.isOperand = true → current.isOperand = false) :
    Unpaired previous (pairFrom current row) := by
  fun_induction pairFrom current row generalizing previous with
  | case1 current => exact ⟨h, trivial⟩
  | case2 current next rest hboth ih =>
      refine ih fun p hp hoperand => ?_
      rw [Bool.and_eq_true, h p hp hoperand] at hboth
      cases hboth.1
  | case3 current next rest hboth ih =>
      refine ⟨h, ih fun p hp hoperand => ?_⟩
      obtain rfl := Option.some.inj hp
      rw [hoperand, Bool.true_and, Bool.not_eq_true] at hboth
      exact hboth

theorem unpaired_pairOperands (row : List Node) : Unpaired none (pairOperands row) := by
  cases row with
  | nil => trivial
  | cons first rest => exact unpaired_pairFrom fun _ hp => by cases hp

/-! ## Settled rows -/

/-- A node stands between its neighbours as it can once unary operators are wrapped and the
operators in `folded` are folded. -/
structure Node.Stands (folded : List String) (previous : Option Node) (node : Node)
    (next : Option Node) : Prop where
  apart : ∀ p, previous = some p → p.isOperand = true → node.isOperand = true → ¬p.Evaluable
  bound : node.isOperatorIn unaryOperators = true → opensOperand previous = true → next = none
  joined : ∀ p n, previous = some p → next = some n → p.isOperand = true → n.isOperand = true →
    node.isOperatorIn folded = false

/-- Every node of a row behind `previous` stands between its neighbours. -/
def Settled (folded : List String) : Option Node → List Node → Prop
  | _, [] => True
  | previous, node :: rest =>
    node.Stands folded previous rest.head? ∧ Settled folded (some node) rest

/-- A row stays settled behind a node that takes the place of another. -/
theorem Settled.of_previous {folded : List String} {p q : Node} {row : List Node}
    (h : Settled folded (some p) row) (hopens : opensOperand (some q) = false)
    (hvalue : q.Evaluable → p.Evaluable) (hoperand : folded = [] ∨ p.isOperand = true) :
    Settled folded (some q) row := by
  cases row with
  | nil => trivial
  | cons node rest =>
    obtain ⟨hstands, hrest⟩ := h
    refine ⟨⟨?_, ?_, ?_⟩, hrest⟩
    · intro _ hq _ hnode hvalueq
      obtain rfl := Option.some.inj hq
      exact hstands.apart p rfl (hvalue hvalueq).isOperand hnode (hvalue hvalueq)
    · intro _ hq
      rw [hopens] at hq
      cases hq
    · intro _ n _ hn _ hnext
      rcases hoperand with rfl | hp
      · cases node <;> simp [Node.isOperatorIn]
      · exact hstands.joined p n rfl hn hp hnext

theorem settled_wrapFrom {previous : Option Node} {row : List Node} (h : Unpaired previous row) :
    Settled [] previous (wrapFrom previous row) := by
  have hjoined : ∀ node : Node, node.isOperatorIn [] = false := by
    intro node
    cases node <;> simp [Node.isOperatorIn]
  fun_induction wrapFrom previous row with
  | case1 previous => trivial
  | case2 previous node rest wrapped hwrap operand behind heq ih =>
      -- the operand made here may stand in front of another one: it has no value then
      rw [Bool.and_eq_true] at hwrap
      have hbehind : Settled [] (some node) (operand :: behind) := heq ▸ ih h.2
      refine ⟨⟨?_, fun hunary => absurd hunary Bool.false_ne_true, fun _ _ _ _ _ _ => hjoined _⟩,
        hbehind.2.of_previous rfl ?_ (.inl rfl)⟩
      · intro p hp hoperand
        rw [hp, opensOperand_of_isOperand hoperand] at hwrap
        cases hwrap.2
      · exact fun hvalue => hvalue.of_prefixed hwrap.1
  | case3 previous node rest wrapped hwrap heq ih =>
      exact ⟨⟨fun p hp hoperand hnode => absurd (h.1 p hp hoperand) (by simp [hnode]),
        fun _ _ => rfl, fun _ _ _ _ _ _ => hjoined _⟩, trivial⟩
  | case4 previous node rest wrapped hwrap ih =>
      refine ⟨⟨fun p hp hoperand hnode => absurd (h.1 p hp hoperand) (by simp [hnode]), ?_,
        fun _ _ _ _ _ _ => hjoined _⟩, ih h.2⟩
      intro hunary hopens
      rw [hunary, hopens] at hwrap
      exact absurd rfl hwrap

/-- Folding leaves an operand in front where one was, and nothing else than it found there
otherwise. -/
theorem head?_foldFrom (tier : List String) (left : Node) (row : List Node) :
    ∃ first, (foldFrom tier left row).head? = some first ∧ first.isOperand = left.isOperand := by
  fun_induction foldFrom tier left row with
  | case1 left op right rest hfold ih =>
      obtain ⟨first, hfirst, hoperand⟩ := ih
      rw [Bool.and_eq_true, Bool.and_eq_true] at hfold
      exact ⟨first, hfirst, hoperand.trans hfold.1.2.symm⟩
  | case2 left | case3 left | case4 left => exact ⟨left, rfl, rfl⟩

theorem Node.isOperatorIn_append (node : Node) (texts more : List String) :
    node.isOperatorIn (texts ++ more) = (node.isOperatorIn texts || node.isOperatorIn more) := by
  cases node with
  | leaf t => simp [isOperatorIn, Bool.and_or_distrib_left]
  | group children => rfl

/-- An operator of another tier may be folded next, if it has no operands at its sides. -/
theorem Node.Stands.fold {folded tier : List String} {previous next next' : Option Node}
    {node : Node} (h : node.Stands folded previous next)
    (hnext : ∀ n', next' = some n' → ∃ n, next = some n ∧ n'.isOperand = n.isOperand)
    (htier : ∀ p n, previous = some p → next = some n → p.isOperand = true →
      n.isOperand = true → node.isOperatorIn tier = false) :
    node.Stands (folded ++ tier) previous next' where
  apart := h.apart
  bound hunary hopens := by
    cases hn : next' with
    | none => rfl
    | some n' =>
      obtain ⟨n, hsome, -⟩ := hnext n' hn
      rw [h.bound hunary hopens] at hsome
      cases hsome
  joined p n' hp hn' hoperand hoperand' := by
    obtain ⟨n, hn, heq⟩ := hnext n' hn'
    rw [heq] at hoperand'
    rw [isOperatorIn_append, h.joined p n hp hn hoperand hoperand',
      htier p n hp hn hoperand hoperand', Bool.or_self]

theorem settled_foldFrom {tier folded : List String} {previous : Option Node} {left : Node}
    {row : List Node} (h : Settled folded previous (left :: row))
    (htier : ∀ p n, previous = some p → row.head? = some n → p.isOperand = true →
      n.isOperand = true → left.isOperatorIn tier = false) :
    Settled (folded ++ tier) previous (foldFrom tier left row) := by
  fun_induction foldFrom tier left row generalizing previous with
  | case1 left op right rest hfold ih =>
      obtain ⟨hleft, hop, hright, hrest⟩ := h
      simp only [Bool.and_eq_true] at hfold
      obtain ⟨⟨-, hl⟩, hr⟩ := hfold
      have hsides : (Node.group [left, op, right]).Evaluable → right.Evaluable :=
        fun hvalue => (hvalue.of_joined hl).2
      refine ih ⟨⟨?_, fun hunary => absurd hunary Bool.false_ne_true, fun _ _ _ _ _ _ => rfl⟩,
        hrest.of_previous rfl hsides (.inr hr)⟩ (fun _ _ _ _ _ _ => rfl)
      exact fun p hp hoperand _ => hleft.apart p hp hoperand hl
  | case2 left op right rest hfold ih =>
      obtain ⟨hleft, hop⟩ := h
      refine ⟨hleft.fold (fun n' hn' => ?_) htier, ih hop fun p n hp hn hoperand hoperand' => ?_⟩
      · obtain ⟨first, hfirst, hoperand⟩ := head?_foldFrom tier op (right :: rest)
        obtain rfl := Option.some.inj (hfirst.symm.trans hn')
        exact ⟨op, rfl, hoperand⟩
      · obtain rfl := Option.some.inj hp
        obtain rfl := Option.some.inj hn
        rw [hoperand, hoperand', Bool.and_true, Bool.and_true, Bool.not_eq_true] at hfold
        exact hfold
  | case3 left last =>
      obtain ⟨hleft, hlast, -⟩ := h
      exact ⟨hleft.fold (fun n' hn' => ⟨n', hn', rfl⟩) htier,
        hlast.fold (fun n' hn' => ⟨n', hn', rfl⟩) (fun _ _ _ hn => by cases hn), trivial⟩
  | case4 left =>
      exact ⟨h.1.fold (fun n' hn' => ⟨n', hn', rfl⟩) htier, trivial⟩

theorem settled_foldEach {tiers : List (List String)} {folded : List String} {row : List Node}
    (h : Settled folded none row) : Settled (folded ++ tiers.flatten) none (foldEach tiers row) := by
  induction tiers generalizing folded row with
  | nil =>
      rw [List.flatten_nil, List.append_nil]
      exact h
  | cons tier tiers ih =>
      rw [List.flatten_cons, ← List.append_assoc]
      refine ih ?_
      cases row with
      | nil => trivial
      | cons first rest => exact settled_foldFrom h fun _ _ hp => by cases hp

/-- **An arranged row is settled.** -/
theorem settled_arrange (row : List Node) :
    Settled operatorTiers.flatten none (arrange row) := by
  show Settled ([] ++ operatorTiers.flatten) none
    (foldEach operatorTiers (wrapUnary (pairOperands row)))
  exact settled_foldEach (settled_wrapFrom (unpaired_pairOperands row))

end Reckoner
