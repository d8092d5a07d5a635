import Mathlib.Data.List.Induction
import Reckoner.Proofs.Comparison
import Reckoner.Proofs.Rewrapping
import Reckoner.Proofs.Shapes

/-!
# The meaning of a tree in another shape

A tree may be replaced by another one of nearly the same shape: one that has got parentheses around
some of its groups, or one whose tokens are at other places of a line. What evaluation looks at when
it tells the shapes of trees apart is the same in both: how a row is cut, what is named, and which
nodes stand at an operator.

`Node.Reshapes` says of a relation of trees that it goes down to the parts that a meaning is made
of, and what has to hold of definitions and of the trees that errors show. Then related trees have
meanings that are alike (`Node.Reshapes.alike_meaning`), by one induction over the shapes.
-/

namespace Reckoner

/-! ## Rows -/

theorem isLiteral_of_rewraps {row row' : List Node} (h : List.Forall₂ Node.Rewraps row row') :
    Node.isLiteral row' = Node.isLiteral row := by
  cases h with
  | nil => rfl
  | cons hfirst _ => exact hfirst.isLeafOf_eq .leftBracket

/-- Only three nodes around a leaf are rewrapped as three nodes around a leaf. -/
theorem exists_triple_of_rewraps {row : List Node} {left right : Node} {t : Token}
    (h : List.Forall₂ Node.Rewraps row [left, .leaf t, right]) :
    ∃ left' t' right', row = [left', .leaf t', right'] := by
  obtain ⟨left', behind, -, hbehind, rfl⟩ := List.forall₂_cons_right_iff.mp h
  obtain ⟨middle, last, hmiddle, hlast, rfl⟩ := List.forall₂_cons_right_iff.mp hbehind
  obtain ⟨right', rest, -, hrest, rfl⟩ := List.forall₂_cons_right_iff.mp hlast
  cases hrest
  cases hmiddle with
  | @leaf t' => exact ⟨left', t', right', rfl⟩

section Rows

variable {R : Node → Node → Prop} {row row' : List Node}

/-- Related rows are cut at the same places. -/
theorem forall₂_cutAt {kind : TokenKind}
    (hR : ∀ {n m}, R n m → m.isLeafOf kind = n.isLeafOf kind) (h : List.Forall₂ R row row') :
    List.Forall₂ (List.Forall₂ R) (cutAt kind row) (cutAt kind row') := by
  induction h with
  | nil => exact .cons .nil .nil
  | @cons node node' rest rest' hnode _ ih =>
      rw [cutAt, cutAt, hR hnode]
      split
      · exact .cons .nil ih
      · generalize cutAt kind rest = pieces at ih
        generalize cutAt kind rest' = pieces' at ih
        cases ih with
        | nil => exact .cons (.cons hnode .nil) .nil
        | cons hpiece hpieces => exact .cons (.cons hnode hpiece) hpieces

theorem forall₂_literalRows (hsemicolon : ∀ {n m}, R n m → m.isLeafOf .semicolon = n.isLeafOf .semicolon)
    (hcomma : ∀ {n m}, R n m → m.isLeafOf .comma = n.isLeafOf .comma)
    (h : List.Forall₂ R row row') :
    List.Forall₂ (List.Forall₂ R) (literalRows row) (literalRows row') := by
  have hpieces := forall₂_cutAt hsemicolon (List.forall₂_drop 1 h)
  have hfilter : ∀ piece piece', List.Forall₂ R piece piece' →
      List.Forall₂ R (piece.filter fun node => !node.isLeafOf .comma)
        (piece'.filter fun node => !node.isLeafOf .comma) := by
    intro piece piece' hpiece
    refine List.rel_filter (fun node node' hnode => ?_) hpiece
    simp [hcomma hnode]
  exact List.rel_map hfilter hpieces

theorem forall₂_meaning {bodies : Node → Node → Prop} {alike : Failure → Failure → Prop}
    (h : List.Forall₂ R row row')
    (halike : ∀ n ∈ row, ∀ m, R n m → n.meaning.Alike bodies alike m.meaning) :
    List.Forall₂ (Expr.Alike bodies alike) (row.map Node.meaning) (row'.map Node.meaning) := by
  rw [List.forall₂_map_left_iff, List.forall₂_map_right_iff]
  refine ((List.forall₂_and_left _ _).mpr ⟨halike, h⟩).imp fun n m hboth => ?_
  exact hboth.1 m hboth.2

end Rows

/-! ## Names -/

theorem Node.Rewraps.name?_eq {n m : Node} (h : n.Rewraps m) : m.name? = n.name? := by
  cases h with
  | leaf hk htext => simp [name?, hk, htext]
  | group | wrapped => rfl

theorem commaNames?_of_rewraps {row row' : List Node} (h : List.Forall₂ Node.Rewraps row row') :
    commaNames? row' = commaNames? row := by
  induction row using List.twoStepInduction generalizing row' with
  | nil =>
      cases h
      rfl
  | singleton node =>
      obtain ⟨node', rfl, hnode⟩ := exists_of_forall₂_one h
      rw [commaNames?, commaNames?, hnode.name?_eq]
  | cons_cons node separator rest ih _ =>
      obtain ⟨node', behind, hnode, hbehind, rfl⟩ := List.forall₂_cons_left_iff.mp h
      obtain ⟨separator', rest', hseparator, hrest, rfl⟩ := List.forall₂_cons_left_iff.mp hbehind
      rw [commaNames?, commaNames?, hseparator.isLeafOf_eq, hnode.name?_eq, ih hrest]

/-- Parentheses can hide parameters but not make any. -/
theorem Node.Rewraps.parameters?_eq {n m : Node} (h : n.Rewraps m) {names : List String}
    (hm : m.parameters? = some names) : n.parameters? = some names := by
  cases h with
  | leaf hk htext => simpa [parameters?, hk, htext] using hm
  | @group row row' hrow =>
      rw [parameters?, isLiteral_of_rewraps hrow, commaNames?_of_rewraps hrow] at hm
      rw [parameters?]
      cases hrow <;> exact hm
  | wrapped => cases hm

/-- A call shape with parentheses in it has been one without them. -/
theorem Node.Rewraps.signature?_eq {n m : Node} (h : n.Rewraps m)
    {signature : String × List String} (hm : m.signature? = some signature) :
    n.signature? = some signature := by
  obtain ⟨callee', params', rfl, hlit, hname, hlist⟩ := Node.signature?_eq_some.mp hm
  cases h with
  | @group row _ hrow =>
      obtain ⟨callee, behind, hcallee, hbehind, rfl⟩ := List.forall₂_cons_right_iff.mp hrow
      obtain ⟨params, rest, hparams, hrest, rfl⟩ := List.forall₂_cons_right_iff.mp hbehind
      cases hrest
      rw [Node.isLiteral, hcallee.isLeafOf_eq] at hlit
      rw [hcallee.name?_eq] at hname
      exact Node.signature?_eq_some.mpr
        ⟨callee, params, rfl, hlit, hname, hparams.parameters?_eq hlist⟩

theorem Node.Rewraps.signature?_eq_none {n m : Node} (h : n.Rewraps m)
    (hn : n.signature? = none) : m.signature? = none := by
  cases hm : m.signature? with
  | none => rfl
  | some signature => cases hn.symm.trans (h.signature?_eq hm)

/-! ## Assignments -/

/-- The sides of an assignment are related each for itself. -/
theorem exists_assignment {R : Node → Node → Prop} (hR : ∀ {n m}, R n m → n.Rewraps m)
    {row row' : List Node} (h : List.Forall₂ R row row') {named stored : Node}
    (hsides : (Node.group row).assignment? = some (named, stored)) :
    ∃ named' stored', (Node.group row').assignment? = some (named', stored') ∧
      R named named' ∧ R stored stored' := by
  obtain ⟨left, op, right, heq, hk, htext, hpair⟩ := Node.assignment?_eq_some hsides
  obtain rfl := Node.group.inj heq
  have hlit : Node.isLiteral [left, .leaf op, right] ≠ true := by
    intro hlit
    simp [Node.assignment?, hlit] at hsides
  obtain ⟨left', middle, right', rfl, hleft, hmiddle, hright⟩ := exists_of_forall₂_three h
  obtain ⟨op', rfl, hk', htext'⟩ := (hR hmiddle).exists_leaf
  have hlit' : Node.isLiteral [left', .leaf op', right'] ≠ true := by
    rwa [Node.isLiteral, (hR hleft).isLeafOf_eq]
  have hsides' : (Node.group [left', .leaf op', right']).assignment?
      = some (assignmentSides op.text left' right') := by
    rw [Node.assignment?, hk', htext', if_pos ⟨hlit', hk, htext⟩]
  rw [assignmentSides] at hpair hsides'
  split at hpair
  · next hequals =>
    obtain ⟨rfl, rfl⟩ := Prod.mk.inj hpair
    rw [if_pos hequals] at hsides'
    exact ⟨left', right', hsides', hleft, hright⟩
  · next harrow =>
    obtain ⟨rfl, rfl⟩ := Prod.mk.inj hpair
    rw [if_neg harrow] at hsides'
    exact ⟨right', left', hsides', hright, hleft⟩

/-! ## Meaning -/

/-- A relation of trees goes down to the parts that their meanings are made of: the nodes of a row,
and the arguments of a call as evaluation cuts them. Definitions that are related have related
bodies, and errors that show related trees are alike. -/
structure Node.Reshapes (bodies : Node → Node → Prop) (alike : Failure → Failure → Prop)
    (R : Node → Node → Prop) : Prop where
  rewraps : ∀ {n m}, R n m → n.Rewraps m
  row : ∀ {row m}, R (.group row) m →
    ∃ row', List.Forall₂ R row row' ∧ m.meaning = (Node.group row').meaning
  call : ∀ {callee : Token} {right m}, callee.kind = .name → R (.group [.leaf callee, right]) m →
    ∃ args, List.Forall₂ R right.arguments args ∧ m.meaning = .call callee.text (args.map meaning)
  definition : ∀ {n m named stored function params}, R n m → n.assignment? = some (named, stored) →
    named.signature? = some (function, params) →
    ∃ stored', bodies stored stored' ∧ m.meaning = .definition function params stored'
  notApplicable : ∀ {left left' right right'}, R left left' → R right right' →
    alike (.reported (.notApplicable left right)) (.reported (.notApplicable left' right'))
  malformed : ∀ {row row'}, List.Forall₂ R row row' →
    alike (.reported (.malformed (.group row))) (.reported (.malformed (.group row')))

/-- **Trees that are related part by part have meanings that are alike.** -/
theorem Node.Reshapes.alike_meaning {bodies : Node → Node → Prop}
    {alike : Failure → Failure → Prop} {R : Node → Node → Prop} (hR : Reshapes bodies alike R)
    {tree again : Node} (h : R tree again) : tree.meaning.Alike bodies alike again.meaning := by
  induction tree using Node.meaningInduction generalizing again with
  | number t hk hm =>
    obtain ⟨u, rfl, huk, hutext⟩ := (hR.rewraps h).exists_leaf
    rw [hm, meaning, if_pos (huk.trans hk), hutext]
    exact .number t.text
  | name t hk hm =>
    obtain ⟨u, rfl, huk, hutext⟩ := (hR.rewraps h).exists_leaf
    rw [hm, meaning, if_neg (huk ▸ hk), hutext]
    exact .name t.text
  | literal children hlit hm ih =>
    obtain ⟨row', hrow, hmeaning⟩ := hR.row h
    have hlit' : isLiteral row' = true :=
      (isLiteral_of_rewraps (hrow.imp fun _ _ => hR.rewraps)).trans hlit
    rw [hm, hmeaning, meaning_literal hlit']
    have hrows := (List.forall₂_and_left _ _).mpr ⟨ih, forall₂_literalRows
      (fun hnode => (hR.rewraps hnode).isLeafOf_eq _) (fun hnode => (hR.rewraps hnode).isLeafOf_eq _)
      hrow⟩
    refine .literal ?_
    rw [List.forall₂_map_left_iff, List.forall₂_map_right_iff]
    exact hrows.imp fun _ _ hboth => forall₂_meaning hboth.2 fun n hn _ => hboth.1 n hn
  | nothing hm =>
    obtain ⟨row', hrow, hmeaning⟩ := hR.row h
    cases hrow
    rw [hmeaning, hm]
    exact .nothing
  | wrapped child hlit hm ih =>
    obtain ⟨row', hrow, hmeaning⟩ := hR.row h
    obtain ⟨child', rfl, hchild⟩ := exists_of_forall₂_one hrow
    have hlit' : isLiteral [child'] ≠ true := by
      rwa [isLiteral, (hR.rewraps hchild).isLeafOf_eq]
    rw [hm, hmeaning, meaning_wrapped hlit']
    exact ih hchild
  | negation t right hk htext hm ih =>
    obtain ⟨row', hrow, hmeaning⟩ := hR.row h
    obtain ⟨first, right', rfl, hfirst, hright⟩ := exists_of_forall₂_two hrow
    obtain ⟨u, rfl, huk, hutext⟩ := (hR.rewraps hfirst).exists_leaf
    rw [hm, hmeaning, meaning_negation (huk.trans hk) (hutext.trans htext)]
    exact .negation (ih hright)
  | unknownUnary t right hk hunary htext hm =>
    obtain ⟨row', hrow, hmeaning⟩ := hR.row h
    obtain ⟨first, right', rfl, hfirst, hright⟩ := exists_of_forall₂_two hrow
    obtain ⟨u, rfl, huk, hutext⟩ := (hR.rewraps hfirst).exists_leaf
    rw [← hutext] at hunary htext
    rw [hm, hmeaning, meaning_unknownUnary (huk.trans hk) hunary htext, hutext]
    exact .unknownUnary t.text
  | call t right hk hm ih =>
    obtain ⟨args, hargs, hmeaning⟩ := hR.call hk h
    rw [hm, hmeaning]
    exact .call t.text (forall₂_meaning hargs fun arg harg _ => ih arg harg)
  | notApplicable left right hlit hunary hname hm =>
    obtain ⟨row', hrow, hmeaning⟩ := hR.row h
    obtain ⟨left', right', rfl, hleft, hright⟩ := exists_of_forall₂_two hrow
    have hsame := hR.rewraps hleft
    rw [hm, hmeaning, meaning_notApplicable (by rwa [isLiteral, hsame.isLeafOf_eq])
      (by rwa [hsame.isOperatorIn_eq]) (by rwa [hsame.isLeafOf_eq])]
    exact .notApplicable (hR.notApplicable hleft hright)
  | definition left op right named stored function params ha hs hm =>
    obtain ⟨stored', hstored, hmeaning⟩ := hR.definition h ha hs
    rw [hm, hmeaning]
    exact .definition function params hstored
  | assignment left op right named stored target ha hs hn hm ih =>
    obtain ⟨row', hrow, hmeaning⟩ := hR.row h
    obtain ⟨named', stored', ha', hnamed, hstored⟩ := exists_assignment hR.rewraps hrow ha
    have hassigns := meaning_assignment ha'
    rw [(hR.rewraps hnamed).signature?_eq_none hs, (hR.rewraps hnamed).name?_eq, hn] at hassigns
    rw [hm, hmeaning, hassigns]
    exact .assignment target (ih hstored)
  | misassignment left op right named stored ha hs hn hm ih =>
    obtain ⟨row', hrow, hmeaning⟩ := hR.row h
    obtain ⟨named', stored', ha', hnamed, hstored⟩ := exists_assignment hR.rewraps hrow ha
    have hassigns := meaning_assignment ha'
    rw [(hR.rewraps hnamed).signature?_eq_none hs, (hR.rewraps hnamed).name?_eq, hn] at hassigns
    rw [hm, hmeaning, hassigns]
    exact .misassignment (ih hstored)
  | operation left t right hlit hop hm ihl ihr =>
    obtain ⟨row', hrow, hmeaning⟩ := hR.row h
    obtain ⟨left', middle, right', rfl, hleft, hmiddle, hright⟩ := exists_of_forall₂_three hrow
    obtain ⟨u, rfl, huk, hutext⟩ := (hR.rewraps hmiddle).exists_leaf
    have hlit' : isLiteral [left', .leaf u, right'] ≠ true := by
      rwa [isLiteral, (hR.rewraps hleft).isLeafOf_eq]
    rw [← huk, ← hutext] at hop
    rw [hm, hmeaning, meaning_operation hlit' hop, hutext]
    exact .operation t.text (ihl hleft) (ihr hright)
  | malformed children hlit hlen hshape hm =>
    obtain ⟨row', hrow, hmeaning⟩ := hR.row h
    have hrewraps := hrow.imp fun _ _ => hR.rewraps
    have hlit' : isLiteral row' ≠ true := by rwa [isLiteral_of_rewraps hrewraps]
    have hshape' : ∀ l u r, row' ≠ [l, .leaf u, r] := by
      rintro l u r rfl
      obtain ⟨left, t, right, heq⟩ := exists_triple_of_rewraps hrewraps
      exact hshape left t right heq
    rw [hm, hmeaning, meaning_malformed hlit' (hrow.length_eq ▸ hlen) hshape']
    exact .malformed (hR.malformed hrow)

end Reckoner
