import Reckoner.Proofs.Agreement
import Reckoner.Proofs.Recognition
import Reckoner.Proofs.Reshaping

/-!
# What a printed tree means

Parentheses around a group that a pass has made do not change what it means: evaluation goes through
a group of one node, such a group is no list of arguments, and it has no comma at which it could be
cut into some. The one thing that they hide is the naming side of a definition, which has to be a
call as it stands. So a tree without definitions means the same after it has been printed and read
again, up to the nodes that its errors show (`alike_meaning`), and evaluates to the same
(`evalWithin_printed`).
-/

namespace Reckoner

/-- The failures are the same, or errors of one sort. -/
def Failure.SameSort (failure failure' : Failure) : Prop :=
  failure = failure' ∨
    ∃ error error', failure = .reported error ∧ failure' = .reported error' ∧
      error.sort = error'.sort

/-! ## Meaning -/

theorem cutAt_of_forall {kind : TokenKind} {row : List Node}
    (h : ∀ n ∈ row, n.isLeafOf kind = false) : cutAt kind row = [row] := by
  induction row with
  | nil => rfl
  | cons node rest ih =>
      obtain ⟨hnode, hrest⟩ := List.forall_mem_cons.mp h
      rw [cutAt, hnode, if_neg Bool.false_ne_true, ih hrest]

theorem Node.Rewraps.forall₂_arguments {n m : Node} (h : n.Rewraps m) :
    List.Forall₂ Rewraps n.arguments m.arguments := by
  cases h with
  | leaf hk htext => exact .cons (.leaf hk htext) .nil
  | @group row row' hrow =>
      rw [arguments, arguments, isLiteral_of_rewraps hrow]
      split
      · exact .cons (.group hrow) .nil
      · cases hrow with
        | nil => exact .nil
        | cons hfirst hrest =>
            exact List.rel_map (fun _ _ => .group)
              (forall₂_cutAt (fun hnode => hnode.isLeafOf_eq _) (.cons hfirst hrest))
  | @wrapped row row' hrow hne hlit hcomma =>
      have hargs : (Node.group row).arguments = [.group row] := by
        rw [arguments, hlit, cutAt_of_forall hcomma]
        simp [hne]
      rw [hargs]
      exact .cons (.wrapped hrow hne hlit hcomma) .nil

/-- Whether a group has got parentheses or not, it means what its row means. -/
theorem Node.Rewraps.exists_row {row : List Node} {m : Node} (h : (Node.group row).Rewraps m) :
    ∃ row', List.Forall₂ Rewraps row row' ∧ m.meaning = (Node.group row').meaning := by
  cases h with
  | @group _ row' hrow => exact ⟨row', hrow, rfl⟩
  | @wrapped _ row' hrow _ _ _ =>
      have hlit : isLiteral [Node.group row'] ≠ true := Bool.false_ne_true
      exact ⟨row', hrow, Node.meaning_wrapped hlit⟩

/-- Parentheses reshape a tree without definitions. -/
theorem reshapes_definitionFree : Node.Reshapes (· = ·) Failure.SameSort
    (fun n m => n.DefinitionFree Node.components ∧ n.Rewraps m) where
  rewraps := And.right
  row := by
    rintro row m ⟨hfree, h⟩
    obtain ⟨row', hrow, hmeaning⟩ := h.exists_row
    exact ⟨row', (List.forall₂_and_left _ _).mpr ⟨fun _ => hfree.of_mem, hrow⟩, hmeaning⟩
  call := by
    rintro callee right m hk ⟨hfree, h⟩
    obtain ⟨row', hrow, hmeaning⟩ := h.exists_row
    obtain ⟨first, right', rfl, hfirst, hright⟩ := exists_of_forall₂_two hrow
    obtain ⟨callee', rfl, hk', htext⟩ := hfirst.exists_leaf
    refine ⟨right'.arguments, (List.forall₂_and_left _ _).mpr
      ⟨fun _ => hfree.of_mem_arguments hk, hright.forall₂_arguments⟩, ?_⟩
    rw [hmeaning, Node.meaning_call (hk'.trans hk), htext]
  definition := by
    rintro n m named stored function params ⟨hfree, -⟩ ha hs
    have hnone := hfree n .refl
    simp [Node.defined?, ha, hs] at hnone
  notApplicable _ _ := .inr ⟨_, _, rfl, rfl, rfl⟩
  malformed _ := .inr ⟨_, _, rfl, rfl, rfl⟩

/-- **Parentheses do not change the meaning of a tree without definitions.** -/
theorem Node.Rewraps.alike_meaning {tree : Node} (hfree : tree.DefinitionFree Node.components)
    (again : Node) (h : tree.Rewraps again) :
    tree.meaning.Alike (· = ·) Failure.SameSort again.meaning :=
  reshapes_definitionFree.alike_meaning ⟨hfree, h⟩

/-! ## Evaluation -/

theorem indistinct_eq : Environment.Indistinct (· = ·) where
  mode := by rintro _ _ rfl; rfl
  cap := by rintro _ _ rfl; rfl
  vars := by rintro _ _ rfl _; rfl
  functions := by rintro _ _ rfl _; rfl
  setVariable := by rintro _ _ rfl _ _; rfl
  define := by rintro _ _ rfl _ _; rfl

/-- The only manner of being related here is to be equal. -/
theorem simulates_self (depth : Nat) :
    (Calls.framed depth).Simulates (fun _ : Unit => (· = ·)) Failure.SameSort
      (Calls.framed depth) := by
  refine simulates_nested (fun _ => .inl rfl) (fun _ => indistinct_eq) ?_ depth
  rintro - caller _ rfl
  refine ⟨(), rfl, ?_⟩
  rintro callee _ rfl
  rfl

theorem Failure.SameSort.eq_runaway_iff {failure failure' : Failure}
    (h : failure.SameSort failure') : failure = .runaway ↔ failure' = .runaway := by
  rcases h with rfl | ⟨error, error', rfl, rfl, -⟩
  · exact Iff.rfl
  · simp

/-- **A printed tree evaluates to the same.** Where a line has a tree in which no definition can be
evaluated and unary operators stand in front of operands only, the text of the tree has one too, and
evaluating either of them leads to the same value or to errors of the same sort, at the same depth
of calls, with the same environment afterwards. -/
theorem evalWithin_printed {line : String} {tree : Node} (hparse : parse line = .ok tree)
    (hfree : tree.DefinitionFree Node.components) (hunary : tree.PrefixesOperands) :
    ∃ again, parse tree.flat = .ok again ∧
      (∀ env, ResultsAgree (· = ·) Failure.SameSort (evalLine line env)
        (evalLine tree.flat env)) ∧
      (∀ depth env, ResultsAgree (· = ·) Failure.SameSort (evalWithin depth tree env)
        (evalWithin depth again env)) ∧
      ∀ env, (∀ depth, ∃ env', evalWithin depth tree env = .error .runaway env') ↔
        ∀ depth, ∃ env', evalWithin depth again env = .error .runaway env' := by
  obtain ⟨row, hagain, hrewraps⟩ := parse_flat hparse hunary
  have hmeaning : (Node.group [.group row]).meaning = (Node.group row).meaning :=
    Node.meaning_wrapped Bool.false_ne_true
  have halike := hrewraps.alike_meaning hfree
  have hagree : ∀ depth env, ResultsAgree (· = ·) Failure.SameSort (evalWithin depth tree env)
      (evalWithin depth (.group [.group row]) env) := by
    intro depth env
    rw [evalWithin, evalWithin, hmeaning]
    exact agree_eval (simulates_self depth) halike () env env rfl
  refine ⟨_, hagain, fun env => ?_, hagree, fun env => forall_congr' fun depth => ?_⟩
  · rw [evalLine, evalLine, hparse, hagain]
    exact hagree callLimit env
  · exact (hagree depth env).fails_iff fun _ _ h => h.eq_runaway_iff

/-- The tree of the line `max(-x, 2) * [1, y; 3, -4]`. -/
def maxTimesList : Node :=
  .group [.group [.group [.leaf ⟨.name, "max", 0, 3⟩, .group [
      .group [.leaf ⟨.operator, "-", 4, 5⟩, .leaf ⟨.name, "x", 5, 6⟩],
      .leaf ⟨.comma, ",", 6, 7⟩, .leaf ⟨.number, "2", 8, 9⟩]],
    .leaf ⟨.operator, "*", 11, 12⟩,
    .group [.leaf ⟨.leftBracket, "[", 13, 14⟩, .leaf ⟨.number, "1", 14, 15⟩,
      .leaf ⟨.comma, ",", 15, 16⟩, .leaf ⟨.name, "y", 17, 18⟩, .leaf ⟨.semicolon, ";", 18, 19⟩,
      .leaf ⟨.number, "3", 20, 21⟩, .leaf ⟨.comma, ",", 21, 22⟩,
      .group [.leaf ⟨.operator, "-", 23, 24⟩, .leaf ⟨.number, "4", 24, 25⟩]]]]

theorem parse_maxTimesList : parse "max(-x, 2) * [1, y; 3, -4]" = .ok maxTimesList := by
  have hscan : scan "max(-x, 2) * [1, y; 3, -4]" = [⟨.name, "max", 0, 3⟩, ⟨.leftParen, "(", 3, 4⟩,
      ⟨.operator, "-", 4, 5⟩, ⟨.name, "x", 5, 6⟩, ⟨.comma, ",", 6, 7⟩, ⟨.number, "2", 8, 9⟩,
      ⟨.rightParen, ")", 9, 10⟩, ⟨.operator, "*", 11, 12⟩, ⟨.leftBracket, "[", 13, 14⟩,
      ⟨.number, "1", 14, 15⟩, ⟨.comma, ",", 15, 16⟩, ⟨.name, "y", 17, 18⟩,
      ⟨.semicolon, ";", 18, 19⟩, ⟨.number, "3", 20, 21⟩, ⟨.comma, ",", 21, 22⟩,
      ⟨.operator, "-", 23, 24⟩, ⟨.number, "4", 24, 25⟩, ⟨.rightBracket, "]", 25, 26⟩] := by
    decide +kernel
  rw [parse, hscan]
  rfl

/-- Printing puts parentheses around the operation, around the call and around each negation, and
no others around the arguments and the list. -/
theorem evalWithin_printed_call_and_list :
    ∃ tree again, parse "max(-x, 2) * [1, y; 3, -4]" = .ok tree ∧
      tree.DefinitionFree Node.components ∧ tree.PrefixesOperands ∧
      parse "(((max ((- x) , 2)) * [1 , y ; 3 , (- 4)]))" = .ok again ∧
      ∀ depth env, ResultsAgree (· = ·) Failure.SameSort (evalWithin depth tree env)
        (evalWithin depth again env) := by
  have hfree : maxTimesList.DefinitionFree Node.components := by
    have hleaves : ∀ t ∈ maxTimesList.leaves, t.text ∉ assignmentOperators := by decide +kernel
    exact Node.definitionFree_of_leaves hleaves
  have hunary : maxTimesList.PrefixesOperands := by
    simp [maxTimesList, Node.prefixesOperands_group, Node.prefixesOperands_leaf]
  obtain ⟨again, hagain, -, hagree, -⟩ := evalWithin_printed parse_maxTimesList hfree hunary
  have hflat : maxTimesList.flat = "(((max ((- x) , 2)) * [1 , y ; 3 , (- 4)]))" := by
    decide +kernel
  exact ⟨_, again, parse_maxTimesList, hfree, hunary, hflat ▸ hagain, hagree⟩

/-- A definition that only cutting an argument makes is lost by printing: the naming side is in
parentheses then, and the line that had a value has an error. -/
theorem printed_piece_defines_nothing :
    ∃ tree, parse "max(1, g(x) = +)" = .ok tree ∧ tree.DefinitionFree Node.children ∧
      tree.PrefixesOperands ∧
      (∃ v env', evalLine "max(1, g(x) = +)" Environment.standard = .ok v env') ∧
      ∃ env', evalLine tree.flat Environment.standard
        = .error (.reported (.unknownIdentifier "+")) env' := by
  refine ⟨maxOfDefinition, parse_maxOfDefinition, definitionFree_maxOfDefinition, ?_,
    evalLine_maxOfDefinition, ?_⟩
  · simp [maxOfDefinition, Node.prefixesOperands_group, Node.prefixesOperands_leaf]
  · have hflat : maxOfDefinition.flat = "((max (1 , (g (x)) = +)))" := by decide +kernel
    let naming := Node.group [.group [.leaf ⟨.name, "g", 12, 13⟩,
      .group [.leaf ⟨.name, "x", 15, 16⟩]]]
    let call := Node.group [.leaf ⟨.name, "max", 2, 5⟩, .group [.leaf ⟨.number, "1", 7, 8⟩,
      .leaf ⟨.comma, ",", 9, 10⟩, naming, .leaf ⟨.operator, "=", 19, 20⟩,
      .leaf ⟨.operator, "+", 21, 22⟩]]
    have hparse : parse "((max (1 , (g (x)) = +)))" = .ok (.group [.group [.group [call]]]) := by
      have hscan : scan "((max (1 , (g (x)) = +)))" = [⟨.leftParen, "(", 0, 1⟩,
          ⟨.leftParen, "(", 1, 2⟩, ⟨.name, "max", 2, 5⟩, ⟨.leftParen, "(", 6, 7⟩,
          ⟨.number, "1", 7, 8⟩, ⟨.comma, ",", 9, 10⟩, ⟨.leftParen, "(", 11, 12⟩,
          ⟨.name, "g", 12, 13⟩, ⟨.leftParen, "(", 14, 15⟩, ⟨.name, "x", 15, 16⟩,
          ⟨.rightParen, ")", 16, 17⟩, ⟨.rightParen, ")", 17, 18⟩, ⟨.operator, "=", 19, 20⟩,
          ⟨.operator, "+", 21, 22⟩, ⟨.rightParen, ")", 22, 23⟩, ⟨.rightParen, ")", 23, 24⟩,
          ⟨.rightParen, ")", 24, 25⟩] := by decide +kernel
      rw [parse, hscan]
      rfl
    have hmeaning : (Node.group [.group [.group [call]]]).meaning
        = .call "max" [.number "1", .misassignment (.name "+")] := by
      rw [Node.meaning_wrapped (by decide), Node.meaning_wrapped (by decide),
        Node.meaning_wrapped (by decide), Node.meaning_call rfl]
      simp [Node.meaning, Node.isLiteral, Node.isLeafOf, Node.arguments, cutAt,
        assignmentOperators, assignmentSides, Node.signature?, Node.name?, naming]
    rw [hflat, evalLine, hparse]
    simp only [evalTree, evalWithin, hmeaning]
    exact ⟨_, rfl⟩

end Reckoner
