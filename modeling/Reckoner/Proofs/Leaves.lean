import Reckoner.Proofs.Arrangement
import Reckoner.Proofs.Lexemes
import Reckoner.Proofs.Shapes

/-!
# The leaves of a tree

The passes only put nodes into groups, so the leaves of a row are the same before and after each of
them, in every group at once (`leavesAll_everywhere`). What a line gains is the last answer in front
of it, and what it loses are the brackets that became groups: `leaves_buildTree` has the leaves of
the tree in terms of the tokens. In particular every leaf is a token of the line or the answer
(`mem_of_mem_leaves`), and so of the sort that its text asks for (`lexed_of_buildTree`).
-/

namespace Reckoner

theorem leavesAll_pairFrom (current : Node) (row : List Node) :
    leavesAll (pairFrom current row) = current.leaves ++ leavesAll row := by
  fun_induction pairFrom current row with
  | case1 current => rfl
  | case2 current next rest _ ih => simp [ih, Node.leaves, leavesAll]
  | case3 current next rest _ ih => simp [ih, leavesAll]

theorem leavesAll_pairOperands (row : List Node) :
    leavesAll (pairOperands row) = leavesAll row := by
  cases row with
  | nil => rfl
  | cons first rest => exact leavesAll_pairFrom first rest

theorem leavesAll_wrapFrom (previous : Option Node) (row : List Node) :
    leavesAll (wrapFrom previous row) = leavesAll row := by
  fun_induction wrapFrom previous row with
  | case1 previous => rfl
  | case2 previous node rest wrapped hwrap operand behind heq ih =>
      have hrest : leavesAll (operand :: behind) = leavesAll rest := heq ▸ ih
      simp [leavesAll, Node.leaves, ← hrest]
  | case3 previous node rest wrapped hwrap heq ih =>
      have hrest : leavesAll [] = leavesAll rest := heq ▸ ih
      simp [leavesAll, ← hrest]
  | case4 previous node rest wrapped hwrap ih => rw [leavesAll, leavesAll, ih]

theorem leavesAll_foldFrom (tier : List String) (left : Node) (row : List Node) :
    leavesAll (foldFrom tier left row) = left.leaves ++ leavesAll row := by
  fun_induction foldFrom tier left row with
  | case1 left op right rest _ ih => simp [ih, Node.leaves, leavesAll]
  | case2 left op right rest _ ih => simp [ih, leavesAll]
  | case3 left last => rfl
  | case4 left => rfl

theorem leavesAll_foldTier (tier : List String) (row : List Node) :
    leavesAll (foldTier tier row) = leavesAll row := by
  cases row with
  | nil => rfl
  | cons first rest => exact leavesAll_foldFrom tier first rest

theorem leavesAll_foldTiers (row : List Node) : leavesAll (foldTiers row) = leavesAll row := by
  have hfold : ∀ (tiers : List (List String)) (row : List Node),
      leavesAll (foldEach tiers row) = leavesAll row := by
    intro tiers
    induction tiers with
    | nil => exact fun row => rfl
    | cons tier tiers ih => exact fun row => (ih _).trans (leavesAll_foldTier tier row)
  exact hfold operatorTiers row

theorem leavesAll_arrange (row : List Node) : leavesAll (arrange row) = leavesAll row := by
  calc leavesAll (arrange row)
      = leavesAll (wrapUnary (pairOperands row)) := leavesAll_foldTiers _
    _ = leavesAll (pairOperands row) := leavesAll_wrapFrom none _
    _ = leavesAll row := leavesAll_pairOperands row

section Groups

variable {f : List Node → List Node}

mutual

theorem Node.leaves_mapGroups (hf : ∀ row, leavesAll (f row) = leavesAll row) :
    ∀ node : Node, (node.mapGroups f).leaves = node.leaves
  | .leaf _ => rfl
  | .group children => by
      rw [Node.mapGroups, Node.leaves, hf, leavesAll_mapGroupsAll hf children, Node.leaves]

theorem leavesAll_mapGroupsAll (hf : ∀ row, leavesAll (f row) = leavesAll row) :
    ∀ nodes : List Node, leavesAll (mapGroupsAll f nodes) = leavesAll nodes
  | [] => rfl
  | node :: rest => by
      rw [mapGroupsAll, leavesAll, node.leaves_mapGroups hf, leavesAll_mapGroupsAll hf rest,
        leavesAll]

end

/-- What keeps the leaves of every row keeps the leaves of all groups. -/
theorem leavesAll_everywhere (hf : ∀ row, leavesAll (f row) = leavesAll row) (row : List Node) :
    leavesAll (everywhere f row) = leavesAll row := by
  rw [everywhere, hf, leavesAll_mapGroupsAll hf]

end Groups

/-! ## The leaves of a line -/

/-- Parentheses and closing square brackets vanish into groups. -/
def TokenKind.isKept (kind : TokenKind) : Bool :=
  kind ∉ [.leftParen, .rightParen, .rightBracket]

theorem Nested.leavesAll_eq {tokens : List Token} {row : List Node} (h : Nested tokens row) :
    leavesAll row = tokens.filter fun t => t.kind.isKept := by
  induction h with
  | nil => rfl
  | @leaf t ts row ho hc _ ih =>
      have hkept : t.kind.isKept = true := by
        revert ho hc
        cases t.kind <;> decide
      rw [leavesAll, ih, List.filter_cons, if_pos hkept]
      rfl
  | @group o c ts contents rest row hk _ _ ihcontents ih =>
      rw [leavesAll, ih, List.filter_cons, List.filter_append, List.filter_cons]
      rcases kinds_of_closer?_eq_some hk with ⟨ho, hc⟩ | ⟨ho, hc⟩
      · rw [bracketGroup_of_leftParen ho, Node.leaves, ihcontents]
        simp [TokenKind.isKept, ho, hc]
      · rw [bracketGroup_of_leftBracket ho, Node.leaves, leavesAll, ihcontents]
        simp [TokenKind.isKept, ho, hc, Node.leaves]

/-- The leaf that a row gets in front: the last answer, where the row begins with an operator that
is binary and not unary. -/
def leafInFront : List Node → List Token
  | .leaf t :: _ =>
    if t.kind = .operator ∧ t.text ∈ ["^", "*", "/", "//", "+", "=", "=>"] then
      [⟨.name, "ans", t.start, t.start⟩]
    else []
  | _ => []

theorem continuesAnswer_leaf (t : Token) :
    continuesAnswer (.leaf t) = true
      ↔ t.kind = .operator ∧ t.text ∈ ["^", "*", "/", "//", "+", "=", "=>"] := by
  have hbinary : ∀ text ∈ operatorTiers.flatten, text ∉ unaryOperators →
      text ∈ ["^", "*", "/", "//", "+", "=", "=>"] := by decide
  have hneedsLeft : ∀ text ∈ ["^", "*", "/", "//", "+", "=", "=>"],
      text ∈ operatorTiers.flatten ∧ text ∉ unaryOperators := by decide
  simp only [continuesAnswer, Node.isOperatorIn, Bool.and_eq_true, Bool.not_eq_true',
    Bool.and_eq_false_iff, beq_iff_eq, beq_eq_false_iff_ne, List.contains_iff_mem]
  constructor
  · rintro ⟨⟨hk, htext⟩, hk' | hunary⟩
    · exact absurd hk hk'
    · exact ⟨hk, hbinary _ htext (by simpa using hunary)⟩
  · rintro ⟨hk, htext⟩
    exact ⟨⟨hk, (hneedsLeft _ htext).1⟩, .inr (by simpa using (hneedsLeft _ htext).2)⟩

theorem leavesAll_continueAnswer (row : List Node) :
    leavesAll (continueAnswer row) = leafInFront row ++ leavesAll row := by
  match row with
  | [] | .group _ :: _ => rfl
  | .leaf t :: rest =>
      rw [continueAnswer, leafInFront]
      by_cases ht : continuesAnswer (.leaf t) = true
      · rw [if_pos ht, if_pos ((continuesAnswer_leaf t).mp ht)]
        rfl
      · rw [if_neg ht, if_neg (mt (continuesAnswer_leaf t).mpr ht)]
        rfl

theorem leavesAll_normalize (row : List Node) :
    leavesAll (normalize row) = leafInFront row ++ leavesAll row := by
  have hwrap : ∀ nodes, leavesAll (wrapUnary nodes) = leavesAll nodes := leavesAll_wrapFrom none
  rw [normalize, leavesAll_everywhere hwrap, leavesAll_everywhere leavesAll_pairOperands,
    leavesAll_continueAnswer]

theorem leaves_foldTree (row : List Node) : (foldTree row).leaves = leavesAll row := by
  rw [foldTree, Node.leaves]
  exact leavesAll_everywhere leavesAll_foldTiers row

/-- A row gets the same leaf in front as the tokens that it is resolved from. -/
theorem Nested.leafInFront_eq {tokens : List Token} {row : List Node} (h : Nested tokens row) :
    leafInFront row = leafInFront (tokens.map .leaf) := by
  cases h with
  | nil => rfl
  | leaf => rfl
  | @group o c ts contents rest row hk =>
      have ho : o.kind ≠ .operator := by
        intro hop
        rw [hop] at hk
        cases hk
      have hgroup : ∀ row', leafInFront (bracketGroup o contents :: row') = [] := by
        intro row'
        rw [bracketGroup]
        split <;> rfl
      rw [hgroup, List.map_cons, leafInFront, if_neg fun hop => ho hop.1]

/-- **Building a tree loses, doubles and moves no token.** From left to right the leaves of the tree
of a line are its tokens but for parentheses and closing brackets, behind the last answer where the
line begins with an operator that needs a left side. The brackets vanish when they are resolved;
normalizing puts the answer in front of the row and nothing anywhere else, and folding puts nothing
at all. -/
theorem leaves_buildTree {tokens : List Token} {tree : Node} (h : buildTree tokens = .ok tree) :
    tree.leaves = leafInFront (tokens.map .leaf) ++ tokens.filter (fun t => t.kind.isKept)
      ∧ (∃ row, resolve tokens = .ok row ∧ tree = foldTree (normalize row)
        ∧ leavesAll row = tokens.filter fun t => t.kind.isKept)
      ∧ (∀ row, leavesAll (normalize row) = leafInFront row ++ leavesAll row)
      ∧ ∀ row, (foldTree row).leaves = leavesAll row := by
  rw [buildTree] at h
  cases hrow : resolve tokens with
  | error bracket =>
      rw [hrow] at h
      cases h
  | ok row =>
      rw [hrow] at h
      obtain rfl := Except.ok.inj h
      have hnested := resolve_eq_ok_iff.mp hrow
      refine ⟨?_, ⟨row, rfl, rfl, hnested.leavesAll_eq⟩, leavesAll_normalize, leaves_foldTree⟩
      rw [leaves_foldTree, leavesAll_normalize, hnested.leafInFront_eq, hnested.leavesAll_eq]

/-- The line `* f(-[x;],)` goes on from the last answer. -/
theorem leaves_of_product_with_answer :
    ∃ tokens tree, tokens.map Token.text = ["*", "f", "(", "-", "[", "x", ";", "]", ",", ")"]
      ∧ buildTree tokens = .ok tree
      ∧ tree.leaves.map Token.text = ["ans", "*", "f", "-", "[", "x", ";", ","] := by
  let tokens : List Token := [⟨.operator, "*", 0, 1⟩, ⟨.name, "f", 2, 3⟩, ⟨.leftParen, "(", 3, 4⟩,
    ⟨.operator, "-", 4, 5⟩, ⟨.leftBracket, "[", 5, 6⟩, ⟨.name, "x", 6, 7⟩, ⟨.semicolon, ";", 7, 8⟩,
    ⟨.rightBracket, "]", 8, 9⟩, ⟨.comma, ",", 9, 10⟩, ⟨.rightParen, ")", 10, 11⟩]
  have hbuild : ∃ tree, buildTree tokens = .ok tree := ⟨_, rfl⟩
  obtain ⟨tree, htree⟩ := hbuild
  refine ⟨tokens, tree, rfl, htree, ?_⟩
  rw [(leaves_buildTree htree).1]
  rfl

/-- The leaves of a tree are tokens of its line, the last answer in front of it included. -/
theorem mem_of_mem_leaves {tokens : List Token} {tree : Node} (h : buildTree tokens = .ok tree)
    {t : Token} (ht : t ∈ tree.leaves) : t ∈ withAnswer tokens := by
  obtain ⟨row, hnested, rfl⟩ := exists_of_buildTree h
  rw [Node.leaves, leavesAll_everywhere leavesAll_arrange, hnested.withAnswer.leavesAll_eq] at ht
  exact (List.mem_filter.mp ht).1

theorem lexed_of_mem_withAnswer {line : String} {t : Token} (h : t ∈ withAnswer (scan line)) :
    t.Lexed := by
  cases hscan : scan line with
  | nil =>
      rw [hscan] at h
      cases h
  | cons first rest =>
      rw [hscan, withAnswer] at h
      split at h
      · rcases List.mem_cons.mp h with rfl | h
        · exact lexed_answer _ _
        · exact Token.lexed_of_mem_scan (hscan ▸ h)
      · exact Token.lexed_of_mem_scan (hscan ▸ h)

theorem lexed_of_buildTree {line : String} {tree : Node} (h : buildTree (scan line) = .ok tree) :
    tree.AllLeaves Token.Lexed :=
  fun _ ht => lexed_of_mem_withAnswer (mem_of_mem_leaves h ht)

end Reckoner
