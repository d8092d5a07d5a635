import Reckoner.Proofs.Balance
import Reckoner.Proofs.Rereading

/-!
# Segments are arranged apart

The passes look at the neighbours of a node on both sides, but none of them sees past a comma or a
semicolon: pairing and folding want operands on both sides, and what decides whether an operator
behind a separator is unary is the separator. The only way across would be an operator that takes
the separator for its operand, which has to be the last node of its segment (`NotDangling`). So a
row of segments is arranged by arranging each of them (`arranged_row`).

A list of arguments is such a row. It is cut into its segments again after it has been arranged
(`arguments_row`), wherever in a line it stands, because arranging takes no node of a row out of the
tree (`Node.Contains.mapGroups`). Each argument then is the tree of its segment as a line of its
own.
-/

namespace Reckoner

/-! ## Rows of segments -/

/-- Segments of a row: those in front of a separator, each with the separator, and the last one. -/
structure Segments where
  closed : List (List Node × Token)
  last : List Node

namespace Segments

def all (s : Segments) : List (List Node) :=
  s.closed.map Prod.fst ++ [s.last]

def row (s : Segments) : List Node :=
  s.closed.flatMap (fun p => p.1 ++ [.leaf p.2]) ++ s.last

def map (f : List Node → List Node) (s : Segments) : Segments :=
  ⟨s.closed.map fun p => (f p.1, p.2), f s.last⟩

/-- Commas and semicolons are between the segments, and no segment in front of one ends in a unary
operator. -/
def Apart (s : Segments) : Prop :=
  ∀ p ∈ s.closed, NotDangling p.1 ∧ p.2.kind.IsSeparator

/-- Commas are between the segments and none in them. -/
structure CutByCommas (s : Segments) : Prop where
  separators : ∀ p ∈ s.closed, p.2.kind = .comma
  segments : ∀ segment ∈ s.all, ∀ node ∈ segment, node.isLeafOf .comma = false

@[simp] theorem row_cons (p : List Node × Token) (rest : List (List Node × Token))
    (last : List Node) :
    (⟨p :: rest, last⟩ : Segments).row = p.1 ++ .leaf p.2 :: row ⟨rest, last⟩ := by
  simp [row]

@[simp] theorem all_cons (p : List Node × Token) (rest : List (List Node × Token))
    (last : List Node) : (⟨p :: rest, last⟩ : Segments).all = p.1 :: all ⟨rest, last⟩ := rfl

@[simp] theorem all_map (f : List Node → List Node) (s : Segments) :
    (s.map f).all = s.all.map f := by
  simp [all, map, Function.comp_def]

/-- Only the single empty segment is an empty row. -/
theorem all_eq_of_row_eq_nil {s : Segments} (h : s.row = []) : s.all = [[]] := by
  obtain ⟨closed, last⟩ := s
  cases closed with
  | nil => exact congrArg (fun segment => [segment]) h
  | cons p rest => simp at h

theorem row_eq_nil_of_all_eq {s : Segments} (h : s.all = [[]]) : s.row = [] := by
  obtain ⟨closed, last⟩ := s
  cases closed with
  | nil => exact List.singleton_inj.mp h
  | cons p rest => simp [all] at h

end Segments

/-! ## Arranging a row of segments -/

/-- The three passes, each through a row and everything in it. -/
def arranged (row : List Node) : List Node :=
  everywhere foldTiers (everywhere wrapUnary (everywhere pairOperands row))

theorem arranged_eq (row : List Node) : arranged row = arrange (mapGroupsAll arrange row) :=
  everywhere_normalized row

@[simp] theorem arranged_nil : arranged [] = [] := rfl

theorem NotDangling.mapGroupsAll {row : List Node} (f : List Node → List Node)
    (h : NotDangling row) : NotDangling (mapGroupsAll f row) := by
  intro x hx
  rw [mapGroupsAll_eq_map, List.getLast?_map, Option.map_eq_some_iff] at hx
  obtain ⟨y, hy, rfl⟩ := hx
  rw [Node.isOperatorIn_mapGroups]
  exact h y hy

/-- A segment and the rest behind a separator are arranged apart. -/
theorem arranged_append_cons {a : List Node} {s : Token} (ha : NotDangling a)
    (hs : s.kind.IsSeparator) (b : List Node) :
    arranged (a ++ .leaf s :: b) = arranged a ++ .leaf s :: arranged b := by
  simp only [arranged_eq, mapGroupsAll_append]
  exact arrange_append_cons (ha.mapGroupsAll arrange) (.inl hs) _

theorem Segments.arranged_row {s : Segments} (h : s.Apart) :
    arranged s.row = (s.map arranged).row := by
  obtain ⟨closed, last⟩ := s
  induction closed with
  | nil => rfl
  | cons p rest ih =>
    obtain ⟨hp, hrest⟩ := List.forall_mem_cons.mp h
    rw [row_cons, arranged_append_cons hp.1 hp.2, ih hrest]
    exact (row_cons (arranged p.1, p.2) _ _).symm

/-- Arranging puts no leaf of a sort into a row that has none of it. -/
theorem isLeafOf_of_mem_arranged {kind : TokenKind} {row : List Node}
    (h : ∀ node ∈ row, node.isLeafOf kind = false) :
    ∀ node ∈ arranged row, node.isLeafOf kind = false := by
  rw [arranged_eq]
  refine forall_mem_arrange (fun _ _ _ _ _ _ => rfl) (fun _ _ _ _ _ => rfl)
    (fun _ _ _ _ _ _ _ _ _ _ _ => rfl) fun node hnode => ?_
  rw [mapGroupsAll_eq_map, List.mem_map] at hnode
  obtain ⟨inner, hinner, rfl⟩ := hnode
  cases inner with
  | leaf t => exact h _ hinner
  | group children => rfl

/-! ## Nodes stay in the tree -/

/-- The part is the node itself or somewhere below it. -/
def Node.Contains : Node → Node → Prop :=
  Relation.ReflTransGen fun node part => part ∈ node.children

theorem Node.Contains.of_mem {children : List Node} {node part : Node} (hnode : node ∈ children)
    (h : node.Contains part) : (Node.group children).Contains part :=
  .head hnode h

section Passes

variable {part : Node}

def RowContains (row : List Node) (part : Node) : Prop :=
  ∃ node ∈ row, node.Contains part

theorem rowContains_cons {node : Node} {row : List Node} :
    RowContains (node :: row) part ↔ node.Contains part ∨ RowContains row part :=
  List.exists_mem_cons_iff _ _ _

theorem rowContains_pairFrom {current : Node} {row : List Node}
    (h : RowContains (current :: row) part) : RowContains (pairFrom current row) part := by
  fun_induction pairFrom current row with
  | case1 current => exact h
  | case2 current next rest hpair ih =>
    refine ih (rowContains_cons.mpr ?_)
    rcases rowContains_cons.mp h with hcurrent | hrest
    · exact .inl (.of_mem List.mem_cons_self hcurrent)
    · exact (rowContains_cons.mp hrest).imp_left (.of_mem (by simp))
  | case3 current next rest hpair ih =>
    exact rowContains_cons.mpr ((rowContains_cons.mp h).imp_right ih)

theorem rowContains_wrapFrom {previous : Option Node} {row : List Node}
    (h : RowContains row part) : RowContains (wrapFrom previous row) part := by
  fun_induction wrapFrom previous row with
  | case1 => exact h
  | case2 previous node rest wrapped hwrap operand behind hwrapped ih =>
    rcases rowContains_cons.mp h with hnode | hrest
    · exact rowContains_cons.mpr (.inl (.of_mem List.mem_cons_self hnode))
    · have hbehind : RowContains (operand :: behind) part := hwrapped ▸ ih hrest
      exact rowContains_cons.mpr ((rowContains_cons.mp hbehind).imp_left (.of_mem (by simp)))
  | case3 previous node rest wrapped hwrap hwrapped ih =>
    rcases rowContains_cons.mp h with hnode | hrest
    · exact rowContains_cons.mpr (.inl hnode)
    · obtain ⟨_, hmem, -⟩ : RowContains [] part := hwrapped ▸ ih hrest
      cases hmem
  | case4 previous node rest wrapped hwrap ih =>
    exact rowContains_cons.mpr ((rowContains_cons.mp h).imp_right ih)

theorem rowContains_foldFrom {tier : List String} {left : Node} {row : List Node}
    (h : RowContains (left :: row) part) : RowContains (foldFrom tier left row) part := by
  fun_induction foldFrom tier left row with
  | case1 left op right rest hfold ih =>
    refine ih (rowContains_cons.mpr ?_)
    simp only [rowContains_cons] at h
    rcases h with hleft | hop | hright | hrest
    · exact .inl (.of_mem (by simp) hleft)
    · exact .inl (.of_mem (by simp) hop)
    · exact .inl (.of_mem (by simp) hright)
    · exact .inr hrest
  | case2 left op right rest hfold ih =>
    exact rowContains_cons.mpr ((rowContains_cons.mp h).imp_right ih)
  | case3 | case4 => exact h

theorem rowContains_foldEach {tiers : List (List String)} {row : List Node}
    (h : RowContains row part) : RowContains (foldEach tiers row) part := by
  induction tiers generalizing row with
  | nil => exact h
  | cons tier tiers ih =>
    refine ih ?_
    cases row with
    | nil => exact h
    | cons first rest => exact rowContains_foldFrom h

theorem rowContains_arrange {row : List Node} (h : RowContains row part) :
    RowContains (arrange row) part := by
  refine rowContains_foldEach (rowContains_wrapFrom ?_)
  cases row with
  | nil => exact h
  | cons first rest => exact rowContains_pairFrom h

end Passes

theorem arranged_ne_nil {row : List Node} (h : row ≠ []) : arranged row ≠ [] := by
  obtain ⟨first, rest, rfl⟩ := List.exists_cons_of_ne_nil h
  obtain ⟨node, hnode, -⟩ :=
    rowContains_arrange ⟨_, List.mem_cons_self (a := first.mapGroups arrange), .refl⟩
  rw [arranged_eq]
  exact List.ne_nil_of_mem hnode

/-- What a node contains is arranged within the node. -/
theorem Node.Contains.mapGroups {node part : Node} (h : node.Contains part) :
    (node.mapGroups arrange).Contains (part.mapGroups arrange) := by
  induction h using Relation.ReflTransGen.head_induction_on with
  | refl => exact .refl
  | @head node child hchild _ ih =>
    cases node with
    | leaf t => cases hchild
    | group children =>
      rw [Node.mapGroups, mapGroupsAll_eq_map]
      obtain ⟨inner, hinner, hcontains⟩ :=
        rowContains_arrange ⟨_, List.mem_map_of_mem (f := Node.mapGroups arrange) hchild, ih⟩
      exact .of_mem hinner hcontains

/-- Wherever a group stands in a line, its arranged row stands in the tree. -/
theorem contains_of_buildTree {tokens : List Token} {nodes inner : List Node} {tree : Node}
    (hresolve : resolve tokens = .ok nodes) (hbuild : buildTree tokens = .ok tree)
    (h : RowContains nodes (.group inner)) : tree.Contains (.group (arranged inner)) := by
  rw [buildTree_eq, hresolve] at hbuild
  obtain rfl := Except.ok.inj hbuild
  obtain ⟨node, hnode, hcontains⟩ := h
  have hanswer : node ∈ continueAnswer nodes := by
    rw [continueAnswer.eq_def]
    split
    · split
      · exact List.mem_cons_of_mem _ hnode
      · exact hnode
    · exact hnode
  have hline : (Node.group (continueAnswer nodes)).Contains (.group inner) :=
    .of_mem hanswer hcontains
  rw [arranged_eq]
  exact hline.mapGroups

/-! ## Lists of arguments -/

theorem Nested.isLeafOf_leftBracket {tokens : List Token} {row : List Node}
    (h : Nested tokens row) : ∀ node ∈ row, node.isLeafOf .leftBracket = false := by
  induction h with
  | nil => exact List.forall_mem_nil _
  | @leaf t ts row ho _ _ ih =>
    refine List.forall_mem_cons.mpr ⟨?_, ih⟩
    rw [Node.isLeafOf, beq_eq_false_iff_ne]
    intro hk
    rw [hk] at ho
    cases ho
  | group _ _ _ _ ih =>
    refine List.forall_mem_cons.mpr ⟨?_, ih⟩
    rw [bracketGroup]
    split <;> rfl

theorem cutAt_append_separator {kind : TokenKind} {s : Token} (hs : s.kind = kind)
    (a b : List Node) : cutAt kind (a ++ .leaf s :: b) = cutAt kind a ++ cutAt kind b := by
  induction a with
  | nil => simp [cutAt, Node.isLeafOf, hs]
  | cons node rest ih =>
    rw [List.cons_append, cutAt, cutAt, ih]
    split
    · rfl
    · obtain h | ⟨piece, c, others, -, -, h⟩ := cutAt_cases kind rest
      · rw [h]
        rfl
      · rw [h]
        rfl

theorem cutAt_append_cons {kind : TokenKind} {a : List Node} {s : Token}
    (ha : ∀ node ∈ a, node.isLeafOf kind = false) (hs : s.kind = kind) (b : List Node) :
    cutAt kind (a ++ .leaf s :: b) = a :: cutAt kind b := by
  rw [cutAt_append_separator hs, cutAt_of_forall ha]
  rfl

namespace Segments

variable {s : Segments}

theorem CutByCommas.cutAt_row (h : s.CutByCommas) : cutAt .comma s.row = s.all := by
  obtain ⟨closed, last⟩ := s
  induction closed with
  | nil => exact cutAt_of_forall (h.segments last List.mem_cons_self)
  | cons p rest ih =>
    obtain ⟨hp, hseparators⟩ := List.forall_mem_cons.mp h.separators
    obtain ⟨hsegment, hsegments⟩ := List.forall_mem_cons.mp h.segments
    rw [row_cons, cutAt_append_cons hsegment hp, ih ⟨hseparators, hsegments⟩, all_cons]

theorem CutByCommas.map_arranged (h : s.CutByCommas) : (s.map arranged).CutByCommas where
  separators := by
    rw [map, List.forall_mem_map]
    exact h.separators
  segments := by
    rw [all_map, List.forall_mem_map]
    exact fun segment hsegment => isLeafOf_of_mem_arranged (h.segments segment hsegment)

theorem CutByCommas.apart (h : s.CutByCommas) (hends : ∀ p ∈ s.closed, NotDangling p.1) :
    s.Apart :=
  fun p hp => ⟨hends p hp, .inl (h.separators p hp)⟩

/-- Arranged segments are no list in square brackets: only the bracket in front of one is a leaf,
and brackets that are resolved are in groups. -/
theorem not_isLiteral_arranged_row (hs : s.Apart)
    (hresolved : ∀ segment ∈ s.all, ∃ tokens, resolve tokens = .ok segment) :
    Node.isLiteral (arranged s.row) = false := by
  have hrow : ∀ node ∈ s.row, node.isLeafOf .leftBracket = false := by
    intro node hnode
    rw [row, List.mem_append, List.mem_flatMap] at hnode
    have hsegment : ∀ segment ∈ s.all, node ∈ segment → node.isLeafOf .leftBracket = false := by
      intro segment hsegment hnode
      obtain ⟨tokens, htokens⟩ := hresolved segment hsegment
      exact (resolve_eq_ok_iff.mp htokens).isLeafOf_leftBracket node hnode
    rcases hnode with ⟨p, hp, hnode⟩ | hnode
    · rcases List.mem_append.mp hnode with hnode | hseparator
      · exact hsegment p.1 (List.mem_append_left _ (List.mem_map_of_mem hp)) hnode
      · rw [List.mem_singleton.mp hseparator]
        rcases (hs p hp).2 with hk | hk <;> simp [Node.isLeafOf, hk]
    · exact hsegment s.last (by simp [all]) hnode
  have harranged := isLeafOf_of_mem_arranged hrow
  generalize arranged s.row = row at harranged
  cases row with
  | nil => rfl
  | cons first rest => exact harranged first List.mem_cons_self

/-- A list of arguments that has been arranged is cut into its segments again. -/
theorem arguments_row (hcommas : s.CutByCommas) (hs : s.Apart)
    (hresolved : ∀ segment ∈ s.all, ∃ tokens, resolve tokens = .ok segment)
    (hall : s.all ≠ [[]]) :
    (Node.group (arranged s.row)).arguments
      = s.all.map fun segment => .group (arranged segment) := by
  have hrow : s.row ≠ [] := fun hrow => hall (all_eq_of_row_eq_nil hrow)
  have hempty : (arranged s.row).isEmpty = false := by simpa using arranged_ne_nil hrow
  rw [Node.arguments, not_isLiteral_arranged_row hs hresolved, if_neg Bool.false_ne_true, hempty,
    if_neg Bool.false_ne_true, arranged_row hs, hcommas.map_arranged.cutAt_row, all_map,
    List.map_map]
  rfl

/-- What becomes of segments in parentheses behind the function that they are the arguments of. -/
structure ReadApart (s : Segments) : Prop where
  /-- Wherever in a line they stand, they are arranged in its tree. -/
  stands : ∀ {tokens nodes tree}, resolve tokens = .ok nodes → buildTree tokens = .ok tree →
    RowContains nodes (.group s.row) → tree.Contains (.group (arranged s.row))
  /-- Each of them is an argument. -/
  arguments : s.all ≠ [[]] → (Node.group (arranged s.row)).arguments
    = s.all.map fun segment => .group (arranged segment)
  /-- A single empty one is none. -/
  nothing : s.all = [[]] → (Node.group (arranged s.row)).arguments = []
  /-- A call has the arguments that are evaluated in it. -/
  called : ∀ {callee : Token}, callee.kind = .name → s.all ≠ [[]] →
    (Node.group [.leaf callee, .group (arranged s.row)]).meaning
      = .call callee.text (s.all.map fun segment => (Node.group (arranged segment)).meaning)
  /-- An argument is the tree that its segment has as a line, if the line does not go on from the
  last answer, and means what the segment means as a line in parentheses. -/
  alone : ∀ segment ∈ s.all, ∀ {tokens}, resolve tokens = .ok segment →
    (continueAnswer segment = segment → buildTree tokens = .ok (.group (arranged segment))) ∧
      ∀ {o c : Token}, o.kind = .leftParen → c.kind = .rightParen →
        ∃ tree, buildTree (o :: (tokens ++ [c])) = .ok tree ∧
          tree.meaning = (Node.group (arranged segment)).meaning
  /-- An empty segment is zero. -/
  empty : ∀ depth env, evalWithin depth (.group (arranged [])) env = .ok (.scalar 0) env

end Segments

/-- **Segments are arranged apart.** Where no segment in front of a separator ends in a unary
operator, a row of segments is arranged by arranging each of them and keeping the separators; and if
commas separate them and no others are in them, then they are the arguments of the call that they
stand in, each of them evaluated as if it stood alone. -/
theorem segments_arranged_apart (s : Segments) (hs : s.Apart) :
    arranged s.row = (s.map arranged).row ∧
      (s.CutByCommas → (∀ segment ∈ s.all, ∃ tokens, resolve tokens = .ok segment) →
        s.ReadApart) := by
  refine ⟨Segments.arranged_row hs, fun hcommas hresolved => ?_⟩
  have harguments := Segments.arguments_row hcommas hs hresolved
  refine ⟨contains_of_buildTree, harguments, fun hnothing => ?_, fun hk hall => ?_, ?_,
    fun depth env => ?_⟩
  · rw [Segments.row_eq_nil_of_all_eq hnothing]
    rfl
  · rw [Node.meaning_call hk, harguments hall, List.map_map]
    rfl
  · intro segment hsegment tokens htokens
    refine ⟨fun hcontinue => ?_, fun {o c} ho hc => ?_⟩
    · rw [buildTree_eq, htokens, arranged_eq]
      show Except.ok (Node.group (everywhere arrange (continueAnswer segment))) = _
      rw [hcontinue]
      rfl
    · have hnested : Nested (o :: (tokens ++ [c])) [.group segment] := by
        rw [← bracketGroup_of_leftParen ho]
        exact .bracket (by rw [ho, hc]; rfl) (resolve_eq_ok_iff.mp htokens)
      refine ⟨.group [.group (arranged segment)], ?_, Node.meaning_wrapped Bool.false_ne_true⟩
      rw [buildTree_eq, resolve_eq_ok_iff.mpr hnested, arranged_eq]
      rfl
  · have hempty : (Node.group (arranged [])).meaning = .nothing := by
      rw [arranged_nil, Node.meaning, if_neg (by decide)]
    rw [evalWithin, hempty, Expr.eval]
    rfl

/-- The segments of `f(-x, , [2])` are the arguments `(- x)`, nothing, and a list. -/
theorem segments_of_call :
    let token := fun (kind : TokenKind) (text : String) (start : Int) =>
      (⟨kind, text, start, start + 1⟩ : Token)
    let minus := Node.leaf (token .operator "-" 2)
    let x := Node.leaf (token .name "x" 3)
    let list := Node.group [.leaf (token .leftBracket "[" 8), .leaf (token .number "2" 9)]
    let s : Segments := ⟨[([minus, x], token .comma "," 4), ([], token .comma "," 6)], [list]⟩
    (s.Apart ∧ s.CutByCommas ∧ ∀ segment ∈ s.all, ∃ tokens, resolve tokens = .ok segment) ∧
      arranged s.row = (s.map arranged).row ∧ s.ReadApart ∧
      (Node.group (arranged s.row)).arguments
        = [.group [.group [minus, x]], .group [], .group [list]] := by
  intro token minus x list s
  have hdangling : NotDangling [minus, x] := by
    intro last hlast
    obtain rfl := Option.some.inj hlast
    rfl
  have hcommas : s.CutByCommas :=
    ⟨by simp [s, token], by simp [s, Segments.all, minus, x, list, token, Node.isLeafOf]⟩
  have hs : s.Apart := hcommas.apart (by simp [s, hdangling, notDangling_nil])
  have hresolved : ∀ segment ∈ s.all, ∃ tokens, resolve tokens = .ok segment :=
    List.forall_mem_cons.mpr ⟨⟨[token .operator "-" 2, token .name "x" 3], rfl⟩,
      List.forall_mem_cons.mpr ⟨⟨[], rfl⟩, List.forall_mem_singleton.mpr
        ⟨[token .leftBracket "[" 8, token .number "2" 9, token .rightBracket "]" 10], rfl⟩⟩⟩
  obtain ⟨harranged, hread⟩ := segments_arranged_apart s hs
  exact ⟨⟨hs, hcommas, hresolved⟩, harranged, hread hcommas hresolved,
    ((hread hcommas hresolved).arguments (by simp [s, Segments.all])).trans rfl⟩

end Reckoner
