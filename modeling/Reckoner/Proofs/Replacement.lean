import Reckoner.Proofs.Segments

/-!
# Trees with a node replaced by a name

`Node.Naming u n` relates a tree to the same tree with a name `n` in the place of one of its nodes
`u`, where that place is one from which evaluation takes a value. The constructors are the steps
down to it. One of them goes through the argument of a call, which evaluation cuts at its commas
before it looks at the pieces; a name in the place of a node does not change where it is cut
(`exists_arguments_segment`). Rows that evaluation refuses without looking at their nodes may be on
the way as well (`RefusedRow.replace`).
-/

namespace Reckoner

/-! ## Segments of an argument -/

/-- The piece stands between two commas of a row, or between a comma and an end of it, or is all of
it. -/
structure IsSegment (before piece behind : List Node) : Prop where
  before : before = [] ∨ ∃ row c, c.kind = .comma ∧ before = row ++ [.leaf c]
  behind : behind = [] ∨ ∃ c row, c.kind = .comma ∧ behind = .leaf c :: row
  commaFree : ∀ node ∈ piece, node.isLeafOf .comma = false

/-- A row is cut into the same pieces on both sides of a segment, whatever stands in it. -/
theorem IsSegment.exists_cutAt {before piece behind : List Node}
    (h : IsSegment before piece behind) :
    ∃ a b, ∀ piece', (∀ node ∈ piece', node.isLeafOf .comma = false) →
      cutAt .comma (before ++ piece' ++ behind) = a ++ piece' :: b := by
  have hbehind : ∃ b, ∀ piece', (∀ node ∈ piece', node.isLeafOf .comma = false) →
      cutAt .comma (piece' ++ behind) = piece' :: b := by
    rcases h.behind with rfl | ⟨c, row, hc, rfl⟩
    · exact ⟨[], fun piece' hfree => by rw [List.append_nil, cutAt_of_forall hfree]⟩
    · exact ⟨cutAt .comma row, fun piece' hfree => cutAt_append_cons hfree hc row⟩
  obtain ⟨b, hb⟩ := hbehind
  rcases h.before with rfl | ⟨row, c, hc, rfl⟩
  · exact ⟨[], b, hb⟩
  · refine ⟨cutAt .comma row, b, fun piece' hfree => ?_⟩
    rw [List.append_assoc, List.append_assoc, List.singleton_append, cutAt_append_separator hc,
      hb piece' hfree]

/-! ## Rows that are refused -/

/-- The row is none that an expression could be read from, and evaluation looks at none of its
nodes. -/
inductive RefusedRow : List Node → Prop
  /-- Two nodes of which the left one is neither a function nor a minus. -/
  | pair {left right : Node} (hlit : Node.isLiteral [left, right] = false)
    (hname : left.isLeafOf .name = false) (hminus : left.isOperatorIn ["-"] = false) :
    RefusedRow [left, right]
  | long {row : List Node} (hlit : Node.isLiteral row = false) (hlen : 3 ≤ row.length)
    (hshape : ∀ left t right, row ≠ [left, .leaf t, right]) : RefusedRow row

/-- The sort of error that a row is refused with. -/
def refusalSort : List Node → ErrorSort
  | [left, _] => if left.isOperatorIn unaryOperators then .unknownOperator else .unknownShape
  | _ => .unknownShape

theorem refusalSort_of_length {row : List Node} (h : 3 ≤ row.length) :
    refusalSort row = .unknownShape := by
  rcases row with _ | ⟨first, _ | ⟨second, _ | ⟨third, rest⟩⟩⟩
  · rfl
  · rfl
  · simp at h
  · rfl

theorem RefusedRow.exists_error {row : List Node} (h : RefusedRow row) :
    ∃ error, error.sort = refusalSort row ∧
      ∀ calls, (Node.group row).meaning.eval calls = report error := by
  cases h with
  | @pair left right hlit hname hminus =>
    by_cases hunary : left.isOperatorIn unaryOperators = true
    · cases left with
      | group children => cases hunary
      | leaf t =>
        obtain ⟨hk, htext⟩ : t.kind = .operator ∧ t.text ∈ unaryOperators := by
          simpa [Node.isOperatorIn] using hunary
        have hne : t.text ≠ "-" := by simpa [Node.isOperatorIn, hk] using hminus
        refine ⟨.unknownOperator t.text, by rw [refusalSort, if_pos hunary]; rfl, fun calls => ?_⟩
        rw [Node.meaning_unknownUnary hk htext hne, Expr.eval]
    · refine ⟨.notApplicable left right, by rw [refusalSort, if_neg hunary]; rfl, fun calls => ?_⟩
      rw [Node.meaning_notApplicable (by simp [hlit]) hunary (by simp [hname]), Expr.eval]
  | long hlit hlen hshape =>
    refine ⟨.malformed (.group row), (refusalSort_of_length hlen).symm, fun calls => ?_⟩
    rw [Node.meaning_malformed (by simp [hlit]) hlen hshape, Expr.eval]

/-- A row is refused, and in the same way, whatever is in a group of it. -/
theorem RefusedRow.replace {before behind inner : List Node}
    (h : RefusedRow (before ++ .group inner :: behind)) (inner' : List Node) :
    RefusedRow (before ++ .group inner' :: behind) ∧
      refusalSort (before ++ .group inner' :: behind)
        = refusalSort (before ++ .group inner :: behind) := by
  generalize hrow : before ++ Node.group inner :: behind = row at h
  cases h with
  | @pair left right hlit hname hminus =>
    rcases before with _ | ⟨first, _ | ⟨second, rest⟩⟩
    · obtain ⟨rfl, rfl⟩ := List.cons.inj hrow
      exact ⟨.pair rfl rfl rfl, rfl⟩
    · obtain ⟨rfl, hbehind⟩ := List.cons.inj hrow
      obtain ⟨rfl, rfl⟩ := List.cons.inj hbehind
      exact ⟨.pair hlit hname hminus, rfl⟩
    · have hlength := congrArg List.length hrow
      simp at hlength
  | long hlit hlen hshape =>
    subst hrow
    have hlen' : 3 ≤ (before ++ Node.group inner' :: behind).length := by simpa using hlen
    refine ⟨.long ?_ hlen' fun left t right heq => ?_, ?_⟩
    · cases before with
      | nil => rfl
      | cons first rest => exact hlit
    · rcases before with _ | ⟨first, _ | ⟨second, rest⟩⟩
      · obtain ⟨-, rfl⟩ := List.cons.inj heq
        exact hshape _ _ _ rfl
      · obtain ⟨-, hrest⟩ := List.cons.inj heq
        cases (List.cons.inj hrest).1
      · obtain ⟨rfl, hrest⟩ := List.cons.inj heq
        obtain ⟨rfl, hlast⟩ := List.cons.inj hrest
        obtain ⟨rfl, hlast, rfl⟩ := List.append_eq_singleton_iff.mp hlast |>.resolve_right (by simp)
        exact hshape _ _ _ rfl
    · rw [refusalSort_of_length hlen, refusalSort_of_length hlen']

/-! ## Naming a node -/

/-- The second tree is the first one with the name `n` in the place of one of its nodes `u`, a place
that evaluation takes a value from. -/
inductive Node.Naming (u : Node) (n : Token) : Node → Node → Prop
  | here : Naming u n u (.leaf n)
  | wrapped {child child' : Node} (hlit : isLiteral [child] = false) (h : Naming u n child child') :
    Naming u n (.group [child]) (.group [child'])
  | negation {t : Token} {right right' : Node} (hk : t.kind = .operator) (htext : t.text = "-")
    (h : Naming u n right right') :
    Naming u n (.group [.leaf t, right]) (.group [.leaf t, right'])
  | left {left left' right : Node} {op : Token} (hlit : isLiteral [left, .leaf op, right] = false)
    (h : Naming u n left left') :
    Naming u n (.group [left, .leaf op, right]) (.group [left', .leaf op, right])
  | right {left right right' : Node} {op : Token} (hlit : isLiteral [left, .leaf op, right] = false)
    (h : Naming u n right right') :
    Naming u n (.group [left, .leaf op, right]) (.group [left, .leaf op, right'])
  | element {before behind : List Node} {element element' : Node} (hlit : isLiteral before = true)
    (hcomma : element.isLeafOf .comma = false) (hsemicolon : element.isLeafOf .semicolon = false)
    (h : Naming u n element element') :
    Naming u n (.group (before ++ element :: behind)) (.group (before ++ element' :: behind))
  /-- The only argument of a call. -/
  | argument {t : Token} {arg arg' : Node} (hk : t.kind = .name) (hwhole : arg.arguments = [arg])
    (hwhole' : arg'.arguments = [arg']) (h : Naming u n arg arg') :
    Naming u n (.group [.leaf t, arg]) (.group [.leaf t, arg'])
  /-- In one of the pieces that the argument of a call is cut into. -/
  | segment {t : Token} {before piece piece' behind : List Node} (hk : t.kind = .name)
    (hlit : isLiteral (before ++ piece ++ behind) = false)
    (hsegment : IsSegment before piece behind) (h : Naming u n (.group piece) (.group piece')) :
    Naming u n (.group [.leaf t, .group (before ++ piece ++ behind)])
      (.group [.leaf t, .group (before ++ piece' ++ behind)])
  /-- Somewhere in a row that evaluation refuses. -/
  | refused {before inner inner' behind : List Node}
    (hrow : RefusedRow (before ++ .group inner :: behind))
    (h : Naming u n (.group inner) (.group inner')) :
    Naming u n (.group (before ++ .group inner :: behind))
      (.group (before ++ .group inner' :: behind))

namespace Node.Naming

variable {u tree tree' : Node} {n : Token}

/-- Where something was named there is a group or the name. -/
theorem isLeafOf (h : Naming u n tree tree') (hn : n.kind = .name) {kind : TokenKind}
    (hk : kind ≠ .name) : tree'.isLeafOf kind = false := by
  cases h with
  | here => simpa [Node.isLeafOf, hn] using hk.symm
  | _ => rfl

/-- A row in which something was named differs in one node. -/
theorem exists_row {row row' : List Node} (h : Naming u n (.group row) (.group row'))
    (hn : n.kind = .name) :
    ∃ before x x' behind, row = before ++ x :: behind ∧ row' = before ++ x' :: behind ∧
      ∀ kind, kind ≠ .name → x'.isLeafOf kind = false := by
  cases h with
  | wrapped hlit h => exact ⟨[], _, _, [], rfl, rfl, fun _ => h.isLeafOf hn⟩
  | negation hk htext h => exact ⟨[_], _, _, [], rfl, rfl, fun _ => h.isLeafOf hn⟩
  | left hlit h => exact ⟨[], _, _, [_, _], rfl, rfl, fun _ => h.isLeafOf hn⟩
  | right hlit h => exact ⟨[_, _], _, _, [], rfl, rfl, fun _ => h.isLeafOf hn⟩
  | element hlit hcomma hsemicolon h => exact ⟨_, _, _, _, rfl, rfl, fun _ => h.isLeafOf hn⟩
  | argument hk hwhole hwhole' h => exact ⟨[_], _, _, [], rfl, rfl, fun _ => h.isLeafOf hn⟩
  | segment => exact ⟨[_], _, _, [], rfl, rfl, fun _ _ => rfl⟩
  | refused => exact ⟨_, _, _, _, rfl, rfl, fun _ _ => rfl⟩

/-- The arguments of a call differ in the one in which something was named. -/
theorem exists_arguments_segment {before piece piece' behind : List Node}
    (hlit : isLiteral (before ++ piece ++ behind) = false)
    (hsegment : IsSegment before piece behind) (h : Naming u n (.group piece) (.group piece'))
    (hn : n.kind = .name) :
    ∃ a b, (group (before ++ piece ++ behind)).arguments = a ++ .group piece :: b ∧
      (group (before ++ piece' ++ behind)).arguments = a ++ .group piece' :: b := by
  obtain ⟨front, x, x', back, rfl, rfl, hx'⟩ := h.exists_row hn
  have hfree : ∀ node ∈ front ++ x' :: back, node.isLeafOf .comma = false := by
    have hkept := hsegment.commaFree
    simp only [List.forall_mem_append, List.forall_mem_cons] at hkept ⊢
    exact ⟨hkept.1, hx' .comma (by decide), hkept.2.2⟩
  have hlit' : isLiteral (before ++ (front ++ x' :: back) ++ behind) = false := by
    rcases before with _ | ⟨first, rest⟩
    · rcases front with _ | ⟨first, rest⟩
      · exact hx' .leftBracket (by decide)
      · exact hlit
    · exact hlit
  have harguments : ∀ row : List Node, row ≠ [] → isLiteral row = false →
      (group row).arguments = (cutAt .comma row).map .group := by
    intro row hne hrow
    simp [arguments, hrow, hne]
  obtain ⟨a, b, hcut⟩ := hsegment.exists_cutAt
  refine ⟨a.map .group, b.map .group, ?_, ?_⟩
  · rw [harguments _ (by simp) hlit, hcut _ hsegment.commaFree]
    simp
  · rw [harguments _ (by simp) hlit', hcut _ hfree]
    simp

end Node.Naming

end Reckoner
