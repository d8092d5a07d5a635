import Mathlib.Data.List.Forall2
import Reckoner.Proofs.NormalForm
import Reckoner.Proofs.Printing

/-!
# Arranging a printed tree

A printed tree shows the groups that the passes have made as if they had been typed. Arranging it
again makes them once more, each inside the parentheses of its own text, and nothing else:
`Node.Rewraps` says that one tree is another one with such parentheses, and `rereads_mapGroups` that
arranging comes to that, so a printed line is parsed as what it was printed from (`parse_flat`).

A row that was typed is at rest. `Settled` and `Unpaired` leave no pass anything to do in it, and
what the passes look at in a node is the same in a node that rewraps it (`arrange_of_rewraps`). A
group that a pass made is one node when it is arranged by itself (`arrange_pair`,
`arrange_prefixed`, `arrange_joined`). Both need that no operator was wrapped with a leaf that is no
operand: such a pair may stand beside an operand, and is torn apart by what pairs them.
-/

namespace Reckoner

/-- Unary operators stand in front of numbers, names and groups only. -/
def Node.PrefixesOperands (tree : Node) : Prop :=
  ∀ node, Relation.ReflTransGen (fun node part => part ∈ node.children) tree node →
    ∀ op x, node = .group [.leaf op, .leaf x] → op.kind = .operator → op.text ∈ unaryOperators →
      x.kind = .number ∨ x.kind = .name

theorem Node.prefixesOperands_iff {tree : Node} :
    tree.PrefixesOperands ↔
      (∀ op x, tree = .group [.leaf op, .leaf x] → op.kind = .operator →
        op.text ∈ unaryOperators → x.kind = .number ∨ x.kind = .name) ∧
      ∀ child ∈ tree.children, child.PrefixesOperands := by
  constructor
  · exact fun h => ⟨h tree .refl, fun child hchild node hnode => h node (.head hchild hnode)⟩
  · rintro ⟨hroot, hchildren⟩ node hnode
    rcases hnode.cases_head with rfl | ⟨child, hchild, hrest⟩
    · exact hroot
    · exact hchildren child hchild node hrest

theorem Node.prefixesOperands_leaf (t : Token) : (Node.leaf t).PrefixesOperands := by
  refine prefixesOperands_iff.mpr ⟨?_, List.forall_mem_nil _⟩
  intro op x heq
  cases heq

theorem Node.prefixesOperands_group {row : List Node} :
    (Node.group row).PrefixesOperands ↔
      (∀ op x, row = [.leaf op, .leaf x] → op.kind = .operator → op.text ∈ unaryOperators →
        x.kind = .number ∨ x.kind = .name) ∧
      ∀ n ∈ row, n.PrefixesOperands := by
  rw [prefixesOperands_iff]
  simp only [Node.group.injEq, children]

theorem Node.PrefixesOperands.of_mem {row : List Node} (h : (Node.group row).PrefixesOperands)
    {node : Node} (hnode : node ∈ row) : node.PrefixesOperands :=
  (prefixesOperands_group.mp h).2 node hnode

theorem Node.PrefixesOperands.isOperand {op x : Node} (h : (Node.group [op, x]).PrefixesOperands)
    (hop : op.isOperatorIn unaryOperators = true) : x.isOperand = true := by
  cases op with
  | group children => cases hop
  | leaf t =>
      cases x with
      | group children => rfl
      | leaf u =>
          simp only [isOperatorIn, Bool.and_eq_true, beq_iff_eq, List.contains_iff_mem] at hop
          have hk := h _ .refl t u rfl hop.1 hop.2
          simpa [Node.isOperand] using hk

/-! ## Trees with parentheses of their own -/

/-- The second tree is the first one, some of whose groups have got parentheses around them. -/
inductive Node.Rewraps : Node → Node → Prop
  | leaf {t u : Token} : u.kind = t.kind → u.text = t.text → Rewraps (.leaf t) (.leaf u)
  | group {row row' : List Node} : List.Forall₂ Rewraps row row' →
      Rewraps (.group row) (.group row')
  | wrapped {row row' : List Node} : List.Forall₂ Rewraps row row' → row ≠ [] →
      isLiteral row = false → (∀ n ∈ row, n.isLeafOf .comma = false) →
      Rewraps (.group row) (.group [.group row'])

namespace Node.Rewraps

variable {n m : Node}

theorem isOperand_eq (h : n.Rewraps m) : m.isOperand = n.isOperand := by
  cases h with
  | leaf hk _ => simp [isOperand, hk]
  | group | wrapped => rfl

theorem isOperatorIn_eq (h : n.Rewraps m) (texts : List String) :
    m.isOperatorIn texts = n.isOperatorIn texts := by
  cases h with
  | leaf hk htext => simp [isOperatorIn, hk, htext]
  | group | wrapped => rfl

theorem opensOperand_eq (h : n.Rewraps m) : opensOperand (some m) = opensOperand (some n) := by
  cases h with
  | leaf hk _ => simp [opensOperand, hk]
  | group | wrapped => rfl

theorem isLeafOf_eq (h : n.Rewraps m) (kind : TokenKind) : m.isLeafOf kind = n.isLeafOf kind := by
  cases h with
  | leaf hk _ => simp [isLeafOf, hk]
  | group | wrapped => rfl

/-- Only a leaf rewraps a leaf. -/
theorem exists_leaf {t : Token} (h : (Node.leaf t).Rewraps m) :
    ∃ u : Token, m = .leaf u ∧ u.kind = t.kind ∧ u.text = t.text := by
  cases h with
  | @leaf _ u hk htext => exact ⟨u, rfl, hk, htext⟩

end Node.Rewraps

section Rows

variable {R : Node → Node → Prop} {a b c : Node} {row : List Node}

theorem exists_of_forall₂_one (h : List.Forall₂ R [a] row) : ∃ a', row = [a'] ∧ R a a' := by
  obtain ⟨a', rest, ha, hrest, rfl⟩ := List.forall₂_cons_left_iff.mp h
  cases hrest
  exact ⟨a', rfl, ha⟩

theorem exists_of_forall₂_two (h : List.Forall₂ R [a, b] row) :
    ∃ a' b', row = [a', b'] ∧ R a a' ∧ R b b' := by
  obtain ⟨a', rest, ha, hrest, rfl⟩ := List.forall₂_cons_left_iff.mp h
  obtain ⟨b', rfl, hb⟩ := exists_of_forall₂_one hrest
  exact ⟨a', b', rfl, ha, hb⟩

theorem exists_of_forall₂_three (h : List.Forall₂ R [a, b, c] row) :
    ∃ a' b' c', row = [a', b', c'] ∧ R a a' ∧ R b b' ∧ R c c' := by
  obtain ⟨a', rest, ha, hrest, rfl⟩ := List.forall₂_cons_left_iff.mp h
  obtain ⟨b', c', rfl, hb, hc⟩ := exists_of_forall₂_two hrest
  exact ⟨a', b', c', rfl, ha, hb, hc⟩

end Rows

/-! ## Rows without pairs -/

/-- Where operators stand in front of operands, no node ends bare. -/
theorem Node.PrefixesOperands.not_endsBare {node : Node} (h : node.PrefixesOperands) :
    ¬node.EndsBare := by
  intro hends
  induction hends with
  | prefixed hop hx =>
      rw [h.isOperand hop] at hx
      cases hx
  | ofPrefixed _ _ ih => exact ih (h.of_mem (by simp))
  | ofJoined _ _ _ _ ih => exact ih (h.of_mem (by simp))

theorem Apart.unpaired {previous : Option Node} {row : List Node} (h : Apart previous row)
    (hprevious : ∀ p, previous = some p → ¬p.EndsBare) (hrow : ∀ n ∈ row, ¬n.EndsBare) :
    Unpaired previous row := by
  induction row generalizing previous with
  | nil => trivial
  | cons node rest ih =>
      obtain ⟨hnode, hrest⟩ := List.forall_mem_cons.mp hrow
      refine ⟨fun p hp hop => Bool.eq_false_iff.mpr fun hoperand => ?_, ih h.2 ?_ hrest⟩
      · exact hprevious p hp (h.1 p hp hop hoperand)
      · intro p hp
        exact Option.some.inj hp ▸ hnode

/-- No two operands are left side by side where operators stand in front of operands. -/
theorem unpaired_arrange {row : List Node} (h : ∀ n ∈ arrange row, n.PrefixesOperands) :
    Unpaired none (arrange row) :=
  (apart_arrange row).unpaired (fun p hp => by cases hp) fun n hn => (h n hn).not_endsBare

/-! ## Rows at rest -/

theorem pairFrom_of_rewraps {current current' : Node} {row row' : List Node}
    (h : Unpaired (some current) row) (hcurrent : current.Rewraps current')
    (hrow : List.Forall₂ Node.Rewraps row row') : pairFrom current' row' = current' :: row' := by
  induction hrow generalizing current current' with
  | nil => rfl
  | @cons next next' rest rest' hnext hrest ih =>
      have hapart : ¬(current'.isOperand && next'.isOperand) = true := by
        rw [hcurrent.isOperand_eq, hnext.isOperand_eq, Bool.and_eq_true]
        rintro ⟨hc, hn⟩
        exact absurd (h.1 current rfl hc) (by simp [hn])
      rw [pairFrom, if_neg hapart, ih h.2 hnext]

theorem wrapFrom_of_rewraps {folded : List String} {previous previous' : Option Node}
    {row row' : List Node} (h : Settled folded previous row)
    (hprevious : opensOperand previous' = opensOperand previous)
    (hrow : List.Forall₂ Node.Rewraps row row') : wrapFrom previous' row' = row' := by
  induction hrow generalizing previous previous' with
  | nil => rfl
  | @cons node node' rest rest' hnode hrest ih =>
      have hbehind := ih h.2 hnode.opensOperand_eq
      rw [wrapFrom, hnode.isOperatorIn_eq, hprevious, hbehind]
      split
      · next hwrap =>
        rw [Bool.and_eq_true] at hwrap
        have hlast : rest = [] := List.head?_eq_none_iff.mp (h.1.bound hwrap.1 hwrap.2)
        subst hlast
        cases hrest
        rfl
      · rfl

theorem foldFrom_of_rewraps {folded tier : List String} {previous : Option Node}
    {left left' : Node} {row row' : List Node} (h : Settled folded previous (left :: row))
    (htier : ∀ node : Node, node.isOperatorIn tier = true → node.isOperatorIn folded = true)
    (hleft : left.Rewraps left') (hrow : List.Forall₂ Node.Rewraps row row') :
    foldFrom tier left' row' = left' :: row' := by
  induction hrow generalizing previous left left' with
  | nil => rfl
  | @cons op op' rest rest' hop hrest ih =>
      cases hrest with
      | nil => rfl
      | @cons right right' rest rest' hright hrest =>
          have hjoined :
              ¬(op'.isOperatorIn tier && left'.isOperand && right'.isOperand) = true := by
            rw [hop.isOperatorIn_eq, hleft.isOperand_eq, hright.isOperand_eq, Bool.and_eq_true,
              Bool.and_eq_true]
            rintro ⟨⟨ho, hl⟩, hr⟩
            have hfolded := h.2.1.joined left right rfl rfl hl hr
            exact absurd (htier op ho) (by simp [hfolded])
          rw [foldFrom, if_neg hjoined, ih h.2 hop]

theorem foldEach_of_forall {tiers : List (List String)} {row : List Node}
    (h : ∀ tier ∈ tiers, foldTier tier row = row) : foldEach tiers row = row := by
  induction tiers with
  | nil => rfl
  | cons tier tiers ih =>
      obtain ⟨htier, htiers⟩ := List.forall_mem_cons.mp h
      show foldEach tiers (foldTier tier row) = row
      rw [htier, ih htiers]

/-- The passes leave a row as it is that rewraps the nodes of one at rest. -/
theorem arrange_of_rewraps {row row' : List Node} (hunpaired : Unpaired none row)
    (hsettled : Settled operatorTiers.flatten none row)
    (hrow : List.Forall₂ Node.Rewraps row row') : arrange row' = row' := by
  have hpair : pairOperands row' = row' := by
    cases hrow with
    | nil => rfl
    | cons hfirst hrest => exact pairFrom_of_rewraps hunpaired.2 hfirst hrest
  have hwrap : wrapUnary row' = row' := wrapFrom_of_rewraps hsettled rfl hrow
  have hfold : ∀ tier ∈ operatorTiers, foldTier tier row' = row' := by
    intro tier htier
    have hknown := fun node : Node => node.isOperatorIn_flatten htier
    cases hrow with
    | nil => rfl
    | cons hfirst hrest => exact foldFrom_of_rewraps hsettled hknown hfirst hrest
  rw [arrange, hpair, hwrap]
  exact foldEach_of_forall hfold

/-! ## Groups of the passes -/

theorem arrange_pair {a b : Node} (ha : a.isOperand = true) (hb : b.isOperand = true) :
    arrange [a, b] = [.group [a, b]] := by
  have hpair : pairOperands [a, b] = [.group [a, b]] := by
    rw [pairOperands, pairFrom, ha, hb]
    rfl
  rw [arrange, hpair]
  rfl

theorem arrange_prefixed {op x : Node} (hop : op.isOperatorIn unaryOperators = true)
    (hx : x.isOperand = true) : arrange [op, x] = [.group [op, x]] := by
  have hpair : pairOperands [op, x] = [op, x] :=
    pairFrom_of_not_operand (Node.isOperand_of_isOperatorIn hop) [x]
  have hkept : wrapFrom (some op) [x] = [x] :=
    wrapFrom_of_kept (by rw [Node.isOperatorIn_of_isOperand hx, Bool.false_and]) []
  have hwrap : wrapUnary [op, x] = [.group [op, x]] := by
    rw [wrapUnary, wrapFrom, hkept, hop]
    rfl
  rw [arrange, hpair, hwrap]
  rfl

theorem foldTier_triple {l op r : Node} (hl : l.isOperand = true) (hr : r.isOperand = true)
    (tier : List String) : foldTier tier [l, op, r]
      = if op.isOperatorIn tier = true then [.group [l, op, r]] else [l, op, r] := by
  rw [foldTier, foldFrom, hl, hr, Bool.and_true, Bool.and_true]
  rfl

theorem foldEach_triple {l op r : Node} (hl : l.isOperand = true) (hr : r.isOperand = true)
    {tiers : List (List String)} {tier : List String} (htier : tier ∈ tiers)
    (hop : op.isOperatorIn tier = true) : foldEach tiers [l, op, r] = [.group [l, op, r]] := by
  induction tiers with
  | nil => cases htier
  | cons first rest ih =>
      show foldEach rest (foldTier first [l, op, r]) = _
      rw [foldTier_triple hl hr]
      split
      · exact foldEach_of_forall fun _ _ => rfl
      · next hfirst =>
        rcases List.mem_cons.mp htier with rfl | hrest
        · exact absurd hop hfirst
        · exact ih hrest

theorem arrange_joined {l op r : Node} {tier : List String} (htier : tier ∈ operatorTiers)
    (hl : l.isOperand = true) (hop : op.isOperatorIn tier = true) (hr : r.isOperand = true) :
    arrange [l, op, r] = [.group [l, op, r]] := by
  have hpair : pairOperands [l, op, r] = [l, op, r] :=
    pairOperands_append_cons (Node.isOperand_of_isOperatorIn hop) [l] [r]
  have hkept : ∀ x previous behind, x.isOperand = true →
      wrapFrom previous (x :: behind) = x :: wrapFrom (some x) behind := by
    intro x previous behind hx
    exact wrapFrom_of_kept (by rw [Node.isOperatorIn_of_isOperand hx, Bool.false_and]) behind
  have hbinary : wrapFrom (some l) [op, r] = op :: wrapFrom (some op) [r] :=
    wrapFrom_of_kept (by rw [opensOperand_of_isOperand hl, Bool.and_false]) [r]
  have hwrap : wrapUnary [l, op, r] = [l, op, r] := by
    rw [wrapUnary, hkept l _ _ hl, hbinary, hkept r _ _ hr]
    rfl
  rw [arrange, hpair, hwrap]
  exact foldEach_triple hl hr htier hop

/-! ## Reading again -/

/-- Arranging the tree again, wherever its tokens are, gives it parentheses of its own and does not
change it otherwise. -/
def Node.Rereads (node : Node) : Prop :=
  ∀ again, node.SameText again → node.Rewraps (again.mapGroups arrange)

theorem forall₂_mapGroupsAll {row row' : List Node} (h : ∀ n ∈ row, n.Rereads)
    (hsame : List.Forall₂ Node.SameText row row') :
    List.Forall₂ Node.Rewraps row (mapGroupsAll arrange row') := by
  induction hsame with
  | nil => exact .nil
  | cons hfirst _ ih =>
      obtain ⟨hnode, hrest⟩ := List.forall_mem_cons.mp h
      exact .cons (hnode _ hfirst) (ih hrest)

/-- A group that arranging its row makes again rereads. -/
theorem Node.Rereads.of_arrange {row : List Node} (h : ∀ n ∈ row, n.Rereads) (hne : row ≠ [])
    (hlit : isLiteral row = false) (hcomma : ∀ n ∈ row, n.isLeafOf .comma = false)
    (harrange : ∀ row', List.Forall₂ Rewraps row row' → arrange row' = [.group row']) :
    (Node.group row).Rereads := by
  intro again hsame
  cases hsame with
  | @group _ row' hrow =>
      have hrewraps := forall₂_mapGroupsAll h hrow
      rw [mapGroups, harrange _ hrewraps]
      exact .wrapped hrewraps hne hlit hcomma

theorem rereads_pair {a b : Node} (ha : a.isOperand = true) (hb : b.isOperand = true)
    (hreadsa : a.Rereads) (hreadsb : b.Rereads) : (Node.group [a, b]).Rereads := by
  have hlit : Node.isLiteral [a, b] = false := Node.isLeafOf_of_isOperand ha (by simp) (by simp)
  have hcomma : ∀ n ∈ [a, b], n.isLeafOf .comma = false :=
    List.forall_mem_cons.mpr ⟨Node.isLeafOf_of_isOperand ha (by simp) (by simp),
      List.forall_mem_singleton.mpr (Node.isLeafOf_of_isOperand hb (by simp) (by simp))⟩
  have hreads : ∀ n ∈ [a, b], n.Rereads :=
    List.forall_mem_cons.mpr ⟨hreadsa, List.forall_mem_singleton.mpr hreadsb⟩
  refine .of_arrange hreads (by simp) hlit hcomma fun row' hrow => ?_
  obtain ⟨a', b', rfl, ha', hb'⟩ := exists_of_forall₂_two hrow
  exact arrange_pair (ha'.isOperand_eq.trans ha) (hb'.isOperand_eq.trans hb)

theorem rereads_prefixed {op x : Node} (hop : op.isOperatorIn unaryOperators = true)
    (hx : x.isOperand = true) (hreadsop : op.Rereads) (hreadsx : x.Rereads) :
    (Node.group [op, x]).Rereads := by
  have hlit : Node.isLiteral [op, x] = false := Node.isLeafOf_of_isOperatorIn hop (by simp)
  have hcomma : ∀ n ∈ [op, x], n.isLeafOf .comma = false :=
    List.forall_mem_cons.mpr ⟨Node.isLeafOf_of_isOperatorIn hop (by simp),
      List.forall_mem_singleton.mpr (Node.isLeafOf_of_isOperand hx (by simp) (by simp))⟩
  have hreads : ∀ n ∈ [op, x], n.Rereads :=
    List.forall_mem_cons.mpr ⟨hreadsop, List.forall_mem_singleton.mpr hreadsx⟩
  refine .of_arrange hreads (by simp) hlit hcomma fun row' hrow => ?_
  obtain ⟨op', x', rfl, hop', hx'⟩ := exists_of_forall₂_two hrow
  exact arrange_prefixed ((hop'.isOperatorIn_eq _).trans hop) (hx'.isOperand_eq.trans hx)

theorem rereads_joined {l op r : Node} {tier : List String} (htier : tier ∈ operatorTiers)
    (hl : l.isOperand = true) (hop : op.isOperatorIn tier = true) (hr : r.isOperand = true)
    (hreadsl : l.Rereads) (hreadsop : op.Rereads) (hreadsr : r.Rereads) :
    (Node.group [l, op, r]).Rereads := by
  have hlit : Node.isLiteral [l, op, r] = false :=
    Node.isLeafOf_of_isOperand hl (by simp) (by simp)
  have hcomma : ∀ n ∈ [l, op, r], n.isLeafOf .comma = false :=
    List.forall_mem_cons.mpr ⟨Node.isLeafOf_of_isOperand hl (by simp) (by simp),
      List.forall_mem_cons.mpr ⟨Node.isLeafOf_of_isOperatorIn hop (by simp),
        List.forall_mem_singleton.mpr (Node.isLeafOf_of_isOperand hr (by simp) (by simp))⟩⟩
  have hreads : ∀ n ∈ [l, op, r], n.Rereads :=
    List.forall_mem_cons.mpr ⟨hreadsl, List.forall_mem_cons.mpr ⟨hreadsop,
      List.forall_mem_singleton.mpr hreadsr⟩⟩
  refine .of_arrange hreads (by simp) hlit hcomma fun row' hrow => ?_
  obtain ⟨l', op', r', rfl, hl', hop', hr'⟩ := exists_of_forall₂_three hrow
  exact arrange_joined htier (hl'.isOperand_eq.trans hl) ((hop'.isOperatorIn_eq _).trans hop)
    (hr'.isOperand_eq.trans hr)

/-- The groups that the passes make in a row reread if the nodes of the row do. -/
theorem rereads_arrange {row : List Node} (h : ∀ n ∈ row, n.PrefixesOperands → n.Rereads) :
    ∀ n ∈ arrange row, n.PrefixesOperands → n.Rereads := by
  refine forall_mem_arrange (fun a b ha hb hreadsa hreadsb hunary => ?_)
    (fun op x hop hreadsop hreadsx hunary => ?_)
    (fun tier htier l op r hl hop hr hreadsl hreadsop hreadsr hunary => ?_) h
  · exact rereads_pair ha hb (hreadsa (hunary.of_mem (by simp)))
      (hreadsb (hunary.of_mem (by simp)))
  · exact rereads_prefixed hop (hunary.isOperand hop) (hreadsop (hunary.of_mem (by simp)))
      (hreadsx (hunary.of_mem (by simp)))
  · exact rereads_joined htier hl hop hr (hreadsl (hunary.of_mem (by simp)))
      (hreadsop (hunary.of_mem (by simp))) (hreadsr (hunary.of_mem (by simp)))

/-- A row that was typed stays as it is, and the groups in it reread. -/
theorem rereads_group {row : List Node} (h : ∀ n ∈ row, n.PrefixesOperands → n.Rereads)
    (hunary : (Node.group (arrange row)).PrefixesOperands) :
    (Node.group (arrange row)).Rereads := by
  have hmem : ∀ n ∈ arrange row, n.PrefixesOperands := fun n hn => hunary.of_mem hn
  have hreads : ∀ n ∈ arrange row, n.Rereads := fun n hn => rereads_arrange h n hn (hmem n hn)
  intro again hsame
  cases hsame with
  | @group _ row' hrow =>
      have hrewraps := forall₂_mapGroupsAll hreads hrow
      rw [Node.mapGroups, arrange_of_rewraps (unpaired_arrange hmem) (settled_arrange row) hrewraps]
      exact .group hrewraps

mutual

/-- An arranged tree rereads where its unary operators stand in front of operands. -/
theorem Node.rereads_mapGroups : ∀ node : Node, (node.mapGroups arrange).PrefixesOperands →
    (node.mapGroups arrange).Rereads
  | .leaf t, _ => by
      intro again hsame
      cases hsame with
      | leaf hk htext => exact .leaf hk htext
  | .group row, hunary => rereads_group (rereads_mapGroupsAll row) hunary

theorem rereads_mapGroupsAll : ∀ row : List Node, ∀ n ∈ mapGroupsAll arrange row,
    n.PrefixesOperands → n.Rereads
  | [] => List.forall_mem_nil _
  | node :: rest =>
      List.forall_mem_cons.mpr ⟨node.rereads_mapGroups, rereads_mapGroupsAll rest⟩

end

/-- **A printed tree is read as one with more parentheses.** The whole of it gets another pair. -/
theorem parse_flat {line : String} {tree : Node} (h : parse line = .ok tree)
    (hunary : tree.PrefixesOperands) :
    ∃ row, parse tree.flat = .ok (.group [.group row]) ∧ tree.Rewraps (.group row) := by
  obtain ⟨read, hresolve, hsame⟩ := resolve_scan_flat (regular_of_buildTree h)
  obtain ⟨row, -, rfl⟩ := exists_of_buildTree h
  have hrewraps := rereads_group (rereads_mapGroupsAll _) hunary read hsame
  cases hsame with
  | @group _ row' _ =>
      refine ⟨arrange (mapGroupsAll arrange row'), ?_, hrewraps⟩
      have halone : ∀ children, arrange [.group children] = [.group children] := fun _ => rfl
      have hanswer : continueAnswer [.group row'] = [.group row'] := rfl
      rw [parse, buildTree_eq, hresolve, Except.map, hanswer, everywhere, mapGroupsAll,
        mapGroupsAll, Node.mapGroups, halone]

end Reckoner
