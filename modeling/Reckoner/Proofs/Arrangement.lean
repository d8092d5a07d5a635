import Mathlib.Data.List.Forall2
import Reckoner.Proofs.Nesting

/-!
# The passes on one row

Pairing, wrapping and folding each go through the whole tree, but a group that one of them makes
is left alone by the others, so the three commute with going into groups: a tree is arranged by
arranging every row once, innermost rows first (`everywhere_normalized`, `buildTree_eq`).

On one row each pass stops at certain leaves, and what stands before such a leaf and what stands
behind it are treated as if they stood alone: pairing at every node that is no operand
(`pairOperands_append_cons`), wrapping at a separator, or at an operator behind an operand
(`wrapFrom_append_cons`), and folding a tier at every leaf that is no operator of the tier
(`foldTier_append_cons`).
-/

namespace Reckoner

/-- The three passes on a row whose groups are arranged. -/
def arrange (row : List Node) : List Node :=
  foldTiers (wrapUnary (pairOperands row))

/-! ## What a pass does not change in a node -/

@[simp] theorem Node.isOperand_mapGroups (f : List Node → List Node) (node : Node) :
    (node.mapGroups f).isOperand = node.isOperand := by
  cases node <;> simp [Node.mapGroups, Node.isOperand]

@[simp] theorem Node.isOperatorIn_mapGroups (f : List Node → List Node) (texts : List String)
    (node : Node) : (node.mapGroups f).isOperatorIn texts = node.isOperatorIn texts := by
  cases node <;> simp [Node.mapGroups, Node.isOperatorIn]

@[simp] theorem opensOperand_mapGroups (f : List Node → List Node) (node : Node) :
    opensOperand (some (node.mapGroups f)) = opensOperand (some node) := by
  cases node <;> simp [Node.mapGroups, opensOperand]

theorem Node.isOperatorIn_of_isOperand {node : Node} (h : node.isOperand = true)
    (texts : List String) : node.isOperatorIn texts = false := by
  cases node with
  | leaf t =>
      simp only [Node.isOperand, Bool.or_eq_true, beq_iff_eq] at h
      rcases h with h | h <;> simp [Node.isOperatorIn, h]
  | group children => rfl

theorem Node.isOperand_of_isOperatorIn {op : Node} {texts : List String}
    (h : op.isOperatorIn texts = true) : op.isOperand = false := by
  rw [← Bool.not_eq_true]
  intro hoperand
  rw [isOperatorIn_of_isOperand hoperand] at h
  cases h

theorem Node.isOperatorIn_flatten {tiers : List (List String)} {tier : List String}
    (htier : tier ∈ tiers) {node : Node} (h : node.isOperatorIn tier = true) :
    node.isOperatorIn tiers.flatten = true := by
  cases node with
  | group children => cases h
  | leaf t =>
      simp only [isOperatorIn, Bool.and_eq_true, List.contains_iff_mem] at h ⊢
      exact ⟨h.1, List.mem_flatten_of_mem htier h.2⟩

theorem Node.isLeafOf_of_isOperand {node : Node} {kind : TokenKind} (h : node.isOperand = true)
    (hnumber : kind ≠ .number) (hname : kind ≠ .name) : node.isLeafOf kind = false := by
  cases node with
  | group children => rfl
  | leaf t =>
      simp only [isOperand, Bool.or_eq_true, beq_iff_eq] at h
      rw [isLeafOf, beq_eq_false_iff_ne]
      intro hk
      rw [hk] at h
      exact h.elim hnumber hname

theorem Node.isLeafOf_of_isOperatorIn {node : Node} {texts : List String} {kind : TokenKind}
    (h : node.isOperatorIn texts = true) (hkind : kind ≠ .operator) :
    node.isLeafOf kind = false := by
  cases node with
  | group children => rfl
  | leaf t =>
      simp only [isOperatorIn, Bool.and_eq_true, beq_iff_eq] at h
      rw [isLeafOf, beq_eq_false_iff_ne]
      intro hk
      exact hkind (hk.symm.trans h.1)

theorem opensOperand_of_isOperand {node : Node} (h : node.isOperand = true) :
    opensOperand (some node) = false := by
  cases node with
  | leaf t =>
      simp only [Node.isOperand, Bool.or_eq_true, beq_iff_eq] at h
      rcases h with h | h <;> simp [opensOperand, h]
  | group children => rfl

/-! ## Two rows side by side -/

section Relation

variable {R : Node → Node → Prop}

/-- Pairing keeps the nodes of two rows related, if it cannot tell them apart. -/
theorem forall₂_pairFrom (hoperand : ∀ {n m}, R n m → m.isOperand = n.isOperand)
    (hpair : ∀ {a a' b b'}, a.isOperand = true → b.isOperand = true → R a a' → R b b' →
      R (.group [a, b]) (.group [a', b']))
    {current current' : Node} {row row' : List Node} (hcurrent : R current current')
    (hrow : List.Forall₂ R row row') :
    List.Forall₂ R (pairFrom current row) (pairFrom current' row') := by
  induction hrow generalizing current current' with
  | nil => exact .cons hcurrent .nil
  | @cons next next' rest rest' hnext _ ih =>
      rw [pairFrom, pairFrom, hoperand hcurrent, hoperand hnext]
      by_cases h : (current.isOperand && next.isOperand) = true
      · rw [if_pos h, if_pos h]
        rw [Bool.and_eq_true] at h
        exact ih (hpair h.1 h.2 hcurrent hnext)
      · rw [if_neg h, if_neg h]
        exact .cons hcurrent (ih hnext)

/-- So does wrapping, behind nodes that it cannot tell apart. -/
theorem forall₂_wrapFrom
    (hop : ∀ {n m}, R n m → m.isOperatorIn unaryOperators = n.isOperatorIn unaryOperators)
    (hopens : ∀ {n m}, R n m → opensOperand (some m) = opensOperand (some n))
    (hwrap : ∀ {op op' x x'}, op.isOperatorIn unaryOperators = true → R op op' → R x x' →
      R (.group [op, x]) (.group [op', x']))
    {previous previous' : Option Node} {row row' : List Node}
    (hprevious : opensOperand previous' = opensOperand previous)
    (hrow : List.Forall₂ R row row') :
    List.Forall₂ R (wrapFrom previous row) (wrapFrom previous' row') := by
  induction hrow generalizing previous previous' with
  | nil => exact .nil
  | @cons node node' rest rest' hnode _ ih =>
      have hrest := ih (hopens hnode)
      rw [wrapFrom, wrapFrom, hop hnode, hprevious]
      by_cases h : (node.isOperatorIn unaryOperators && opensOperand previous) = true
      · rw [if_pos h, if_pos h]
        rw [Bool.and_eq_true] at h
        generalize wrapFrom (some node) rest = wrapped at hrest
        generalize wrapFrom (some node') rest' = wrapped' at hrest
        cases hrest with
        | nil => exact .cons hnode .nil
        | cons hoperand hbehind => exact .cons (hwrap h.1 hnode hoperand) hbehind
      · rw [if_neg h, if_neg h]
        exact .cons hnode hrest

/-- And so does folding the operators of a tier. -/
theorem forall₂_foldFrom {tier : List String}
    (hoperand : ∀ {n m}, R n m → m.isOperand = n.isOperand)
    (hop : ∀ {n m}, R n m → m.isOperatorIn tier = n.isOperatorIn tier)
    (hjoin : ∀ {l l' op op' r r'}, l.isOperand = true → op.isOperatorIn tier = true →
      r.isOperand = true → R l l' → R op op' → R r r' →
      R (.group [l, op, r]) (.group [l', op', r']))
    {left left' : Node} {row row' : List Node} (hleft : R left left')
    (hrow : List.Forall₂ R row row') :
    List.Forall₂ R (foldFrom tier left row) (foldFrom tier left' row') := by
  fun_induction foldFrom tier left row generalizing left' row' with
  | case1 left op right rest hfold ih =>
      obtain ⟨op', behind, hopRel, hbehind, rfl⟩ := List.forall₂_cons_left_iff.mp hrow
      obtain ⟨right', rest', hright, hrest, rfl⟩ := List.forall₂_cons_left_iff.mp hbehind
      rw [foldFrom, hop hopRel, hoperand hleft, hoperand hright, if_pos hfold]
      simp only [Bool.and_eq_true] at hfold
      exact ih (hjoin hfold.1.2 hfold.1.1 hfold.2 hleft hopRel hright) hrest
  | case2 left op right rest hfold ih =>
      obtain ⟨op', behind, hopRel, hbehind, rfl⟩ := List.forall₂_cons_left_iff.mp hrow
      obtain ⟨right', rest', hright, hrest, rfl⟩ := List.forall₂_cons_left_iff.mp hbehind
      rw [foldFrom, hop hopRel, hoperand hleft, hoperand hright, if_neg hfold]
      exact .cons hleft (ih hopRel hbehind)
  | case3 left last =>
      obtain ⟨last', rest', hlast, hrest, rfl⟩ := List.forall₂_cons_left_iff.mp hrow
      cases hrest
      exact .cons hleft (.cons hlast .nil)
  | case4 left =>
      cases hrow
      exact .cons hleft .nil

end Relation

/-! ## Passes and groups -/

section Commute

variable {g : Node → Node}

/-- A row and its image under a function. -/
theorem forall₂_map_iff {row row' : List Node} :
    List.Forall₂ (fun n m => g n = m) row row' ↔ row.map g = row' := by
  rw [← List.forall₂_map_left_iff, List.forall₂_eq_eq_eq]

theorem map_pairFrom (hoperand : ∀ n, (g n).isOperand = n.isOperand)
    (hpair : ∀ a b, a.isOperand = true → b.isOperand = true →
      g (.group [a, b]) = .group [g a, g b]) (row : List Node) (current : Node) :
    (pairFrom current row).map g = pairFrom (g current) (row.map g) := by
  refine forall₂_map_iff.mp (forall₂_pairFrom ?_ ?_ rfl (forall₂_map_iff.mpr rfl))
  · rintro n _ rfl
    exact hoperand n
  · rintro a _ b _ ha hb rfl rfl
    exact hpair a b ha hb

theorem map_wrapFrom (hop : ∀ n, (g n).isOperatorIn unaryOperators = n.isOperatorIn unaryOperators)
    (hopens : ∀ n, opensOperand (some (g n)) = opensOperand (some n))
    (hwrap : ∀ op x, op.isOperatorIn unaryOperators = true →
      g (.group [op, x]) = .group [g op, g x]) (row : List Node) :
    (wrapFrom none row).map g = wrapFrom none (row.map g) := by
  refine forall₂_map_iff.mp (forall₂_wrapFrom ?_ ?_ ?_ rfl (forall₂_map_iff.mpr rfl))
  · rintro n _ rfl
    exact hop n
  · rintro n _ rfl
    exact hopens n
  · rintro op _ x _ hunary rfl rfl
    exact hwrap op x hunary

end Commute

theorem wrapUnary_two {a b : Node} (ha : a.isOperand = true) (hb : b.isOperand = true) :
    wrapUnary [a, b] = [a, b] := by
  simp [wrapUnary, wrapFrom, Node.isOperatorIn_of_isOperand ha, Node.isOperatorIn_of_isOperand hb]

theorem foldTiers_two (a b : Node) : foldTiers [a, b] = [a, b] := rfl

section Compose

variable {f g : List Node → List Node}

mutual

theorem Node.mapGroups_mapGroups
    (hcomm : ∀ row, mapGroupsAll g (f row) = f (mapGroupsAll g row)) :
    ∀ node : Node, (node.mapGroups f).mapGroups g = node.mapGroups fun row => g (f row)
  | .leaf _ => rfl
  | .group children => by
      simp only [Node.mapGroups]
      rw [hcomm, mapGroupsAll_mapGroupsAll hcomm children]

theorem mapGroupsAll_mapGroupsAll
    (hcomm : ∀ row, mapGroupsAll g (f row) = f (mapGroupsAll g row)) : ∀ nodes : List Node,
    mapGroupsAll g (mapGroupsAll f nodes) = mapGroupsAll (fun row => g (f row)) nodes
  | [] => rfl
  | node :: rest => by
      simp only [mapGroupsAll]
      rw [Node.mapGroups_mapGroups hcomm node, mapGroupsAll_mapGroupsAll hcomm rest]

end

/-- Two passes one after the other are one, if the groups that the first makes are left alone by
the second. -/
theorem everywhere_everywhere (hcomm : ∀ row, mapGroupsAll g (f row) = f (mapGroupsAll g row))
    (nodes : List Node) :
    everywhere g (everywhere f nodes) = everywhere (fun row => g (f row)) nodes := by
  rw [everywhere, everywhere, everywhere, hcomm, mapGroupsAll_mapGroupsAll hcomm]

end Compose

theorem mapGroupsAll_wrapUnary_pairOperands (row : List Node) :
    mapGroupsAll wrapUnary (pairOperands row) = pairOperands (mapGroupsAll wrapUnary row) := by
  cases row with
  | nil => rfl
  | cons first rest =>
      rw [mapGroupsAll_eq_map, mapGroupsAll_eq_map, List.map_cons]
      refine map_pairFrom (Node.isOperand_mapGroups _) (fun a b ha hb => ?_) rest first
      rw [Node.mapGroups, mapGroupsAll_eq_map, List.map_cons, List.map_cons, List.map_nil,
        wrapUnary_two (by simpa using ha) (by simpa using hb)]

theorem mapGroupsAll_foldTiers_wrapUnary (row : List Node) :
    mapGroupsAll foldTiers (wrapUnary (pairOperands row))
      = wrapUnary (pairOperands (mapGroupsAll foldTiers row)) := by
  have htwo : ∀ a b : Node, Node.mapGroups foldTiers (.group [a, b])
      = .group [a.mapGroups foldTiers, b.mapGroups foldTiers] := by
    intro a b
    simp only [Node.mapGroups, mapGroupsAll, foldTiers_two]
  rw [mapGroupsAll_eq_map, wrapUnary, wrapUnary,
    map_wrapFrom (Node.isOperatorIn_mapGroups _ _) (opensOperand_mapGroups _)
      (fun op x _ => htwo op x), mapGroupsAll_eq_map]
  congr 1
  cases row with
  | nil => rfl
  | cons first rest =>
      exact map_pairFrom (Node.isOperand_mapGroups _) (fun a b _ _ => htwo a b) rest first

/-- The passes through the whole tree are one pass that arranges every row. -/
theorem everywhere_normalized (nodes : List Node) :
    everywhere foldTiers (everywhere wrapUnary (everywhere pairOperands nodes))
      = everywhere arrange nodes := by
  rw [everywhere_everywhere mapGroupsAll_wrapUnary_pairOperands,
    everywhere_everywhere mapGroupsAll_foldTiers_wrapUnary]
  rfl

/-- The tree of a line is the group of its arranged nodes. -/
theorem buildTree_eq (tokens : List Token) :
    buildTree tokens
      = (resolve tokens).map fun row => .group (everywhere arrange (continueAnswer row)) := by
  rw [buildTree]
  congr 1
  funext row
  rw [foldTree, normalize, everywhere_normalized]

theorem exists_of_buildTree {tokens : List Token} {tree : Node} (h : buildTree tokens = .ok tree) :
    ∃ row, Nested tokens row ∧ tree = .group (everywhere arrange (continueAnswer row)) := by
  rw [buildTree_eq] at h
  cases hrow : resolve tokens with
  | error bracket =>
      rw [hrow] at h
      cases h
  | ok row =>
      rw [hrow] at h
      exact ⟨row, resolve_eq_ok_iff.mp hrow, (Except.ok.inj h).symm⟩

/-! ## Where rows end -/

def EndsInOperand (row : List Node) : Prop :=
  ∃ x, row.getLast? = some x ∧ x.isOperand = true

/-- The last node of the row, if there is one, is no unary operator that waits for its operand. -/
def NotDangling (row : List Node) : Prop :=
  ∀ x, row.getLast? = some x → x.isOperatorIn unaryOperators = false

theorem EndsInOperand.notDangling {row : List Node} (h : EndsInOperand row) : NotDangling row := by
  intro x hx
  obtain ⟨y, hy, hop⟩ := h
  obtain rfl := Option.some.inj (hx.symm.trans hy)
  exact Node.isOperatorIn_of_isOperand hop _

theorem notDangling_nil : NotDangling [] := fun _ h => by cases h

theorem endsInOperand_singleton {x : Node} (h : x.isOperand = true) : EndsInOperand [x] :=
  ⟨x, rfl, h⟩

theorem EndsInOperand.append {row : List Node} (before : List Node) (h : EndsInOperand row) :
    EndsInOperand (before ++ row) := by
  obtain ⟨x, hx, hop⟩ := h
  exact ⟨x, by rw [List.getLast?_append, hx, Option.some_or], hop⟩

theorem NotDangling.tail {x y : Node} {row : List Node} (h : NotDangling (x :: y :: row)) :
    NotDangling (y :: row) :=
  fun z hz => h z (by rwa [List.getLast?_cons_cons])

/-! ## Pairing, node by node -/

theorem pairFrom_ne_nil (row : List Node) : ∀ current, pairFrom current row ≠ [] := by
  induction row with
  | nil => intro current; exact List.cons_ne_nil _ _
  | cons next rest ih =>
      intro current
      rw [pairFrom]
      split
      · exact ih _
      · exact List.cons_ne_nil _ _

/-- What holds of groups and of the last node of a row holds of the last one when operands are
paired. -/
theorem getLast?_pairFrom {P : Node → Prop} (hgroup : ∀ children, P (.group children))
    (row : List Node) : ∀ current, (∀ x, (current :: row).getLast? = some x → P x) →
      ∀ x, (pairFrom current row).getLast? = some x → P x := by
  induction row with
  | nil => intro current h; exact h
  | cons next rest ih =>
      intro current h
      rw [pairFrom]
      split
      · refine ih _ fun x hx => ?_
        cases rest with
        | nil =>
            obtain rfl := Option.some.inj hx
            exact hgroup _
        | cons third rest =>
            rw [List.getLast?_cons_cons] at hx
            exact h x (by rwa [List.getLast?_cons_cons, List.getLast?_cons_cons])
      · intro x hx
        rw [List.getLast?_cons, Option.some_inj, Option.getD_eq_iff] at hx
        rcases hx with hx | ⟨hnone, -⟩
        · exact ih next (fun y hy => h y (by rwa [List.getLast?_cons_cons])) x hx
        · exact absurd (List.getLast?_eq_none_iff.mp hnone) (pairFrom_ne_nil rest next)

theorem EndsInOperand.pairOperands {row : List Node} (h : EndsInOperand row) :
    EndsInOperand (pairOperands row) := by
  obtain ⟨x, hx, hop⟩ := h
  cases row with
  | nil => cases hx
  | cons first rest =>
      obtain ⟨y, hy⟩ := Option.ne_none_iff_exists'.mp
        (mt List.getLast?_eq_none_iff.mp (pairFrom_ne_nil rest first))
      refine ⟨y, hy, getLast?_pairFrom (P := fun n => n.isOperand = true) (fun _ => rfl) rest first
        (fun z hz => ?_) y hy⟩
      obtain rfl := Option.some.inj (hx.symm.trans hz)
      exact hop

theorem NotDangling.pairOperands {row : List Node} (h : NotDangling row) :
    NotDangling (pairOperands row) := by
  cases row with
  | nil => exact h
  | cons first rest =>
      exact getLast?_pairFrom (P := fun n => n.isOperatorIn unaryOperators = false) (fun _ => rfl)
        rest first h

theorem pairFrom_of_not_operand {s : Node} (hs : s.isOperand = false) (row : List Node) :
    pairFrom s row = s :: pairOperands row := by
  cases row with
  | nil => rfl
  | cons next rest => rw [pairFrom, hs]; rfl

theorem pairFrom_append_cons {s : Node} (hs : s.isOperand = false) (b : List Node)
    (a : List Node) : ∀ current,
      pairFrom current (a ++ s :: b) = pairFrom current a ++ s :: pairOperands b := by
  induction a with
  | nil =>
      intro current
      rw [List.nil_append, pairFrom.eq_def]
      dsimp only
      rw [hs, Bool.and_false, if_neg Bool.false_ne_true, pairFrom_of_not_operand hs]
      rfl
  | cons next rest ih =>
      intro current
      rw [List.cons_append, pairFrom, pairFrom]
      split
      · exact ih _
      · rw [ih, List.cons_append]

theorem pairOperands_append_cons {s : Node} (hs : s.isOperand = false) (a b : List Node) :
    pairOperands (a ++ s :: b) = pairOperands a ++ s :: pairOperands b := by
  cases a with
  | nil => exact pairFrom_of_not_operand hs b
  | cons first rest => exact pairFrom_append_cons hs b rest first

/-- Operands that have become one are paired with what comes next. -/
theorem pairFrom_append_of_singleton {f : Node} {more : List Node} (row : List Node) :
    ∀ current, pairFrom current row = [f] → pairFrom current (row ++ more) = pairFrom f more := by
  induction row with
  | nil =>
      intro current h
      obtain rfl := List.head_eq_of_cons_eq h
      rfl
  | cons next rest ih =>
      intro current h
      rw [List.cons_append, pairFrom]
      rw [pairFrom] at h
      split at h
      · next hc => rw [if_pos hc]; exact ih _ h
      · exact absurd (List.tail_eq_of_cons_eq h) (pairFrom_ne_nil rest next)

/-! ## Wrapping, node by node -/

/-- All that wrapping asks of the node before is whether an operator behind it may be unary. -/
theorem wrapFrom_congr {p q : Option Node} (h : opensOperand p = opensOperand q)
    (row : List Node) : wrapFrom p row = wrapFrom q row := by
  cases row with
  | nil => rfl
  | cons node rest => rw [wrapFrom, wrapFrom, h]

theorem wrapFrom_ne_nil (previous : Option Node) (node : Node) (rest : List Node) :
    wrapFrom previous (node :: rest) ≠ [] := by
  rw [wrapFrom]
  split
  · cases wrapFrom (some node) rest with
    | nil => exact List.cons_ne_nil _ _
    | cons operand behind => exact List.cons_ne_nil _ _
  · exact List.cons_ne_nil _ _

theorem wrapFrom_of_kept {previous : Option Node} {node : Node}
    (h : (node.isOperatorIn unaryOperators && opensOperand previous) = false) (rest : List Node) :
    wrapFrom previous (node :: rest) = node :: wrapFrom (some node) rest := by
  rw [wrapFrom, h]
  rfl

/-- Wrapping does not reach across a node that stays in its place and behind which an operator may
be unary, unless an operator in front of it waits for an operand. -/
theorem wrapFrom_append_cons {s : Node} (hopens : opensOperand (some s) = true) (b : List Node)
    (a : List Node) : ∀ previous, NotDangling a →
      (s.isOperatorIn unaryOperators && opensOperand (a.getLast?.or previous)) = false →
      wrapFrom previous (a ++ s :: b) = wrapFrom previous a ++ s :: wrapUnary b := by
  induction a with
  | nil =>
      intro previous _ hkept
      rw [List.getLast?_nil, Option.none_or] at hkept
      rw [List.nil_append, wrapFrom_of_kept hkept, wrapFrom_congr (q := none) hopens]
      rfl
  | cons node rest ih =>
      intro previous hdangling hkept
      have hlast : ((node :: rest).getLast?).or previous = rest.getLast?.or (some node) := by
        cases rest with
        | nil => rfl
        | cons second rest => simp [List.getLast?_cons]
      rw [hlast] at hkept
      have hrest : NotDangling rest := by
        cases rest with
        | nil => exact notDangling_nil
        | cons second rest => exact hdangling.tail
      rw [List.cons_append, wrapFrom, wrapFrom, ih (some node) hrest hkept]
      split
      · next hwrap =>
          cases hw : wrapFrom (some node) rest with
          | nil =>
              cases rest with
              | nil =>
                  rw [Bool.and_eq_true, hdangling node rfl] at hwrap
                  exact absurd hwrap.1 Bool.false_ne_true
              | cons second rest => exact absurd hw (wrapFrom_ne_nil _ _ _)
          | cons operand behind => rfl
      · rfl

/-! ## Folding, node by node -/

theorem foldFrom_ne_nil (tier : List String) (row : List Node) :
    ∀ left, foldFrom tier left row ≠ [] := by
  intro left
  fun_induction foldFrom tier left row with
  | case1 left op right rest _ ih => exact ih
  | case2 | case3 | case4 => exact List.cons_ne_nil _ _

theorem foldFrom_of_not_operand {tier : List String} {s : Node} (hs : s.isOperand = false)
    (row : List Node) : foldFrom tier s row = s :: foldTier tier row := by
  match row with
  | [] => rfl
  | [_] => rfl
  | op :: right :: rest =>
      rw [foldFrom, hs, Bool.and_false, Bool.false_and]
      rfl

theorem foldFrom_cons_of_not_operand {tier : List String} {s : Node} (hs : s.isOperand = false)
    (htier : s.isOperatorIn tier = false) (left : Node) (row : List Node) :
    foldFrom tier left (s :: row) = left :: s :: foldTier tier row := by
  cases row with
  | nil => rfl
  | cons right rest =>
      rw [foldFrom, htier, Bool.false_and, Bool.false_and, if_neg Bool.false_ne_true,
        foldFrom_of_not_operand hs]

theorem foldFrom_append_cons {tier : List String} {s : Node} (hs : s.isOperand = false)
    (htier : s.isOperatorIn tier = false) (b a : List Node) : ∀ left,
      foldFrom tier left (a ++ s :: b) = foldFrom tier left a ++ s :: foldTier tier b := by
  intro left
  fun_induction foldFrom tier left a with
  | case1 left op right rest hfold ih =>
      rw [List.cons_append, List.cons_append, foldFrom, if_pos hfold, ih]
  | case2 left op right rest hfold ih =>
      rw [List.cons_append, List.cons_append, foldFrom, if_neg hfold, ← List.cons_append, ih]
      rfl
  | case3 left last =>
      rw [List.cons_append, List.nil_append, foldFrom, hs, Bool.and_false,
        if_neg Bool.false_ne_true, foldFrom_cons_of_not_operand hs htier]
      rfl
  | case4 left => exact foldFrom_cons_of_not_operand hs htier left b

theorem foldTier_append_cons {tier : List String} {s : Node} (hs : s.isOperand = false)
    (htier : s.isOperatorIn tier = false) (a b : List Node) :
    foldTier tier (a ++ s :: b) = foldTier tier a ++ s :: foldTier tier b := by
  cases a with
  | nil => exact foldFrom_of_not_operand hs b
  | cons first rest => exact foldFrom_append_cons hs htier b rest first

/-- A row that has become one node goes on as that node. -/
theorem foldFrom_append_of_singleton {tier : List String} {l : Node} {more : List Node}
    (row : List Node) : ∀ left, foldFrom tier left row = [l] →
      foldFrom tier left (row ++ more) = foldFrom tier l more := by
  intro left h
  fun_induction foldFrom tier left row with
  | case1 left op right rest hfold ih =>
      rw [List.cons_append, List.cons_append, foldFrom, if_pos hfold, ih h]
  | case2 left op right rest _ _ =>
      exact absurd (List.tail_eq_of_cons_eq h) (foldFrom_ne_nil tier (right :: rest) op)
  | case3 left last => cases h
  | case4 left =>
      obtain rfl := List.head_eq_of_cons_eq h
      rfl

theorem foldTier_append_operation {tier : List String} {row : List Node} {l op r : Node}
    (hrow : foldTier tier row = [l]) (hl : l.isOperand = true) (hop : op.isOperatorIn tier = true)
    (hr : r.isOperand = true) : foldTier tier (row ++ [op, r]) = [.group [l, op, r]] := by
  cases row with
  | nil => cases hrow
  | cons first rest =>
      rw [List.cons_append, foldTier, foldFrom_append_of_singleton rest first hrow, foldFrom, hl,
        hop, hr]
      rfl

def foldEach (tiers : List (List String)) (row : List Node) : List Node :=
  tiers.foldl (fun row tier => foldTier tier row) row

theorem foldEach_append_cons {tiers : List (List String)} {s : Node} (hs : s.isOperand = false)
    (htiers : ∀ tier ∈ tiers, s.isOperatorIn tier = false) :
    ∀ a b, foldEach tiers (a ++ s :: b) = foldEach tiers a ++ s :: foldEach tiers b := by
  induction tiers with
  | nil => intro a b; rfl
  | cons tier tiers ih =>
      intro a b
      have htier := htiers tier (List.mem_cons_self ..)
      simp only [foldEach, List.foldl_cons, foldTier_append_cons hs htier]
      exact ih (fun other h => htiers other (List.mem_cons_of_mem _ h)) _ _

/-! ## Both sides of a leaf -/

theorem isOperand_leaf_of_operator {op : Token} (h : op.kind = .operator) :
    (Node.leaf op).isOperand = false := by
  simp [Node.isOperand, h]

/-- Operands and unary operators on the two sides of a binary operator find each other apart. -/
theorem wrapUnary_pairOperands_append {left : List Node} {op : Token} (hl : EndsInOperand left)
    (hop : op.kind = .operator) (right : List Node) :
    wrapUnary (pairOperands (left ++ .leaf op :: right))
      = wrapUnary (pairOperands left) ++ .leaf op :: wrapUnary (pairOperands right) := by
  rw [pairOperands_append_cons (isOperand_leaf_of_operator hop)]
  refine wrapFrom_append_cons (by simp [opensOperand, hop]) _ _ none hl.pairOperands.notDangling ?_
  obtain ⟨x, hx, hoperand⟩ := hl.pairOperands
  rw [hx, Option.some_or, opensOperand_of_isOperand hoperand, Bool.and_false]

/-- Commas and semicolons. -/
def TokenKind.IsSeparator (kind : TokenKind) : Prop :=
  kind = .comma ∨ kind = .semicolon

/-- The sorts of leaves that stand between segments or, like the bracket of a list, in front of
them. -/
def TokenKind.Separates (kind : TokenKind) : Prop :=
  kind.IsSeparator ∨ kind = .leftBracket

/-- What stands before a separator and what stands behind it are arranged as if they stood alone,
unless a unary operator in front of the separator takes it for its operand. -/
theorem arrange_append_cons {a : List Node} {s : Token} (ha : NotDangling a)
    (hs : s.kind.Separates) (b : List Node) :
    arrange (a ++ .leaf s :: b) = arrange a ++ .leaf s :: arrange b := by
  have hoperand : (Node.leaf s).isOperand = false := by
    rcases hs with (h | h) | h <;> simp [Node.isOperand, h]
  have hoperator : ∀ texts, (Node.leaf s).isOperatorIn texts = false := by
    intro texts
    rcases hs with (h | h) | h <;> simp [Node.isOperatorIn, h]
  have hopens : opensOperand (some (.leaf s)) = true := by
    rcases hs with (h | h) | h <;> simp [opensOperand, h]
  have hwrap : wrapUnary (pairOperands a ++ .leaf s :: pairOperands b)
      = wrapUnary (pairOperands a) ++ .leaf s :: wrapUnary (pairOperands b) :=
    wrapFrom_append_cons hopens _ _ none ha.pairOperands (by rw [hoperator, Bool.false_and])
  rw [arrange, pairOperands_append_cons hoperand, hwrap]
  exact foldEach_append_cons hoperand (fun tier _ => hoperator tier) _ _

/-! ## The nodes of an arranged row -/

section Members

variable {P : Node → Prop}

/-- What holds of every node of a row, as a relation of the row with itself. -/
theorem forall₂_eq_and_iff {row : List Node} :
    List.Forall₂ (fun n m => n = m ∧ P n) row row ↔ ∀ n ∈ row, P n := by
  rw [List.forall₂_same]
  exact forall₂_congr fun n _ => and_iff_right rfl

theorem forall_mem_pairFrom
    (hpair : ∀ a b, a.isOperand = true → b.isOperand = true → P a → P b → P (.group [a, b]))
    {current : Node} {row : List Node} (h : ∀ n ∈ current :: row, P n) :
    ∀ n ∈ pairFrom current row, P n := by
  obtain ⟨hcurrent, hrow⟩ := List.forall_mem_cons.mp h
  refine forall₂_eq_and_iff.mp
    (forall₂_pairFrom ?_ ?_ ⟨rfl, hcurrent⟩ (forall₂_eq_and_iff.mpr hrow))
  · rintro n _ ⟨rfl, -⟩
    rfl
  · rintro a _ b _ ha hb ⟨rfl, hPa⟩ ⟨rfl, hPb⟩
    exact ⟨rfl, hpair a b ha hb hPa hPb⟩

theorem forall_mem_wrapFrom
    (hunary : ∀ op x, op.isOperatorIn unaryOperators = true → P op → P x → P (.group [op, x]))
    {previous : Option Node} {row : List Node} (h : ∀ n ∈ row, P n) :
    ∀ n ∈ wrapFrom previous row, P n := by
  refine forall₂_eq_and_iff.mp (forall₂_wrapFrom ?_ ?_ ?_ rfl (forall₂_eq_and_iff.mpr h))
  · rintro n _ ⟨rfl, -⟩
    rfl
  · rintro n _ ⟨rfl, -⟩
    rfl
  · rintro op _ x _ hop ⟨rfl, hPop⟩ ⟨rfl, hPx⟩
    exact ⟨rfl, hunary op x hop hPop hPx⟩

theorem forall_mem_foldFrom {tier : List String}
    (hjoin : ∀ l op r, l.isOperand = true → op.isOperatorIn tier = true → r.isOperand = true →
      P l → P op → P r → P (.group [l, op, r]))
    {left : Node} {row : List Node} (h : ∀ n ∈ left :: row, P n) :
    ∀ n ∈ foldFrom tier left row, P n := by
  obtain ⟨hleft, hrow⟩ := List.forall_mem_cons.mp h
  refine forall₂_eq_and_iff.mp
    (forall₂_foldFrom ?_ ?_ ?_ ⟨rfl, hleft⟩ (forall₂_eq_and_iff.mpr hrow))
  · rintro n _ ⟨rfl, -⟩
    rfl
  · rintro n _ ⟨rfl, -⟩
    rfl
  · rintro l _ op _ r _ hl hop hr ⟨rfl, hPl⟩ ⟨rfl, hPop⟩ ⟨rfl, hPr⟩
    exact ⟨rfl, hjoin l op r hl hop hr hPl hPop hPr⟩

theorem forall_mem_foldEach {tiers : List (List String)}
    (hjoin : ∀ tier ∈ tiers, ∀ l op r, l.isOperand = true → op.isOperatorIn tier = true →
      r.isOperand = true → P l → P op → P r → P (.group [l, op, r]))
    {row : List Node} (h : ∀ n ∈ row, P n) : ∀ n ∈ foldEach tiers row, P n := by
  induction tiers generalizing row with
  | nil => exact h
  | cons tier tiers ih =>
      obtain ⟨htier, htiers⟩ := List.forall_mem_cons.mp hjoin
      refine ih htiers ?_
      cases row with
      | nil => exact h
      | cons first rest => exact forall_mem_foldFrom htier h

/-- What holds of the nodes of a row and passes on to the groups that the passes make holds of the
nodes of the arranged row. -/
theorem forall_mem_arrange
    (hpair : ∀ a b, a.isOperand = true → b.isOperand = true → P a → P b → P (.group [a, b]))
    (hunary : ∀ op x, op.isOperatorIn unaryOperators = true → P op → P x → P (.group [op, x]))
    (hjoin : ∀ tier ∈ operatorTiers, ∀ l op r, l.isOperand = true → op.isOperatorIn tier = true →
      r.isOperand = true → P l → P op → P r → P (.group [l, op, r]))
    {row : List Node} (h : ∀ n ∈ row, P n) : ∀ n ∈ arrange row, P n := by
  refine forall_mem_foldEach hjoin (forall_mem_wrapFrom hunary ?_)
  cases row with
  | nil => exact h
  | cons first rest => exact forall_mem_pairFrom hpair h

end Members

end Reckoner
