import Reckoner.Proofs.Residue
import Reckoner.Proofs.SyntaxTree

/-!
# Arranged trees are in normal form

Arranging scans every row once for each tier, from left to right, and never looks back. This is
enough on every line, malformed ones included: what is left in the rows of a tree gives the passes
nothing more to do (`normalForm_of_buildTree`).

A group of a tree is a row that was written between brackets, or a group that one of the passes
made, and `Node.Normal` says what each of these looks like. In a row at rest (`AtRest`) no operation
is left unfolded and no unary operator unwrapped. Operands may stand side by side, but only where
wrapping has brought them together: then the first of them ends in a unary operator that was given
a leaf for its operand which is none (`Node.EndsBare`). A row at rest is no operation, so the
operations of a tree are those that folding made, and the tiers that were done by then bound the
operations among their operands (`Node.Graded`).
-/

namespace Reckoner

/-! ## Operations and their tiers -/

namespace Node

def JoinedBy (tier : Tier) (node : Node) : Prop :=
  ∃ l op r, node = .group [l, op, r] ∧ l.isOperand = true ∧ op.isOperatorIn tier.operators = true ∧
    r.isOperand = true

theorem isOperatorIn_tiers {node : Node} :
    node.isOperatorIn operatorTiers.flatten = true ↔
      ∃ tier : Tier, node.isOperatorIn tier.operators = true := by
  have htiers : operatorTiers
      = [Tier.power, Tier.product, Tier.sum, Tier.assignment].map Tier.operators := rfl
  constructor
  · intro h
    cases node with
    | group children => cases h
    | leaf t =>
      simp only [isOperatorIn, Bool.and_eq_true, List.contains_iff_mem] at h ⊢
      obtain ⟨texts, htexts, htext⟩ := List.mem_flatten.mp h.2
      rw [htiers] at htexts
      obtain ⟨tier, -, rfl⟩ := List.mem_map.mp htexts
      exact ⟨tier, h.1, htext⟩
  · rintro ⟨tier, h⟩
    refine isOperatorIn_flatten ?_ h
    rw [htiers]
    exact List.mem_map_of_mem (by cases tier <;> decide)

/-- An operator has one tier. -/
theorem tier_unique {op : Node} {tier tier' : Tier} (h : op.isOperatorIn tier.operators = true)
    (h' : op.isOperatorIn tier'.operators = true) : tier = tier' := by
  have hdisjoint : ∀ text ∈ tier.operators, text ∈ tier'.operators → tier = tier' := by
    cases tier <;> cases tier' <;> decide
  cases op with
  | group children => cases h
  | leaf t =>
    simp only [isOperatorIn, Bool.and_eq_true, List.contains_iff_mem] at h h'
    exact hdisjoint _ h.2 h'.2

theorem JoinedBy.of_group {tier : Tier} {l op r : Node}
    (h : (Node.group [l, op, r]).JoinedBy tier) :
    op.isOperatorIn tier.operators = true := by
  obtain ⟨l', op', r', heq, -, hop, -⟩ := h
  obtain ⟨rfl, rfl, rfl⟩ : l = l' ∧ op = op' ∧ r = r' := by simpa using heq
  exact hop

theorem not_joinedBy_two (tier : Tier) (a b : Node) : ¬(Node.group [a, b]).JoinedBy tier := by
  rintro ⟨l, op, r, heq, -⟩
  cases heq

/-- The node is no unary operator with something behind it and no operation: a leaf, a row that was
written between brackets, or one of these applied to another. -/
structure IsAtomic (node : Node) : Prop where
  not_prefixed : ∀ op x, node = .group [op, x] → op.isOperatorIn unaryOperators = false
  not_joined : ∀ tier, ¬node.JoinedBy tier

theorem isAtomic_leaf (t : Token) : (Node.leaf t).IsAtomic where
  not_prefixed op x heq := by cases heq
  not_joined tier := by
    rintro ⟨l, op, r, heq, -⟩
    cases heq

theorem isAtomic_pair {f : Node} (hf : f.isOperand = true) (x : Node) :
    (Node.group [f, x]).IsAtomic where
  not_prefixed op x' heq := by
    obtain ⟨rfl, -⟩ : f = op ∧ x = x' := by simpa using heq
    exact isOperatorIn_of_isOperand hf _
  not_joined tier := not_joinedBy_two tier f x

/-! ## Operands side by side -/

/-- The last node of the node, or the last one of that, and so on through unary operators and
binary operations, is a unary operator with a leaf behind it that is no operand. -/
inductive EndsBare : Node → Prop
  | prefixed {op x : Node} : op.isOperatorIn unaryOperators = true → x.isOperand = false →
      EndsBare (.group [op, x])
  | ofPrefixed {op x : Node} : op.isOperatorIn unaryOperators = true → EndsBare x →
      EndsBare (.group [op, x])
  | ofJoined {l op r : Node} : l.isOperand = true → op.isOperatorIn operatorTiers.flatten = true →
      r.isOperand = true → EndsBare r → EndsBare (.group [l, op, r])

end Node

/-- In a row behind `previous` an operand has another one behind it only if it ends bare. -/
def Apart : Option Node → List Node → Prop
  | _, [] => True
  | previous, node :: rest =>
    (∀ p, previous = some p → p.isOperand = true → node.isOperand = true → p.EndsBare)
      ∧ Apart (some node) rest

/-- A node takes the place of its last part. -/
theorem Apart.of_previous {p q : Node} {row : List Node} (h : Apart (some p) row)
    (hq : (p.isOperand = true → p.EndsBare) → q.EndsBare) : Apart (some q) row := by
  cases row with
  | nil => trivial
  | cons node rest =>
    refine ⟨fun p' hp' _ hnode => ?_, h.2⟩
    obtain rfl := Option.some.inj hp'
    exact hq fun hp => h.1 p rfl hp hnode

theorem apart_wrapFrom {previous : Option Node} {row : List Node} (h : Unpaired previous row) :
    Apart previous (wrapFrom previous row) := by
  fun_induction wrapFrom previous row with
  | case1 previous => trivial
  | case2 previous node rest wrapped hwrap operand behind heq ih =>
      rw [Bool.and_eq_true] at hwrap
      have hbehind : Apart (some node) (operand :: behind) := heq ▸ ih h.2
      refine ⟨fun p hp hoperand => ?_, hbehind.2.of_previous fun hends => ?_⟩
      · rw [hp, opensOperand_of_isOperand hoperand] at hwrap
        cases hwrap.2
      · cases hoperand : operand.isOperand with
        | true => exact .ofPrefixed hwrap.1 (hends hoperand)
        | false => exact .prefixed hwrap.1 hoperand
  | case3 previous node rest wrapped hwrap heq ih =>
      exact ⟨fun p hp hoperand hnode => absurd (h.1 p hp hoperand) (by simp [hnode]), trivial⟩
  | case4 previous node rest wrapped hwrap ih =>
      exact ⟨fun p hp hoperand hnode => absurd (h.1 p hp hoperand) (by simp [hnode]), ih h.2⟩

theorem apart_foldFrom {tier : List String} (htier : tier ∈ operatorTiers) {previous : Option Node}
    {left : Node} {row : List Node} (h : Apart previous (left :: row)) :
    Apart previous (foldFrom tier left row) := by
  fun_induction foldFrom tier left row generalizing previous with
  | case1 left op right rest hfold ih =>
      obtain ⟨hleft, -, -, hrest⟩ := h
      simp only [Bool.and_eq_true] at hfold
      obtain ⟨⟨hop, hl⟩, hr⟩ := hfold
      have hjoined : right.EndsBare → (Node.group [left, op, right]).EndsBare :=
        .ofJoined hl (Node.isOperatorIn_flatten htier hop) hr
      exact ih ⟨fun p hp hoperand _ => hleft p hp hoperand hl,
        hrest.of_previous fun hends => hjoined (hends hr)⟩
  | case2 left op right rest _ ih => exact ⟨h.1, ih h.2⟩
  | case3 left last | case4 left => exact h

theorem apart_foldEach {tiers : List (List String)} (htiers : ∀ tier ∈ tiers, tier ∈ operatorTiers)
    {row : List Node} (h : Apart none row) : Apart none (foldEach tiers row) := by
  induction tiers generalizing row with
  | nil => exact h
  | cons tier tiers ih =>
      obtain ⟨htier, htiers⟩ := List.forall_mem_cons.mp htiers
      refine ih htiers ?_
      cases row with
      | nil => trivial
      | cons first rest => exact apart_foldFrom htier h

theorem apart_arrange (row : List Node) : Apart none (arrange row) :=
  apart_foldEach (fun _ => id) (apart_wrapFrom (unpaired_pairOperands row))

theorem Apart.endsBare {previous : Option Node} {before behind : List Node} {l r : Node}
    (h : Apart previous (before ++ l :: r :: behind)) (hl : l.isOperand = true)
    (hr : r.isOperand = true) : l.EndsBare := by
  induction before generalizing previous with
  | nil => exact h.2.1 l rfl hl hr
  | cons x before ih => exact ih h.2

/-! ## Rows at rest -/

/-- No pass has anything to do in the row: no operator of a tier stands between operands, no unary
operator that could be applied has a node behind it, and an operand has another one behind it only
if it ends bare. -/
structure AtRest (row : List Node) : Prop where
  joined : ∀ before l op r behind, row = before ++ l :: op :: r :: behind → l.isOperand = true →
    r.isOperand = true → op.isOperatorIn operatorTiers.flatten = false
  wrapped : ∀ before op next behind, row = before ++ op :: next :: behind →
    op.isOperatorIn unaryOperators = true → opensOperand before.getLast? = false
  apart : ∀ before l r behind, row = before ++ l :: r :: behind → l.isOperand = true →
    r.isOperand = true → l.EndsBare

theorem Settled.stands {folded : List String} {previous : Option Node} {before behind : List Node}
    {node : Node} (h : Settled folded previous (before ++ node :: behind)) :
    node.Stands folded (before.getLast?.or previous) behind.head? := by
  induction before generalizing previous with
  | nil => exact h.1
  | cons x before ih =>
    have hlast : (x :: before).getLast?.or previous = before.getLast?.or (some x) := by
      cases before with
      | nil => rfl
      | cons y before => simp [List.getLast?_cons]
    rw [hlast]
    exact ih h.2

theorem atRest_arrange (row : List Node) : AtRest (arrange row) where
  joined before l op r behind heq hl hr := by
    have hsettled := settled_arrange row
    rw [heq, List.append_cons] at hsettled
    exact hsettled.stands.joined l r (by simp) rfl hl hr
  wrapped before op next behind heq hop := by
    have hsettled := settled_arrange row
    rw [heq] at hsettled
    have hbound := hsettled.stands.bound hop
    rw [Option.or_none] at hbound
    exact Bool.eq_false_iff.mpr fun hopens => by cases hbound hopens
  apart before l r behind heq hl hr := by
    have hapart := apart_arrange row
    rw [heq] at hapart
    exact hapart.endsBare hl hr

theorem AtRest.isAtomic {row : List Node} (h : AtRest row) : (Node.group row).IsAtomic where
  not_prefixed op x heq := by
    cases hop : op.isOperatorIn unaryOperators with
    | false => rfl
    | true => cases h.wrapped [] op x [] (Node.group.inj heq) hop
  not_joined tier := by
    rintro ⟨l, op, r, heq, hl, hop, hr⟩
    have hfolded := h.joined [] l op r [] (Node.group.inj heq) hl hr
    rw [Node.isOperatorIn_tiers.mpr ⟨tier, hop⟩] at hfolded
    cases hfolded

/-! ## Normal trees -/

namespace Node

/-- The operations that an operation of the tier may have for its operands: on the left they bind
as tightly or more so, on the right they bind more tightly. -/
structure Binds (tier : Tier) (l r : Node) : Prop where
  left : ∀ inner, l.JoinedBy inner → inner = tier ∨ inner ∈ tier.tighter
  right : ∀ inner, r.JoinedBy inner → inner ∈ tier.tighter

/-- Every group is a row at rest, or an atomic operand applied to another, or a unary operator with
what stands behind it, or a binary operation. -/
inductive Normal : Node → Prop
  | leaf (t : Token) : Normal (.leaf t)
  | row {row : List Node} : AtRest row → (∀ n ∈ row, Normal n) → Normal (.group row)
  | pair {f x : Node} : f.isOperand = true → x.isOperand = true → IsAtomic f → IsAtomic x →
      Normal f → Normal x → Normal (.group [f, x])
  | prefixed {op x : Node} : op.isOperatorIn unaryOperators = true → Normal op → Normal x →
      Normal (.group [op, x])
  | joined {tier : Tier} {l op r : Node} : l.isOperand = true →
      op.isOperatorIn tier.operators = true → r.isOperand = true → Binds tier l r →
      Normal l → Normal op → Normal r → Normal (.group [l, op, r])

theorem Normal.of_mem {row : List Node} (h : (Node.group row).Normal) : ∀ n ∈ row, n.Normal := by
  cases h with
  | row _ hnodes => exact hnodes
  | pair _ _ _ _ hf hx => exact List.forall_mem_cons.mpr ⟨hf, List.forall_mem_singleton.mpr hx⟩
  | prefixed _ hop hx => exact List.forall_mem_cons.mpr ⟨hop, List.forall_mem_singleton.mpr hx⟩
  | joined _ _ _ _ hl hop hr =>
    exact List.forall_mem_cons.mpr
      ⟨hl, List.forall_mem_cons.mpr ⟨hop, List.forall_mem_singleton.mpr hr⟩⟩

/-- A normal tree that is an operation of one of some tiers, or none at all. -/
structure Graded (tiers : List Tier) (node : Node) : Prop where
  normal : node.Normal
  tier_mem : ∀ tier, node.JoinedBy tier → tier ∈ tiers

theorem Graded.mono {tiers more : List Tier} {node : Node} (h : node.Graded tiers)
    (hle : ∀ tier ∈ tiers, tier ∈ more) : node.Graded more :=
  ⟨h.normal, fun tier htier => hle tier (h.tier_mem tier htier)⟩

end Node

section Passes

variable {row : List Node}

theorem atomic_pairOperands (h : ∀ n ∈ row, n.Normal ∧ n.IsAtomic) :
    ∀ n ∈ pairOperands row, n.Normal ∧ n.IsAtomic := by
  cases row with
  | nil => exact h
  | cons first rest =>
      refine forall_mem_pairFrom (fun f x hf hx hPf hPx => ⟨?_, Node.isAtomic_pair hf x⟩) h
      exact .pair hf hx hPf.2 hPx.2 hPf.1 hPx.1

theorem graded_wrapUnary (h : ∀ n ∈ row, n.Normal ∧ n.IsAtomic) :
    ∀ n ∈ wrapUnary (pairOperands row), n.Graded [] := by
  refine forall_mem_wrapFrom (fun op x hop hPop hPx => ?_) fun n hn => ?_
  · exact ⟨.prefixed hop hPop.normal hPx.normal,
      fun tier htier => absurd htier (Node.not_joinedBy_two tier op x)⟩
  · obtain ⟨hnormal, hatomic⟩ := atomic_pairOperands h n hn
    exact ⟨hnormal, fun tier htier => absurd htier (hatomic.not_joined tier)⟩

/-- What is still in front of the scan has not been folded by this tier, so a right operand binds
more tightly. -/
theorem graded_foldFrom {tier : Tier} {left : Node} (hleft : left.Graded (tier :: tier.tighter))
    (hrow : ∀ n ∈ row, n.Graded tier.tighter) :
    ∀ n ∈ foldFrom tier.operators left row, n.Graded (tier :: tier.tighter) := by
  have hmore : ∀ {node : Node}, node.Graded tier.tighter → node.Graded (tier :: tier.tighter) :=
    fun h => h.mono fun _ => List.mem_cons_of_mem _
  fun_induction foldFrom tier.operators left row with
  | case1 left op right rest hfold ih =>
      simp only [List.forall_mem_cons] at hrow
      obtain ⟨hop, hright, hrest⟩ := hrow
      simp only [Bool.and_eq_true] at hfold
      have hbinds : Node.Binds tier left right :=
        ⟨fun inner hinner => List.mem_cons.mp (hleft.tier_mem inner hinner), hright.tier_mem⟩
      refine ih ⟨.joined hfold.1.2 hfold.1.1 hfold.2 hbinds hleft.normal hop.normal hright.normal,
        fun inner hinner => ?_⟩ hrest
      rw [Node.tier_unique hinner.of_group hfold.1.1]
      exact List.mem_cons_self
  | case2 left op right rest _ ih =>
      obtain ⟨hop, hrest⟩ := List.forall_mem_cons.mp hrow
      exact List.forall_mem_cons.mpr ⟨hleft, ih (hmore hop) hrest⟩
  | case3 left last =>
      exact List.forall_mem_cons.mpr ⟨hleft, fun n hn => hmore (hrow n hn)⟩
  | case4 left => exact List.forall_mem_singleton.mpr hleft

theorem graded_foldTier {tier : Tier} (hrow : ∀ n ∈ row, n.Graded tier.tighter) :
    ∀ n ∈ foldTier tier.operators row, n.Graded (tier :: tier.tighter) := by
  cases row with
  | nil => exact List.forall_mem_nil _
  | cons first rest =>
      obtain ⟨hfirst, hrest⟩ := List.forall_mem_cons.mp hrow
      exact graded_foldFrom (hfirst.mono fun _ => List.mem_cons_of_mem _) hrest

theorem normal_of_mem_arrange (h : ∀ n ∈ row, n.Normal ∧ n.IsAtomic) :
    ∀ n ∈ arrange row, n.Normal := by
  have hpower := @graded_foldTier _ .power (graded_wrapUnary h)
  have hproduct := @graded_foldTier _ .product hpower
  have hsum := @graded_foldTier _ .sum fun n hn => (hproduct n hn).mono (by decide)
  have hassignment := @graded_foldTier _ .assignment fun n hn => (hsum n hn).mono (by decide)
  exact fun n hn => (hassignment n hn).normal

theorem normal_group_arrange (h : ∀ n ∈ row, n.Normal ∧ n.IsAtomic) :
    (Node.group (arrange row)).Normal ∧ (Node.group (arrange row)).IsAtomic :=
  have hrest := atRest_arrange row
  ⟨.row hrest (normal_of_mem_arrange h), hrest.isAtomic⟩

mutual

theorem normal_mapGroups : ∀ node : Node,
    (node.mapGroups arrange).Normal ∧ (node.mapGroups arrange).IsAtomic
  | .leaf t => ⟨.leaf t, Node.isAtomic_leaf t⟩
  | .group children => normal_group_arrange (normal_mapGroupsAll children)

theorem normal_mapGroupsAll : ∀ nodes : List Node,
    ∀ n ∈ mapGroupsAll arrange nodes, n.Normal ∧ n.IsAtomic
  | [] => List.forall_mem_nil _
  | node :: rest =>
    List.forall_mem_cons.mpr ⟨normal_mapGroups node, normal_mapGroupsAll rest⟩

end

theorem normal_of_buildTree {tokens : List Token} {tree : Node} (h : buildTree tokens = .ok tree) :
    tree.Normal := by
  obtain ⟨row, -, rfl⟩ := exists_of_buildTree h
  exact (normal_group_arrange (normal_mapGroupsAll _)).1

end Passes

/-! ## Every group of a normal tree -/

/-- What can be said of the children of any group, however it came about. -/
structure InNormalForm (row : List Node) : Prop where
  /-- Operands with an operator of some tier between them have no other siblings. -/
  joined : ∀ before l op r behind, row = before ++ l :: op :: r :: behind → l.isOperand = true →
    op.isOperatorIn operatorTiers.flatten = true → r.isOperand = true → before = [] ∧ behind = []
  /-- On the left of an operator stand operations that bind as tightly or more so, on the right
  such as bind more tightly. -/
  binds : ∀ l op r tier, row = [l, op, r] → l.isOperand = true →
    op.isOperatorIn tier.operators = true → r.isOperand = true → Node.Binds tier l r
  /-- A unary operator that could be applied to the node behind it is alone with this node. -/
  wrapped : ∀ before op next behind, row = before ++ op :: next :: behind →
    op.isOperatorIn unaryOperators = true → opensOperand before.getLast? = true →
    before = [] ∧ behind = []
  /-- Of two operands side by side the first one ends bare, or it is applied to the other one. -/
  apart : ∀ before l r behind, row = before ++ l :: r :: behind → l.isOperand = true →
    r.isOperand = true → l.EndsBare ∨ before = [] ∧ behind = [] ∧ l.IsAtomic ∧ r.IsAtomic

/-- In a row that is no longer, a stretch has nothing around it. -/
theorem alone_of_length_le {row before stretch behind : List Node}
    (h : row = before ++ (stretch ++ behind)) (hlen : row.length ≤ stretch.length) :
    before = [] ∧ behind = [] := by
  have hlengths := congrArg List.length h
  simp only [List.length_append] at hlengths
  exact ⟨List.eq_nil_of_length_eq_zero (by omega), List.eq_nil_of_length_eq_zero (by omega)⟩

theorem neighbours_of_three {a b c l r : Node} {before behind : List Node}
    (h : [a, b, c] = before ++ l :: r :: behind) :
    before = [] ∧ l = a ∧ r = b ∨ before = [a] ∧ l = b ∧ r = c := by
  match before with
  | [] => exact .inl (by simp_all)
  | [x] => exact .inr (by simp_all)
  | x :: y :: before =>
    have hlength := congrArg List.length h
    simp only [List.length_append, List.length_cons, List.length_nil] at hlength
    omega

theorem AtRest.inNormalForm {row : List Node} (h : AtRest row) : InNormalForm row where
  joined before l op r behind heq hl hop hr := by
    rw [h.joined before l op r behind heq hl hr] at hop
    cases hop
  binds l op r tier heq hl hop hr :=
    absurd ⟨l, op, r, congrArg Node.group heq, hl, hop, hr⟩ (h.isAtomic.not_joined tier)
  wrapped before op next behind heq hop hopens := by
    rw [h.wrapped before op next behind heq hop] at hopens
    cases hopens
  apart before l r behind heq hl hr := .inl (h.apart before l r behind heq hl hr)

theorem inNormalForm_two {a b : Node}
    (h : a.isOperand = true → b.isOperand = true → a.IsAtomic ∧ b.IsAtomic) :
    InNormalForm [a, b] where
  joined before l op r behind heq _ _ _ :=
    @alone_of_length_le _ before [l, op, r] behind heq (Nat.le_succ 2)
  binds l op r tier heq _ _ _ := by cases heq
  wrapped before op next behind heq _ _ :=
    @alone_of_length_le _ before [op, next] behind heq le_rfl
  apart before l r behind heq hl hr := by
    obtain ⟨rfl, rfl⟩ := @alone_of_length_le _ before [l, r] behind heq le_rfl
    obtain ⟨rfl, rfl⟩ : a = l ∧ b = r := by simpa using heq
    exact .inr ⟨rfl, rfl, h hl hr⟩

theorem inNormalForm_joined {tier : Tier} {a b c : Node} (ha : a.isOperand = true)
    (hb : b.isOperatorIn tier.operators = true) (hbinds : Node.Binds tier a c) :
    InNormalForm [a, b, c] where
  joined before l op r behind heq _ _ _ :=
    @alone_of_length_le _ before [l, op, r] behind heq le_rfl
  binds l op r tier' heq _ hop _ := by
    obtain ⟨rfl, rfl, rfl⟩ : a = l ∧ b = op ∧ c = r := by simpa using heq
    exact Node.tier_unique hb hop ▸ hbinds
  wrapped before op next behind heq hop hopens := by
    -- the first node is no operator, and behind it no operator is unary
    rcases neighbours_of_three heq with ⟨-, rfl, -⟩ | ⟨rfl, -, -⟩
    · rw [Node.isOperatorIn_of_isOperand ha] at hop
      cases hop
    · rw [List.getLast?_singleton, opensOperand_of_isOperand ha] at hopens
      cases hopens
  apart before l r behind heq hl hr := by
    have hoperator := Node.isOperand_of_isOperatorIn hb
    rcases neighbours_of_three heq with ⟨-, -, rfl⟩ | ⟨-, rfl, -⟩
    · rw [hoperator] at hr
      cases hr
    · rw [hoperator] at hl
      cases hl

theorem Node.Normal.inNormalForm {row : List Node} (h : (Node.group row).Normal) :
    InNormalForm row := by
  cases h with
  | row hrest _ => exact hrest.inNormalForm
  | pair _ _ hf hx => exact inNormalForm_two fun _ _ => ⟨hf, hx⟩
  | prefixed hop =>
    refine inNormalForm_two fun hoperand => ?_
    rw [isOperand_of_isOperatorIn hop] at hoperand
    cases hoperand
  | joined ha hb _ hbinds => exact inNormalForm_joined ha hb hbinds

/-- **Arranging comes to a normal form.** In every group of the tree of a line, whatever its tokens
are: operands with an operator between them have no siblings, and the operations that they are bind
no less tightly on the left and more tightly on the right; a unary operator that could be applied to
the node behind it is alone with this node; and of operands side by side the first is applied to the
second, with no siblings either, or it ends in a unary operator in front of what is no operand. -/
theorem normalForm_of_buildTree {tokens : List Token} {tree : Node}
    (h : buildTree tokens = .ok tree) {row : List Node}
    (hrow : Relation.ReflTransGen (fun node part => part ∈ node.children) tree (.group row)) :
    InNormalForm row := by
  suffices hnormal : (Node.group row).Normal from hnormal.inNormalForm
  generalize Node.group row = node at hrow
  induction hrow with
  | refl => exact normal_of_buildTree h
  | @tail node part _ hpart ih =>
    cases node with
    | leaf t => cases hpart
    | group children => exact ih.of_mem part hpart

/-- In the line `3 - - + x * 2 f` the second `-` takes `+` for its operand, so the difference that
it ends stands in front of another operand. -/
theorem normalForm_of_bare_difference :
    let op := fun (text : String) (start : Int) =>
      (⟨.operator, text, start, start + 1⟩ : Token)
    let tokens : List Token := [⟨.number, "3", 0, 1⟩, op "-" 2, op "-" 4, op "+" 6,
      ⟨.name, "x", 8, 9⟩, op "*" 10, ⟨.number, "2", 12, 13⟩, ⟨.name, "f", 14, 15⟩]
    let difference := Node.group [.leaf ⟨.number, "3", 0, 1⟩, .leaf (op "-" 2),
      .group [.leaf (op "-" 4), .leaf (op "+" 6)]]
    let product := Node.group [.leaf ⟨.name, "x", 8, 9⟩, .leaf (op "*" 10),
      .group [.leaf ⟨.number, "2", 12, 13⟩, .leaf ⟨.name, "f", 14, 15⟩]]
    buildTree tokens = .ok (.group [difference, product]) ∧
      InNormalForm [difference, product] ∧ difference.EndsBare := by
  intro op tokens difference product
  have hbuild : buildTree tokens = .ok (.group [difference, product]) := rfl
  have hnormal := normalForm_of_buildTree hbuild .refl
  have hdifference : difference.JoinedBy .sum := ⟨_, _, _, rfl, rfl, rfl, rfl⟩
  refine ⟨hbuild, hnormal, (hnormal.apart [] difference product [] rfl rfl rfl).resolve_right ?_⟩
  rintro ⟨-, -, hatomic, -⟩
  exact hatomic.not_joined .sum hdifference

end Reckoner
