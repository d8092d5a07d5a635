import Reckoner.Proofs.Failures
import Reckoner.Proofs.Residue
import Reckoner.Proofs.SyntaxTree

/-!
# Only expressions evaluate

The builder accepts every line whose brackets match, and leaves the rest to evaluation. This is
enough: a line without definitions whose tree comes to a value is empty or an expression of the
grammar in which only the argument of a name may be a list.

The proof goes through the passes with the tokens at hand. In every row a node stands for a stretch
of the tokens (`Covers`), and a node that has a value spells a phrase there (`Spells`), of the sort
that the passes so far have made of it. In the end a row with a value is empty or a single node,
because anything else that is left over in a settled row has no value (`derives_of_row`).
-/

namespace Reckoner

/-- A node with a value is a phrase of the tokens, and a leaf is a token of its own, which is no
opening bracket. -/
structure Spells (phrase : Phrase) (tokens : List Token) (node : Node) : Prop where
  derives : node.Evaluable → Derives .asArguments phrase tokens [node]
  leaf : ∀ t, node = .leaf t → tokens = [t] ∧ t.kind.closer? = none

/-- What `Spells` says of a node from which operands have not been paired yet. If its arguments
have values it may be a list behind a name. -/
structure SpellsPrimary (tokens : List Token) (node : Node) : Prop
    extends Spells (.primary none) tokens node where
  argument : ∀ callee : Node, callee.isLeafOf .name = true →
    (∀ arg ∈ node.arguments, arg.Evaluable) →
      Derives .asArguments (.primary (some callee)) tokens [node]

/-- The tokens fall into stretches, one for every node of the row. -/
inductive Covers (P : List Token → Node → Prop) : List Token → List Node → Prop
  | nil : Covers P [] []
  | cons {xs x ts row} : P xs x → Covers P ts row → Covers P (xs ++ ts) (x :: row)

theorem Covers.split {P : List Token → Node → Prop} {tokens : List Token} {left right : List Node}
    (h : Covers P tokens (left ++ right)) :
    ∃ us vs, tokens = us ++ vs ∧ Covers P us left ∧ Covers P vs right := by
  induction left generalizing tokens with
  | nil => exact ⟨[], tokens, rfl, .nil, h⟩
  | cons x left ih =>
      cases h with
      | @cons xs _ ts _ hx hrow =>
          obtain ⟨us, vs, rfl, hleft, hright⟩ := ih hrow
          exact ⟨xs ++ us, vs, (List.append_assoc ..).symm, .cons hx hleft, hright⟩

/-! ## The passes -/

/-- An operator leaf is its own token. -/
theorem Spells.eq_of_operator {phrase : Phrase} {tokens : List Token} {op : Node}
    {texts : List String} (h : Spells phrase tokens op) (hop : op.isOperatorIn texts = true) :
    ∃ o, op = .leaf o ∧ tokens = [o] ∧ o.kind = .operator ∧ o.text ∈ texts := by
  cases op with
  | leaf o =>
      rw [Node.isOperatorIn, Bool.and_eq_true, beq_iff_eq, List.contains_iff_mem] at hop
      exact ⟨o, rfl, (h.leaf o rfl).1, hop⟩
  | group children => cases hop

theorem Spells.group {phrase : Phrase} {tokens : List Token} {children : List Node}
    (h : (Node.group children).Evaluable →
      Derives .asArguments phrase tokens [.group children]) :
    Spells phrase tokens (.group children) where
  derives := h
  leaf _ heq := by cases heq

theorem Spells.weaken {phrase phrase' : Phrase} {tokens : List Token} {node : Node}
    (h : Spells phrase tokens node)
    (hle : ∀ ts t, Derives .asArguments phrase ts [t] → Derives .asArguments phrase' ts [t]) :
    Spells phrase' tokens node :=
  ⟨fun hvalue => hle _ _ (h.derives hvalue), h.leaf⟩

theorem Covers.pairFrom {xs ts : List Token} {current : Node} {row : List Node}
    (hcurrent : Spells .application xs current) (hrow : Covers SpellsPrimary ts row) :
    Covers (Spells .application) (xs ++ ts) (pairFrom current row) := by
  fun_induction Reckoner.pairFrom current row generalizing xs ts with
  | case1 current =>
      cases hrow
      exact .cons hcurrent .nil
  | case2 current next rest hboth ih =>
      cases hrow with
      | @cons ys _ ts' _ hnext hrest =>
          rw [← List.append_assoc]
          refine ih (.group fun hvalue => ?_) hrest
          rw [Bool.and_eq_true] at hboth
          obtain ⟨t, hcallee, hk, hargs⟩ := hvalue.of_paired hboth.1
          subst hcallee
          exact .applied (hcurrent.derives (.name hk))
            (hnext.argument (.leaf t) (by simp [Node.isLeafOf, hk]) hargs)
  | case3 current next rest hboth ih =>
      cases hrow with
      | cons hnext hrest =>
          exact .cons hcurrent (ih (hnext.toSpells.weaken fun _ _ => .alone) hrest)

theorem Covers.pairOperands {tokens : List Token} {row : List Node}
    (h : Covers SpellsPrimary tokens row) :
    Covers (Spells .application) tokens (pairOperands row) := by
  cases h with
  | nil => exact .nil
  | cons hx hrow => exact .pairFrom (hx.toSpells.weaken fun _ _ => .alone) hrow

theorem Covers.wrapFrom {tokens : List Token} {previous : Option Node} {row : List Node}
    (h : Covers (Spells .application) tokens row) :
    Covers (Spells .unary) tokens (wrapFrom previous row) := by
  induction row generalizing tokens previous with
  | nil =>
      cases h
      exact .nil
  | cons node rest ih =>
      cases h with
      | cons hnode hrest =>
          have hwrapped := @ih _ (some node) hrest
          rw [Reckoner.wrapFrom]
          split
          · next hwrap =>
              rw [Bool.and_eq_true] at hwrap
              obtain ⟨o, rfl, rfl, hk, htext⟩ := hnode.eq_of_operator hwrap.1
              split
              · next operand behind heq =>
                  rw [heq] at hwrapped
                  cases hwrapped with
                  | cons hoperand hbehind =>
                      rw [← List.append_assoc]
                      refine .cons (.group fun hvalue => ?_) hbehind
                      exact .prefixed hk htext (hoperand.derives (hvalue.of_prefixed hwrap.1))
              · next heq =>
                  rw [heq] at hwrapped
                  exact .cons (hnode.weaken fun _ _ => .plain) hwrapped
          · exact .cons (hnode.weaken fun _ _ => .plain) hwrapped

theorem Covers.foldFrom {tier : Tier} {xs ts : List Token} {left : Node} {row : List Node}
    (hleft : Spells (.chain tier) xs left) (hrow : Covers (Spells tier.part) ts row) :
    Covers (Spells (.chain tier)) (xs ++ ts) (foldFrom tier.operators left row) := by
  fun_induction Reckoner.foldFrom tier.operators left row generalizing xs ts with
  | case1 left op right rest hfold ih =>
      rw [Bool.and_eq_true, Bool.and_eq_true] at hfold
      cases hrow with
      | cons hop hrow =>
          obtain ⟨o, rfl, rfl, hk, htext⟩ := hop.eq_of_operator hfold.1.1
          cases hrow with
          | @cons rs _ ts' _ hright hrest =>
              have hassoc : xs ++ ([o] ++ (rs ++ ts')) = (xs ++ o :: rs) ++ ts' := by simp
              rw [hassoc]
              refine ih (.group fun hvalue => ?_) hrest
              obtain ⟨hl, hr⟩ := hvalue.of_joined hfold.1.2
              exact .joined (hleft.derives hl) hk htext (hright.derives hr)
  | case2 left op right rest hfold ih =>
      cases hrow with
      | cons hop hrest => exact .cons hleft (ih (hop.weaken fun _ _ => .single) hrest)
  | case3 left last =>
      cases hrow with
      | cons hlast hnil =>
          cases hnil
          exact .cons hleft (.cons (hlast.weaken fun _ _ => .single) .nil)
  | case4 left =>
      cases hrow
      exact .cons hleft .nil

theorem Covers.foldTier {tier : Tier} {tokens : List Token} {row : List Node}
    (h : Covers (Spells tier.part) tokens row) :
    Covers (Spells (.chain tier)) tokens (foldTier tier.operators row) := by
  cases h with
  | nil => exact .nil
  | cons hx hrow => exact .foldFrom (hx.weaken fun _ _ => .single) hrow

theorem Covers.arrange {tokens : List Token} {row : List Node}
    (h : Covers SpellsPrimary tokens row) :
    Covers (Spells .expression) tokens (arrange row) := by
  have hunary : Covers (Spells Tier.power.part) tokens (wrapUnary (Reckoner.pairOperands row)) :=
    h.pairOperands.wrapFrom
  have hpower : Covers (Spells Tier.product.part) tokens _ := hunary.foldTier
  have hproduct : Covers (Spells Tier.sum.part) tokens _ := hpower.foldTier
  have hsum : Covers (Spells Tier.assignment.part) tokens _ := hproduct.foldTier
  exact hsum.foldTier

/-! ## Rows with a value -/

section Rows

variable {folded : List String} {previous : Option Node}

theorem Settled.left {left right : List Node} (h : Settled folded previous (left ++ right)) :
    Settled folded previous left := by
  induction left generalizing previous with
  | nil => trivial
  | cons x left ih =>
      obtain ⟨hstands, hrest⟩ := h
      refine ⟨⟨hstands.apart, fun hunary hopens => ?_, fun p n hp hn => ?_⟩, ih hrest⟩
      · have hnone := hstands.bound hunary hopens
        cases left with
        | nil => rfl
        | cons y left => cases hnone
      · cases left with
        | nil => cases hn
        | cons y left => exact hstands.joined p n hp hn

theorem Settled.right {left right : List Node} {s : Node}
    (h : Settled folded previous (left ++ s :: right)) : Settled folded (some s) right := by
  induction left generalizing previous with
  | nil => exact h.2
  | cons x left ih => exact ih h.2

variable {tokens : List Token} {nodes : List Node}

theorem Covers.not_isLiteral {phrase : Phrase} (h : Covers (Spells phrase) tokens nodes) :
    Node.isLiteral nodes ≠ true := by
  cases h with
  | nil => exact Bool.false_ne_true
  | @cons _ x _ _ hx _ =>
      cases x with
      | leaf t =>
          intro hlit
          have hopener := (hx.leaf t rfl).2
          rw [Node.isLiteral, Node.isLeafOf, beq_iff_eq] at hlit
          rw [hlit] at hopener
          cases hopener
      | group children => exact Bool.false_ne_true

/-- A settled row with a value is empty or a single expression. -/
theorem derives_of_row (hcovers : Covers (Spells .expression) tokens nodes)
    (hsettled : Settled operatorTiers.flatten previous nodes)
    (hopens : opensOperand previous = true) (h : (Node.group nodes).Evaluable) :
    (tokens = [] ∧ nodes = [])
      ∨ ∃ x, nodes = [x] ∧ Derives .asArguments .expression tokens [x] := by
  cases h with
  | literal hlit => exact absurd hlit hcovers.not_isLiteral
  | nothing =>
      cases hcovers
      exact .inl ⟨rfl, rfl⟩
  | wrapped hchild =>
      cases hcovers with
      | cons hx hrest =>
          cases hrest
          rw [List.append_nil]
          exact .inr ⟨_, rfl, hx.derives hchild⟩
  | @negation t operand hk htext hoperand =>
      have hunary : (Node.leaf t).isOperatorIn unaryOperators = true := by
        simp [Node.isOperatorIn, unaryOperators, hk, htext]
      cases hsettled.1.bound hunary hopens
  | @call t argument hk hargs =>
      have hname : (Node.leaf t).Evaluable := .name hk
      have harg : argument.isOperand = true := by
        cases argument with
        | leaf u => exact (hargs _ (List.mem_singleton_self _)).isOperand
        | group children => rfl
      exact absurd hname (hsettled.2.1.apart _ rfl hname.isOperand harg)
  | @operation t left right hk htext hleft hright =>
      have hop := hsettled.2.1.joined _ _ rfl rfl hleft.isOperand hright.isOperand
      simp [Node.isOperatorIn, hk, htext] at hop

/-- A row is cut nowhere, or at its first leaf of the sort. -/
theorem cutAt_cases (kind : TokenKind) (nodes : List Node) :
    cutAt kind nodes = [nodes] ∨ ∃ piece s rest, nodes = piece ++ .leaf s :: rest
      ∧ s.kind = kind ∧ cutAt kind nodes = piece :: cutAt kind rest := by
  induction nodes with
  | nil => exact .inl rfl
  | cons node rest ih =>
      rw [cutAt]
      by_cases hnode : node.isLeafOf kind = true
      · rw [if_pos hnode]
        cases node with
        | leaf s => exact .inr ⟨[], s, rest, rfl, beq_iff_eq.mp hnode, rfl⟩
        | group children => cases hnode
      · rw [if_neg hnode]
        rcases ih with heq | ⟨piece, s, others, rfl, hs, heq⟩
        · rw [heq]
          exact .inl rfl
        · rw [heq]
          exact .inr ⟨node :: piece, s, others, rfl, hs, rfl⟩

/-- Pieces with values between commas are segments. -/
theorem derives_of_pieces (hcovers : Covers (Spells .expression) tokens nodes)
    (hsettled : Settled operatorTiers.flatten previous nodes)
    (hopens : opensOperand previous = true)
    (h : ∀ piece ∈ cutAt .comma nodes, (Node.group piece).Evaluable) :
    Derives .asArguments (.segments [.comma]) tokens nodes := by
  induction hlen : nodes.length using Nat.strong_induction_on
    generalizing previous tokens nodes with
  | _ length ih =>
      rcases cutAt_cases .comma nodes with heq | ⟨piece, s, rest, rfl, hs, heq⟩
      · have hrow := h nodes (heq ▸ List.mem_singleton_self nodes)
        rcases derives_of_row hcovers hsettled hopens hrow with ⟨rfl, rfl⟩ | ⟨x, rfl, hx⟩
        · exact .gap
        · exact .segment hx
      · obtain ⟨us, vs, rfl, hpiece, hsep⟩ := hcovers.split
        cases hsep with
        | cons hleaf hrest =>
            rw [(hleaf.leaf s rfl).1]
            have hvalue := h piece (heq ▸ List.mem_cons_self)
            have hopens' : opensOperand (some (.leaf s)) = true := by simp [opensOperand, hs]
            have hright := ih rest.length (by simp at hlen; omega) hrest hsettled.right hopens'
              (fun p hp => h p (heq ▸ List.mem_cons_of_mem _ hp)) rfl
            refine .separated ?_ (by simp [hs]) hright
            rcases derives_of_row hpiece hsettled.left hopens hvalue with ⟨rfl, rfl⟩ | ⟨x, rfl, hx⟩
            · exact .gap
            · exact .segment hx

/-- Elements with values are segments: side by side they would be applied to each other. -/
theorem derives_of_elements (hcovers : Covers (Spells .expression) tokens nodes)
    (hsettled : Settled operatorTiers.flatten previous nodes)
    (h : ∀ node ∈ nodes, node.isLeafOf .comma = false → node.isLeafOf .semicolon = false →
      node.Evaluable) :
    Derives .asArguments (.segments [.comma, .semicolon]) tokens nodes := by
  induction hlen : nodes.length using Nat.strong_induction_on
    generalizing previous tokens nodes with
  | _ length ih =>
      have hseparator : ∀ {x : Node} {xs : List Token}, Spells .expression xs x → ¬x.Evaluable →
          x ∈ nodes → ∃ s, x = .leaf s ∧ xs = [s] ∧ s.kind ∈ [TokenKind.comma, .semicolon] := by
        intro x xs hx hnone hmem
        cases x with
        | leaf s =>
            refine ⟨s, rfl, (hx.leaf s rfl).1, ?_⟩
            by_contra hkind
            simp only [List.mem_cons, List.not_mem_nil, or_false, not_or] at hkind
            exact hnone (h _ hmem (by simp [Node.isLeafOf, hkind.1])
              (by simp [Node.isLeafOf, hkind.2]))
        | group children => exact absurd (h _ hmem rfl rfl) hnone
      cases hcovers with
      | nil => exact .gap
      | @cons xs x ts rest hx hrest =>
          by_cases hvalue : x.Evaluable
          · cases hrest with
            | nil =>
                rw [List.append_nil]
                exact .segment (hx.derives hvalue)
            | @cons ys y ts' rest' hy hrest' =>
                have hynone : ¬y.Evaluable := fun hyvalue =>
                  hsettled.2.1.apart x rfl hvalue.isOperand hyvalue.isOperand hvalue
                obtain ⟨s, rfl, rfl, hs⟩ := hseparator hy hynone (by simp)
                refine .separated (.segment (hx.derives hvalue)) hs ?_
                exact ih rest'.length (by simp at hlen; omega) hrest' hsettled.2.2
                  (fun node hnode => h node (by simp [hnode])) rfl
          · obtain ⟨s, rfl, rfl, hs⟩ := hseparator hx hvalue (by simp)
            refine .separated .gap hs ?_
            exact ih rest.length (by simp at hlen; omega) hrest hsettled.2
              (fun node hnode => h node (by simp [hnode])) rfl

end Rows

/-! ## Trees with a value -/

theorem exists_mem_cutAt {kind : TokenKind} {nodes : List Node} {node : Node} (h : node ∈ nodes)
    (hkind : node.isLeafOf kind = false) : ∃ piece ∈ cutAt kind nodes, node ∈ piece := by
  induction hlen : nodes.length using Nat.strong_induction_on generalizing nodes with
  | _ length ih =>
      rcases cutAt_cases kind nodes with heq | ⟨piece, s, rest, rfl, hs, heq⟩
      · exact ⟨nodes, heq ▸ List.mem_singleton_self nodes, h⟩
      · rw [heq]
        rcases List.mem_append.mp h with hmem | hmem
        · exact ⟨piece, List.mem_cons_self, hmem⟩
        · rcases List.mem_cons.mp hmem with rfl | hmem
          · simp [Node.isLeafOf, hs] at hkind
          · obtain ⟨other, hother, hnode⟩ := ih rest.length (by simp at hlen; omega) hmem rfl
            exact ⟨other, List.mem_cons_of_mem _ hother, hnode⟩

/-- Every element of a list, separators apart, is in one of its rows. -/
theorem exists_mem_literalRows {first node : Node} {nodes : List Node} (h : node ∈ nodes)
    (hcomma : node.isLeafOf .comma = false) (hsemicolon : node.isLeafOf .semicolon = false) :
    ∃ row ∈ literalRows (first :: nodes), node ∈ row := by
  obtain ⟨piece, hpiece, hnode⟩ := exists_mem_cutAt h hsemicolon
  exact ⟨_, List.mem_map.mpr ⟨piece, hpiece, rfl⟩,
    List.mem_filter.mpr ⟨hnode, by rw [hcomma, Bool.not_false]⟩⟩

theorem spellsPrimary_leaf {t : Token} (ho : t.kind.closer? = none) :
    SpellsPrimary [t] (.leaf t) := by
  have hprimary : ∀ callee, (Node.leaf t).Evaluable →
      Derives .asArguments (.primary callee) [t] [.leaf t] := by
    intro callee hvalue
    cases hvalue with
    | number hk => exact .number hk
    | name hk => exact .name hk
  refine ⟨⟨hprimary none, fun u hu => ?_⟩, fun callee _ hargs => ?_⟩
  · obtain rfl := Node.leaf.inj hu
    exact ⟨rfl, ho⟩
  · exact hprimary _ (hargs _ (List.mem_singleton_self _))

theorem spellsPrimary_parenthesized {o c : Token} {ts : List Token} {row : List Node}
    (ho : o.kind = .leftParen) (hc : c.kind = .rightParen) (hrow : Covers SpellsPrimary ts row) :
    SpellsPrimary (o :: (ts ++ [c])) (.group (arrange row)) := by
  have hcovers := hrow.arrange
  have hsettled := settled_arrange row
  refine ⟨.group fun hvalue => ?_, fun callee hcallee hargs => ?_⟩
  · refine .parenthesized ho ?_ hc
    rcases derives_of_row hcovers hsettled rfl hvalue with ⟨rfl, hnil⟩ | ⟨x, hsingle, hx⟩
    · rw [hnil]
      exact .gap
    · rw [hsingle]
      exact .segment hx
  · have hseparators : Lists.asArguments.separators (some callee) = [.comma] := by
      rw [Lists.separators, Lists.asArguments, hcallee]
      rfl
    refine .parenthesized ho ?_ hc
    rw [hseparators]
    rw [Node.arguments, if_neg hcovers.not_isLiteral] at hargs
    split at hargs
    · next hempty =>
        rw [List.isEmpty_iff] at hempty
        rw [hempty] at hcovers ⊢
        cases hcovers
        exact .gap
    · exact derives_of_pieces hcovers hsettled rfl fun piece hpiece =>
        hargs _ (List.mem_map.mpr ⟨piece, hpiece, rfl⟩)

theorem spellsPrimary_bracketed {o c : Token} {ts : List Token} {row : List Node}
    (ho : o.kind = .leftBracket) (hc : c.kind = .rightBracket)
    (hrow : Covers SpellsPrimary ts row) :
    SpellsPrimary (o :: (ts ++ [c])) (.group (arrange (.leaf o :: row))) := by
  have hfirst : arrange (.leaf o :: row) = .leaf o :: arrange row :=
    arrange_append_cons notDangling_nil (.inr ho) row
  have hlit : Node.isLiteral (.leaf o :: arrange row) = true := by
    simp [Node.isLiteral, Node.isLeafOf, ho]
  have hprimary : ∀ callee, (Node.group (.leaf o :: arrange row)).Evaluable →
      Derives .asArguments (.primary callee) (o :: (ts ++ [c]))
        [.group (.leaf o :: arrange row)] := by
    intro callee hvalue
    refine .bracketed ho (derives_of_elements hrow.arrange (settled_arrange row) ?_) hc
    intro node hnode hcomma hsemicolon
    obtain ⟨elements, helements, hmem⟩ := exists_mem_literalRows hnode hcomma hsemicolon
    exact hvalue.of_literal hlit elements helements node hmem
  rw [hfirst]
  refine ⟨.group (hprimary none), fun callee _ hargs => hprimary _ (hargs _ ?_)⟩
  rw [Node.arguments, if_pos hlit]
  exact List.mem_singleton_self _

/-- The nodes of nested brackets are primaries. -/
theorem covers_of_nested {tokens : List Token} {row : List Node} (h : Nested tokens row) :
    Covers SpellsPrimary tokens (mapGroupsAll arrange row) := by
  induction h with
  | nil => exact .nil
  | leaf ho hc _ ih => exact .cons (spellsPrimary_leaf ho) ih
  | @group o c ts contents rest row hk _ _ ihcontents ih =>
      have hassoc : o :: (ts ++ c :: rest) = (o :: (ts ++ [c])) ++ rest := by simp
      rw [hassoc]
      refine .cons ?_ ih
      rcases kinds_of_closer?_eq_some hk with ⟨ho, hc⟩ | ⟨ho, hc⟩
      · rw [bracketGroup_of_leftParen ho]
        exact spellsPrimary_parenthesized ho hc ihcontents
      · rw [bracketGroup_of_leftBracket ho]
        exact spellsPrimary_bracketed ho hc ihcontents

/-- A tree with a value is one of an empty line or of an expression. -/
theorem derives_of_evaluable {tokens : List Token} {tree : Node}
    (hbuild : buildTree tokens = .ok tree) (h : tree.Evaluable) :
    withAnswer tokens = [] ∨ ∃ t, Derives .asArguments .expression (withAnswer tokens) [t] := by
  obtain ⟨row, hnested, rfl⟩ := exists_of_buildTree hbuild
  have hcovers := (covers_of_nested hnested.withAnswer).arrange
  rcases derives_of_row hcovers (settled_arrange _) rfl h with ⟨hempty, -⟩ | ⟨x, -, hx⟩
  · exact .inl hempty
  · exact .inr ⟨x, hx⟩

/-! ## Lines with a value -/

/-- The tokens, behind the last answer if they go on from it, are none at all or an expression in
which only the argument of a name may be a list. -/
def Grammatical (tokens : List Token) : Prop :=
  withAnswer tokens = [] ∨ ∃ tree, Derives .asArguments .expression (withAnswer tokens) [tree]

/-- **Only expressions evaluate.** A line that defines nothing comes to a value only if it is
grammatical. Any other one fails, with an error that a session reports or because calls do not end,
as long as stored bodies are readable, which they are wherever lines have stored them. -/
theorem grammatical_of_evalWithin {line : String} {tree : Node} (hparse : parse line = .ok tree)
    (hfree : tree.DefinitionFree Node.components) {env : Environment} (hnamed : env.Named)
    (depth : Nat) :
    (∀ v env', evalWithin depth tree env = .ok v env' → Grammatical (scan line))
      ∧ (env.Readable → ¬Grammatical (scan line) →
        ∃ failure env', evalWithin depth tree env = .error failure env' ∧ failure.IsExpected) := by
  have hgrammatical : ∀ v env', evalWithin depth tree env = .ok v env' →
      Grammatical (scan line) := by
    intro v env' heval
    have hlexed := lexed_of_buildTree hparse
    exact derives_of_evaluable hparse
      (evaluable_of_eval (framed_framed depth) hlexed hfree hnamed heval)
  refine ⟨hgrammatical, fun hreadable hnot => ?_⟩
  have hsafe := safe_evalWithin depth (readable_of_buildTree hparse) env hreadable
  cases heval : evalWithin depth tree env with
  | ok v env' => exact absurd (hgrammatical v env' heval) hnot
  | error failure env' =>
      rw [heval] at hsafe
      exact ⟨failure, env', rfl, hsafe.1⟩

theorem named_standard : Environment.standard.Named :=
  named_fresh (List.forall_mem_nil _) .degrees .standard

/-- The tree of the call `half(x)`. -/
def callOfHalf : Node :=
  .group [.leaf ⟨.name, "half", 0, 4⟩, .group [.leaf ⟨.name, "x", 5, 6⟩]]

/-- The tree of the line `half(x) * [1; -x] + v`. -/
def sumWithCallAndList : Node :=
  .group [.group [.group [callOfHalf, .leaf ⟨.operator, "*", 8, 9⟩,
    .group [.leaf ⟨.leftBracket, "[", 10, 11⟩, .leaf ⟨.number, "1", 11, 12⟩,
      .leaf ⟨.semicolon, ";", 12, 13⟩,
      .group [.leaf ⟨.operator, "-", 14, 15⟩, .leaf ⟨.name, "x", 15, 16⟩]]],
    .leaf ⟨.operator, "+", 18, 19⟩, .leaf ⟨.name, "v", 20, 21⟩]]

theorem parse_sumWithCallAndList : parse "half(x) * [1; -x] + v" = .ok sumWithCallAndList := by
  have hscan : scan "half(x) * [1; -x] + v" = [⟨.name, "half", 0, 4⟩, ⟨.leftParen, "(", 4, 5⟩,
      ⟨.name, "x", 5, 6⟩, ⟨.rightParen, ")", 6, 7⟩, ⟨.operator, "*", 8, 9⟩,
      ⟨.leftBracket, "[", 10, 11⟩, ⟨.number, "1", 11, 12⟩, ⟨.semicolon, ";", 12, 13⟩,
      ⟨.operator, "-", 14, 15⟩, ⟨.name, "x", 15, 16⟩, ⟨.rightBracket, "]", 16, 17⟩,
      ⟨.operator, "+", 18, 19⟩, ⟨.name, "v", 20, 21⟩] := by
    decide +kernel
  rw [parse, hscan]
  rfl

def halving : Function :=
  ⟨["n"], .group [.leaf ⟨.name, "n", 10, 11⟩, .leaf ⟨.operator, "/", 12, 13⟩,
    .leaf ⟨.number, "2", 14, 15⟩]⟩

/-- An environment with a number, a vector and a function of its own. -/
def withHalf : Environment :=
  (Environment.fresh [("x", .scalar 3), ("v", .vector [4, 5])] .radians .standard).define "half" halving

theorem named_withHalf : withHalf.Named := by
  have hnames : ∀ name ∈ ["x", "v"], IsName name :=
    List.forall_mem_cons.mpr ⟨⟨⟨.name, "x", 0, 1⟩, by decide +kernel, rfl⟩,
      List.forall_mem_singleton.mpr ⟨⟨.name, "v", 0, 1⟩, by decide +kernel, rfl⟩⟩
  exact @named_fresh [("x", .scalar 3), ("v", .vector [4, 5])] hnames .radians .standard

theorem readable_withHalf : withHalf.Readable := by
  have hbody : halving.body.Readable := by
    unfold Node.Readable Node.AllLeaves
    decide +kernel
  exact List.forall_mem_singleton.mpr (List.forall_mem_singleton.mpr hbody)

theorem eval_callOfHalf :
    ∃ x, callOfHalf.meaning.eval (.framed 1) withHalf = .ok (.scalar x) withHalf := by
  have hbody : halving.body.meaning = .operation "/" (.name "n") (.number "2") := by
    simp [halving, Node.meaning, Node.isLiteral, Node.isLeafOf, assignmentOperators]
  let inner := withHalf.frame.setVariables [("n", .scalar 3)]
  obtain ⟨x, hx⟩ : ∃ x, halving.body.meaning.eval (.framed 0) inner = .ok (.scalar x) inner := by
    rw [hbody]
    exact ⟨_, rfl⟩
  have hinside : inside (.framed 1) (fun _ => halving.body.meaning.eval (.framed 0) inner) withHalf
      = .ok (.scalar x) withHalf := by
    simp only [inside, hx]
    rfl
  have hcall : callOfHalf.meaning = .call "half" [.name "x"] := by
    rw [callOfHalf, Node.meaning_call rfl]
    simp [Node.meaning, Node.isLiteral, Node.isLeafOf, Node.arguments, cutAt]
  rw [hcall]
  exact ⟨x, hinside⟩

theorem evalWithin_sumWithCallAndList :
    ∃ v env', evalWithin 1 sumWithCallAndList withHalf = .ok v env' := by
  have hmeaning : sumWithCallAndList.meaning = .operation "+" (.operation "*" callOfHalf.meaning
      (.literal [[.number "1"], [.negation (.name "x")]])) (.name "v") := by
    rw [sumWithCallAndList, Node.meaning_wrapped (by decide),
      Node.meaning_operation (by decide) (by decide),
      Node.meaning_operation (by decide) (by decide), Node.meaning_literal rfl]
    simp [literalRows, Node.meaning, Node.isLiteral, Node.isLeafOf, cutAt, unaryOperators]
  obtain ⟨x, hx⟩ := eval_callOfHalf
  obtain ⟨a, b, hproduct⟩ : ∃ a b, (Expr.operation "*" callOfHalf.meaning
      (.literal [[.number "1"], [.negation (.name "x")]])).eval (.framed 1) withHalf
        = .ok (.vector [a, b]) withHalf := by
    rw [Expr.eval, Eval.bind_of_ok hx]
    exact ⟨_, _, rfl⟩
  rw [evalWithin, hmeaning, Expr.eval, Eval.bind_of_ok hproduct]
  exact ⟨_, _, rfl⟩

/-- The tree of the line `half(x) * + [1, -x]`. -/
def doubledOperator : Node :=
  .group [callOfHalf, .leaf ⟨.operator, "*", 8, 9⟩, .leaf ⟨.operator, "+", 10, 11⟩,
    .group [.leaf ⟨.leftBracket, "[", 12, 13⟩, .leaf ⟨.number, "1", 13, 14⟩,
      .leaf ⟨.comma, ",", 14, 15⟩,
      .group [.leaf ⟨.operator, "-", 16, 17⟩, .leaf ⟨.name, "x", 17, 18⟩]]]

theorem scan_doubledOperator :
    scan "half(x) * + [1, -x]" = [⟨.name, "half", 0, 4⟩, ⟨.leftParen, "(", 4, 5⟩,
      ⟨.name, "x", 5, 6⟩, ⟨.rightParen, ")", 6, 7⟩, ⟨.operator, "*", 8, 9⟩,
      ⟨.operator, "+", 10, 11⟩, ⟨.leftBracket, "[", 12, 13⟩, ⟨.number, "1", 13, 14⟩,
      ⟨.comma, ",", 14, 15⟩, ⟨.operator, "-", 16, 17⟩, ⟨.name, "x", 17, 18⟩,
      ⟨.rightBracket, "]", 18, 19⟩] := by
  decide +kernel

theorem parse_doubledOperator : parse "half(x) * + [1, -x]" = .ok doubledOperator := by
  rw [parse, scan_doubledOperator]
  rfl

theorem not_grammatical_doubledOperator : ¬Grammatical (scan "half(x) * + [1, -x]") := by
  rintro (hempty | ⟨single, hsingle⟩)
  · rw [scan_doubledOperator] at hempty
    cases hempty
  · have hanswer : withAnswer (scan "half(x) * + [1, -x]") = scan "half(x) * + [1, -x]" := by
      rw [scan_doubledOperator]
      rfl
    rw [hanswer] at hsingle
    have hanywhere : Derives .anywhere .expression _ [single] := hsingle.mono fun _ _ => rfl
    -- an expression is one node, and the line has left four
    have hsame := Except.ok.inj (parse_doubledOperator.symm.trans hanywhere.buildTree_eq)
    cases Node.group.inj hsame

/-- A call of a stored function, a product, a list and a sum come to a value. With two operators
next to each other the line is not grammatical and fails. -/
theorem grammatical_of_call_and_list :
    (∃ tree, parse "half(x) * [1; -x] + v" = .ok tree ∧ tree.DefinitionFree Node.components ∧
      withHalf.Named ∧ (∃ v env', evalWithin 1 tree withHalf = .ok v env') ∧
      Grammatical (scan "half(x) * [1; -x] + v")) ∧
    ∃ tree, parse "half(x) * + [1, -x]" = .ok tree ∧ tree.DefinitionFree Node.components ∧
      withHalf.Named ∧ withHalf.Readable ∧ ¬Grammatical (scan "half(x) * + [1, -x]") ∧
      ∃ failure env', evalWithin 1 tree withHalf = .error failure env' ∧ failure.IsExpected := by
  have hfree : ∀ tree ∈ [sumWithCallAndList, doubledOperator],
      tree.DefinitionFree Node.components := by
    have hleaves : ∀ tree ∈ [sumWithCallAndList, doubledOperator],
        ∀ t ∈ tree.leaves, t.text ∉ assignmentOperators := by decide +kernel
    exact fun tree htree => Node.definitionFree_of_leaves (hleaves tree htree)
  obtain ⟨hsum, hdoubled⟩ := List.forall_mem_cons.mp hfree
  have hdoubled := List.forall_mem_singleton.mp hdoubled
  obtain ⟨v, env', hvalue⟩ := evalWithin_sumWithCallAndList
  have hgrammatical := (grammatical_of_evalWithin parse_sumWithCallAndList hsum named_withHalf 1).1
  have hfails := (grammatical_of_evalWithin parse_doubledOperator hdoubled named_withHalf 1).2
  exact ⟨⟨_, parse_sumWithCallAndList, hsum, named_withHalf, ⟨v, env', hvalue⟩,
      hgrammatical v env' hvalue⟩,
    _, parse_doubledOperator, hdoubled, named_withHalf, readable_withHalf,
      not_grammatical_doubledOperator, hfails readable_withHalf not_grammatical_doubledOperator⟩

/-- The tree of the line `max(1, g(x) = +)`. What is behind the comma is no node of it. -/
def maxOfDefinition : Node :=
  .group [.group [.leaf ⟨.name, "max", 0, 3⟩, .group [.leaf ⟨.number, "1", 4, 5⟩,
    .leaf ⟨.comma, ",", 5, 6⟩,
    .group [.leaf ⟨.name, "g", 7, 8⟩, .group [.leaf ⟨.name, "x", 9, 10⟩]],
    .leaf ⟨.operator, "=", 12, 13⟩, .leaf ⟨.operator, "+", 14, 15⟩]]]

theorem scan_maxOfDefinition :
    scan "max(1, g(x) = +)" = [⟨.name, "max", 0, 3⟩, ⟨.leftParen, "(", 3, 4⟩,
      ⟨.number, "1", 4, 5⟩, ⟨.comma, ",", 5, 6⟩, ⟨.name, "g", 7, 8⟩, ⟨.leftParen, "(", 8, 9⟩,
      ⟨.name, "x", 9, 10⟩, ⟨.rightParen, ")", 10, 11⟩, ⟨.operator, "=", 12, 13⟩,
      ⟨.operator, "+", 14, 15⟩, ⟨.rightParen, ")", 15, 16⟩] := by
  decide +kernel

theorem parse_maxOfDefinition : parse "max(1, g(x) = +)" = .ok maxOfDefinition := by
  rw [parse, scan_maxOfDefinition]
  rfl

theorem definitionFree_maxOfDefinition : maxOfDefinition.DefinitionFree Node.children := by
  have hleaf : ∀ t, (Node.leaf t).DefinitionFree Node.children :=
    fun t => Node.definitionFree_leaf rfl
  have hgroup : ∀ children, (Node.group children).defined? = none →
      (∀ child ∈ children, child.DefinitionFree Node.children) →
        (Node.group children).DefinitionFree Node.children :=
    fun children hroot hchildren => Node.definitionFree_iff.mpr ⟨hroot, hchildren⟩
  have hparameters := hgroup [.leaf ⟨.name, "x", 9, 10⟩] rfl
    (List.forall_mem_singleton.mpr (hleaf _))
  have hnaming := hgroup [.leaf ⟨.name, "g", 7, 8⟩, .group [.leaf ⟨.name, "x", 9, 10⟩]] rfl
    (List.forall_mem_cons.mpr ⟨hleaf _, List.forall_mem_singleton.mpr hparameters⟩)
  have hargument := hgroup _ rfl (List.forall_mem_cons.mpr ⟨hleaf ⟨.number, "1", 4, 5⟩,
    List.forall_mem_cons.mpr ⟨hleaf ⟨.comma, ",", 5, 6⟩, List.forall_mem_cons.mpr ⟨hnaming,
      List.forall_mem_cons.mpr ⟨hleaf ⟨.operator, "=", 12, 13⟩,
        List.forall_mem_singleton.mpr (hleaf ⟨.operator, "+", 14, 15⟩)⟩⟩⟩⟩)
  have hcall := hgroup _ rfl (List.forall_mem_cons.mpr ⟨hleaf ⟨.name, "max", 0, 3⟩,
    List.forall_mem_singleton.mpr hargument⟩)
  exact hgroup _ rfl (List.forall_mem_singleton.mpr hcall)

theorem evalLine_maxOfDefinition :
    ∃ v env', evalLine "max(1, g(x) = +)" Environment.standard = .ok v env' := by
  have hmeaning : maxOfDefinition.meaning
      = .call "max" [.number "1", .definition "g" ["x"] (.leaf ⟨.operator, "+", 14, 15⟩)] := by
    rw [maxOfDefinition, Node.meaning, if_neg (by decide), Node.meaning_call rfl]
    simp [Node.meaning, Node.isLiteral, Node.isLeafOf, Node.arguments, cutAt, assignmentOperators,
      assignmentSides, Node.signature?, Node.name?, Node.parameters?, commaNames?]
  rw [evalLine, parse_maxOfDefinition]
  simp only [evalTree, evalWithin, hmeaning]
  exact ⟨_, _, rfl⟩

/-- The pieces of an argument have to be free of definitions too: what is behind the comma of
`max(1, g(x) = +)` defines a function, and the line has a value but is not grammatical. -/
theorem piece_of_argument_defines :
    ∃ tree, parse "max(1, g(x) = +)" = .ok tree ∧ tree.DefinitionFree Node.children
      ∧ Environment.standard.Named
      ∧ (∃ v env', evalLine "max(1, g(x) = +)" Environment.standard = .ok v env')
      ∧ ¬Grammatical (scan "max(1, g(x) = +)") := by
  refine ⟨maxOfDefinition, parse_maxOfDefinition, definitionFree_maxOfDefinition, named_standard,
    evalLine_maxOfDefinition, ?_⟩
  rintro (hempty | ⟨tree, htree⟩)
  · rw [scan_maxOfDefinition] at hempty
    cases hempty
  · have hanswer : withAnswer (scan "max(1, g(x) = +)") = scan "max(1, g(x) = +)" := by
      rw [scan_maxOfDefinition]
      rfl
    rw [hanswer] at htree
    have hanywhere : Derives .anywhere .expression _ [tree] := htree.mono fun _ _ => rfl
    have hsame := Except.ok.inj (parse_maxOfDefinition.symm.trans hanywhere.buildTree_eq)
    obtain rfl := List.head_eq_of_cons_eq (Node.group.inj hsame)
    obtain ⟨ts, hargument⟩ := htree.argument_of_applied rfl
    cases hargument with
    | parenthesized _ hsegments =>
        -- the `=` would have to be an operand or a comma
        have hkind := hsegments.kind_of_leaf_mem (t := ⟨.operator, "=", 12, 13⟩) (by simp)
        exact absurd hkind (by decide)
    | bracketed ho => cases ho

end Reckoner
