import Reckoner.Proofs.Arrangement
import Reckoner.Proofs.Grammar

/-!
# Building the tree of the grammar

Whatever the grammar derives as an expression is built into the tree that the derivation names
(`buildTree_of_derives`). The proof follows the derivation: the tokens of a phrase are well nested,
and the passes up to the one that is due for the phrase turn the row that they resolve to into the
nodes of the phrase (`Derives.reads`). The joint of two operands is where pairing, wrapping and the
folding of tighter tiers all stop, so the two sides of an operator are arranged apart before the
tier of the operator puts them together (`Tier.before_append`).
-/

namespace Reckoner

/-! ## The passes up to a phrase -/

/-- The tiers that bind tighter, the tightest first. -/
def Tier.tighter : Tier → List Tier
  | power => []
  | product => [power]
  | sum => [power, product]
  | assignment => [power, product, sum]

/-- What becomes of a row before a tier is folded. -/
def Tier.before (tier : Tier) (row : List Node) : List Node :=
  foldEach (tier.tighter.map Tier.operators) (wrapUnary (pairOperands row))

/-- What becomes of a row once its phrases of one sort are nodes. -/
def Phrase.pass : Phrase → List Node → List Node
  | .chain tier, row => foldTier tier.operators (tier.before row)
  | .unary, row => wrapUnary (pairOperands row)
  | .application, row => pairOperands row
  | .primary _, row => row
  | .segments _, row => arrange row

theorem Tier.pass_part (tier : Tier) (row : List Node) : tier.part.pass row = tier.before row := by
  cases tier <;> rfl

/-- No operator belongs to two tiers. -/
theorem Tier.disjoint_of_tighter {tier tight : Tier} (h : tight ∈ tier.tighter) :
    ∀ text ∈ tier.operators, text ∉ tight.operators := by
  revert h
  cases tier <;> cases tight <;> decide

/-- Before a tier is folded, its operators have kept their two sides apart. -/
theorem Tier.before_append {tier : Tier} {left : List Node} {op : Token} (hl : EndsInOperand left)
    (hop : op.kind = .operator) (htext : op.text ∈ tier.operators) (right : List Node) :
    tier.before (left ++ .leaf op :: right)
      = tier.before left ++ .leaf op :: tier.before right := by
  rw [before, wrapUnary_pairOperands_append hl hop]
  refine foldEach_append_cons (isOperand_leaf_of_operator hop) (fun texts htexts => ?_) _ _
  obtain ⟨tight, htight, rfl⟩ := List.mem_map.mp htexts
  simp [Node.isOperatorIn, disjoint_of_tighter htight _ htext]

/-! ## From the derivation to the passes -/

/-- The passes that are due for a phrase turn a row into the nodes of the phrase. A row of segments
may end in a gap, every other phrase ends in an operand and is one. -/
def Phrase.Reads : Phrase → List Node → List Node → Prop
  | .segments _, row, nodes => NotDangling row ∧ arrange row = nodes
  | phrase, row, nodes =>
    EndsInOperand row ∧ phrase.pass row = nodes ∧ ∀ x ∈ nodes, x.isOperand = true

theorem Tier.reads_part {tier : Tier} {row nodes : List Node} (h : tier.part.Reads row nodes) :
    EndsInOperand row ∧ tier.before row = nodes ∧ ∀ x ∈ nodes, x.isOperand = true := by
  rw [← tier.pass_part row]
  cases tier <;> exact h

section Rows

variable {tier : Tier} {l r f x t : Node} {left right row : List Node} {op o : Token}
  {callee : Option Node} {separators : List TokenKind}

theorem reads_single (h : tier.part.Reads row [t]) : (Phrase.chain tier).Reads row [t] := by
  obtain ⟨hend, hpass, hoperand⟩ := tier.reads_part h
  refine ⟨hend, ?_, hoperand⟩
  rw [Phrase.pass, hpass]
  rfl

theorem reads_joined (hl : (Phrase.chain tier).Reads left [l]) (hop : op.kind = .operator)
    (htext : op.text ∈ tier.operators) (hr : tier.part.Reads right [r]) :
    (Phrase.chain tier).Reads (left ++ .leaf op :: right) [.group [l, .leaf op, r]] := by
  obtain ⟨hlend, hlpass, hloperand⟩ := hl
  obtain ⟨hrend, hrpass, hroperand⟩ := tier.reads_part hr
  refine ⟨(hrend.append [.leaf op]).append left, ?_, fun y hy => ?_⟩
  · rw [Phrase.pass, tier.before_append hlend hop htext, hrpass]
    exact foldTier_append_operation hlpass (hloperand l (List.mem_singleton_self l))
      (by simp [Node.isOperatorIn, hop, htext]) (hroperand r (List.mem_singleton_self r))
  · rw [List.mem_singleton.mp hy]
    rfl

theorem reads_prefixed (hop : op.kind = .operator) (htext : op.text ∈ unaryOperators)
    (h : Phrase.unary.Reads row [t]) :
    Phrase.unary.Reads (.leaf op :: row) [.group [.leaf op, t]] := by
  obtain ⟨hend, hpass, -⟩ := h
  refine ⟨hend.append [.leaf op], ?_, fun y hy => by rw [List.mem_singleton.mp hy]; rfl⟩
  have hrest : wrapFrom (some (.leaf op)) (pairOperands row) = [t] := by
    rw [wrapFrom_congr (q := none) (by simp [opensOperand, hop])]
    exact hpass
  have hunary : ((Node.leaf op).isOperatorIn unaryOperators && opensOperand none) = true := by
    simp [Node.isOperatorIn, hop, htext, opensOperand]
  rw [Phrase.pass, ← List.nil_append (.leaf op :: row),
    pairOperands_append_cons (isOperand_leaf_of_operator hop), wrapUnary]
  show wrapFrom none (.leaf op :: pairOperands row) = _
  rw [wrapFrom, hrest, if_pos hunary]

theorem reads_plain (h : Phrase.application.Reads row [t]) : Phrase.unary.Reads row [t] := by
  obtain ⟨hend, hpass, hoperand⟩ := h
  refine ⟨hend, ?_, hoperand⟩
  have ht := Node.isOperatorIn_of_isOperand (hoperand t (List.mem_singleton_self t)) unaryOperators
  have hpairs : pairOperands row = [t] := hpass
  rw [Phrase.pass, hpairs, wrapUnary, wrapFrom_of_kept (by rw [ht, Bool.false_and])]
  rfl

theorem reads_alone (h : (Phrase.primary callee).Reads row [t]) :
    Phrase.application.Reads row [t] := by
  obtain ⟨hend, hpass, hoperand⟩ := h
  obtain rfl : row = [t] := hpass
  exact ⟨hend, rfl, hoperand⟩

theorem reads_applied (hf : Phrase.application.Reads left [f])
    (hx : (Phrase.primary callee).Reads right [x]) :
    Phrase.application.Reads (left ++ right) [.group [f, x]] := by
  obtain ⟨-, hfpass, hfoperand⟩ := hf
  obtain ⟨hxend, hxpass, hxoperand⟩ := hx
  obtain rfl : right = [x] := hxpass
  refine ⟨hxend.append left, ?_, fun y hy => by rw [List.mem_singleton.mp hy]; rfl⟩
  cases left with
  | nil => cases hfpass
  | cons first rest =>
      rw [Phrase.pass, List.cons_append, pairOperands,
        pairFrom_append_of_singleton rest first hfpass,
        pairFrom, hfoperand f (List.mem_singleton_self f), hxoperand x (List.mem_singleton_self x)]
      rfl

theorem reads_primary (hx : x.isOperand = true) : (Phrase.primary callee).Reads [x] [x] :=
  ⟨endsInOperand_singleton hx, rfl, fun y hy => by rwa [List.mem_singleton.mp hy]⟩

theorem reads_segment (h : Phrase.expression.Reads row [t]) :
    (Phrase.segments separators).Reads row [t] :=
  ⟨h.1.notDangling, h.2.1⟩

theorem reads_separated {fewer : List TokenKind} {ls rs : List Node}
    (hl : (Phrase.segments fewer).Reads left ls) (hs : o.kind.IsSeparator)
    (hr : (Phrase.segments separators).Reads right rs) :
    (Phrase.segments separators).Reads (left ++ .leaf o :: right) (ls ++ .leaf o :: rs) := by
  obtain ⟨hldangling, rfl⟩ := hl
  obtain ⟨hrdangling, rfl⟩ := hr
  refine ⟨fun y hy => ?_, arrange_append_cons hldangling (.inl hs) right⟩
  rw [List.getLast?_append, List.getLast?_cons, Option.some_or, Option.some_inj] at hy
  cases hlast : right.getLast? with
  | some z =>
      rw [hlast] at hy
      exact hrdangling y (hlast.trans (congrArg some hy))
  | none =>
      rw [hlast] at hy
      obtain rfl : .leaf o = y := hy
      rcases hs with h | h <;> simp [Node.isOperatorIn, h]

end Rows

theorem mapGroupsAll_append (f : List Node → List Node) (row others : List Node) :
    mapGroupsAll f (row ++ others) = mapGroupsAll f row ++ mapGroupsAll f others := by
  simp only [mapGroupsAll_eq_map, List.map_append]

theorem Lists.isSeparator_of_mem {lists : Lists} {callee : Option Node} {kind : TokenKind}
    (h : kind ∈ lists.separators callee) : kind.IsSeparator := by
  rw [Lists.separators] at h
  split at h
  · exact .inl (List.mem_singleton.mp h)
  · cases h

/-- The tokens of a phrase are well nested, and the passes read the phrase in the row that they
resolve to. -/
theorem Derives.reads {lists : Lists} {phrase : Phrase} {tokens : List Token} {nodes : List Node}
    (h : Derives lists phrase tokens nodes) :
    (∀ kind ∈ phrase.separators, kind.IsSeparator) →
      ∃ row, Nested tokens row ∧ phrase.Reads (mapGroupsAll arrange row) nodes := by
  induction h with
  | @single tier _ _ _ ih =>
      intro _
      have hnone : ∀ kind ∈ tier.part.separators, kind.IsSeparator := by
        rw [tier.separators_part]
        exact List.forall_mem_nil _
      obtain ⟨row, hnested, hreads⟩ := ih hnone
      exact ⟨row, hnested, reads_single hreads⟩
  | @joined tier _ _ _ _ op _ hop htext _ ihl ihr =>
      intro _
      have hnone : ∀ kind ∈ tier.part.separators, kind.IsSeparator := by
        rw [tier.separators_part]
        exact List.forall_mem_nil _
      obtain ⟨left, hlnested, hlreads⟩ := ihl (List.forall_mem_nil _)
      obtain ⟨right, hrnested, hrreads⟩ := ihr hnone
      refine ⟨left ++ .leaf op :: right, hlnested.append (.leaf ?_ ?_ hrnested), ?_⟩
      · rw [hop]; rfl
      · rw [hop]; rfl
      · rw [mapGroupsAll_append]
        exact reads_joined hlreads hop htext hrreads
  | @prefixed _ _ op hop htext _ ih =>
      intro _
      obtain ⟨row, hnested, hreads⟩ := ih (List.forall_mem_nil _)
      refine ⟨.leaf op :: row, .leaf ?_ ?_ hnested, reads_prefixed hop htext hreads⟩
      · rw [hop]; rfl
      · rw [hop]; rfl
  | plain _ ih =>
      intro _
      obtain ⟨row, hnested, hreads⟩ := ih (List.forall_mem_nil _)
      exact ⟨row, hnested, reads_plain hreads⟩
  | alone _ ih =>
      intro _
      obtain ⟨row, hnested, hreads⟩ := ih (List.forall_mem_nil _)
      exact ⟨row, hnested, reads_alone hreads⟩
  | applied _ _ ihf ihx =>
      intro _
      obtain ⟨left, hlnested, hlreads⟩ := ihf (List.forall_mem_nil _)
      obtain ⟨right, hrnested, hrreads⟩ := ihx (List.forall_mem_nil _)
      refine ⟨left ++ right, hlnested.append hrnested, ?_⟩
      rw [mapGroupsAll_append]
      exact reads_applied hlreads hrreads
  | @number _ t ht =>
      intro _
      refine ⟨[.leaf t], .single ?_ ?_, reads_primary ?_⟩
      · rw [ht]; rfl
      · rw [ht]; rfl
      · simp [Node.mapGroups, Node.isOperand, ht]
  | @name _ t ht =>
      intro _
      refine ⟨[.leaf t], .single ?_ ?_, reads_primary ?_⟩
      · rw [ht]; rfl
      · rw [ht]; rfl
      · simp [Node.mapGroups, Node.isOperand, ht]
  | @parenthesized callee _ _ o c ho _ hc ih =>
      intro _
      obtain ⟨row, hnested, -, hpass⟩ := ih fun _ hkind => Lists.isSeparator_of_mem hkind
      refine ⟨[bracketGroup o row], .bracket (by rw [ho, hc]; rfl) hnested, ?_⟩
      rw [bracketGroup_of_leftParen ho, mapGroupsAll, Node.mapGroups, hpass]
      exact reads_primary rfl
  | @bracketed callee _ _ o c ho _ hc ih =>
      intro _
      obtain ⟨row, hnested, -, hpass⟩ := ih fun kind hkind => by
        rcases List.mem_cons.mp hkind with rfl | hkind
        · exact .inl rfl
        · exact .inr (List.mem_singleton.mp hkind)
      refine ⟨[bracketGroup o row], .bracket (by rw [ho, hc]; rfl) hnested, ?_⟩
      have hinner : arrange (.leaf o :: mapGroupsAll arrange row)
          = .leaf o :: arrange (mapGroupsAll arrange row) :=
        arrange_append_cons notDangling_nil (.inr ho) _
      rw [bracketGroup_of_leftBracket ho]
      show (Phrase.primary callee).Reads [.group (arrange (.leaf o :: mapGroupsAll arrange row))] _
      rw [hinner, hpass]
      exact reads_primary rfl
  | gap =>
      intro _
      exact ⟨[], .nil, notDangling_nil, rfl⟩
  | segment _ ih =>
      intro _
      obtain ⟨row, hnested, hreads⟩ := ih (List.forall_mem_nil _)
      exact ⟨row, hnested, reads_segment hreads⟩
  | @separated separators _ _ _ _ s _ hs _ ihl ihr =>
      intro hsep
      obtain ⟨left, hlnested, hlreads⟩ := ihl (List.forall_mem_nil _)
      obtain ⟨right, hrnested, hrreads⟩ := ihr hsep
      have hseparator := hsep _ hs
      refine ⟨left ++ .leaf s :: right, hlnested.append (.leaf ?_ ?_ hrnested), ?_⟩
      · rcases hseparator with h | h <;> rw [h] <;> rfl
      · rcases hseparator with h | h <;> rw [h] <;> rfl
      · rw [mapGroupsAll_append]
        exact reads_separated hlreads hseparator hrreads

/-! ## Trees of lines -/

def Phrase.isRow : Phrase → Bool
  | segments _ => true
  | _ => false

theorem Tier.isRow_part (tier : Tier) : tier.part.isRow = false := by
  cases tier <;> rfl

/-- A line that is an expression begins with its own first operand or with an operator in front of
it, so it does not go on from the last answer. -/
theorem Derives.withAnswer_eq {lists : Lists} {phrase : Phrase} {tokens : List Token}
    {nodes : List Node} (h : Derives lists phrase tokens nodes) :
    phrase.isRow = false → ∀ more, withAnswer (tokens ++ more) = tokens ++ more := by
  have hkept : ∀ (t : Token) (ts : List Token), continuesAnswer (.leaf t) = false →
      withAnswer (t :: ts) = t :: ts := by
    intro t ts ht
    rw [withAnswer, ht]
    rfl
  have hkind : ∀ (t : Token) (ts : List Token), t.kind ≠ .operator →
      withAnswer (t :: ts) = t :: ts := by
    intro t ts ht
    exact hkept t ts (by simp [continuesAnswer, Node.isOperatorIn, ht])
  induction h with
  | @single tier _ _ _ ih => exact fun _ => ih tier.isRow_part
  | joined _ _ _ _ ihl _ =>
      intro _ more
      rw [List.append_assoc]
      exact ihl rfl _
  | @prefixed _ _ op hop htext _ _ =>
      intro _ more
      exact hkept op _ (by simp [continuesAnswer, Node.isOperatorIn, hop, unaryOperators, htext])
  | plain _ ih => exact fun _ => ih rfl
  | alone _ ih => exact fun _ => ih rfl
  | applied _ _ ihf _ =>
      intro _ more
      rw [List.append_assoc]
      exact ihf rfl _
  | number ht => exact fun _ _ => hkind _ _ (by rw [ht]; decide)
  | name ht => exact fun _ _ => hkind _ _ (by rw [ht]; decide)
  | parenthesized ho _ _ _ => exact fun _ _ => hkind _ _ (by rw [ho]; decide)
  | bracketed ho _ _ _ => exact fun _ _ => hkind _ _ (by rw [ho]; decide)
  | gap | segment | separated => exact fun hrow => by cases hrow

theorem Derives.buildTree_eq {tokens : List Token} {tree : Node}
    (h : Derives .anywhere .expression tokens [tree]) :
    buildTree tokens = .ok (.group [tree]) := by
  obtain ⟨row, hnested, -, hpass, -⟩ := h.reads (List.forall_mem_nil _)
  have hanswer := hnested.withAnswer
  have hsame := h.withAnswer_eq rfl []
  rw [List.append_nil] at hsame
  rw [hsame, ← resolve_eq_ok_iff, resolve_eq_ok_iff.mpr hnested] at hanswer
  rw [Reckoner.buildTree_eq, resolve_eq_ok_iff.mpr hnested]
  show Except.ok (Node.group (everywhere arrange (continueAnswer row))) = _
  rw [← Except.ok.inj hanswer, everywhere]
  exact congrArg (fun nodes => Except.ok (Node.group nodes)) hpass

/-- **The tree of an expression.** A line that the grammar derives is built into a group of exactly
one node, which is the tree of the derivation; so there is no other. -/
theorem buildTree_of_derives {tokens : List Token} {tree : Node}
    (h : Derives .anywhere .expression tokens [tree]) :
    buildTree tokens = .ok (.group [tree])
      ∧ ∀ other, Derives .anywhere .expression tokens [other] → other = tree := by
  refine ⟨h.buildTree_eq, fun other hother => ?_⟩
  have hsame := Except.ok.inj (hother.buildTree_eq.symm.trans h.buildTree_eq)
  exact List.head_eq_of_cons_eq (Node.group.inj hsame)

theorem buildTree_minus_call_power :
    ∃ tokens tree, tokens.map Token.text
        = ["-", "f", "(", ",", "[", "1", ";", "]", ")", "^", "2", "=>", "y"]
      ∧ Derives .anywhere .expression tokens [tree] ∧ buildTree tokens = .ok (.group [tree])
      ∧ tree.flat = "(((- (f (, [1 ;]))) ^ 2) => y)" := by
  have hlist : Derives .anywhere .expression _ _ :=
    .expression_of_primary (.bracketed (o := ⟨.leftBracket, "[", 4, 5⟩)
      (c := ⟨.rightBracket, "]", 7, 8⟩) rfl (.separated (s := ⟨.semicolon, ";", 6, 7⟩)
        (.segment (.expression_of_primary (.number (t := ⟨.number, "1", 5, 6⟩) rfl))) (by decide)
        .gap) rfl)
  have hcall : Derives .anywhere .application _ _ :=
    .applied (.alone (.name (t := ⟨.name, "f", 1, 2⟩) rfl))
      (.parenthesized (o := ⟨.leftParen, "(", 2, 3⟩) (c := ⟨.rightParen, ")", 8, 9⟩) rfl
        (.separated (s := ⟨.comma, ",", 3, 4⟩) .gap (by decide) (.segment hlist)) rfl)
  have hpower : Derives .anywhere (.chain .power) _ _ :=
    .joined (o := ⟨.operator, "^", 9, 10⟩)
      (.single (.prefixed (o := ⟨.operator, "-", 0, 1⟩) rfl (by decide) (.plain hcall)))
      rfl (by decide) (.plain (.alone (.number (t := ⟨.number, "2", 10, 11⟩) rfl)))
  have hline : Derives .anywhere .expression _ _ :=
    .joined (o := ⟨.operator, "=>", 11, 13⟩) (.single (.single (.single hpower))) rfl (by decide)
      (.chain_of_unary (.plain (.alone (.name (t := ⟨.name, "y", 13, 14⟩) rfl))) .sum)
  exact ⟨_, _, rfl, hline, (buildTree_of_derives hline).1, by decide +kernel⟩

end Reckoner
