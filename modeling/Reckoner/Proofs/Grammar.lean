import Reckoner.Node

/-!
# The grammar of a line

What a well-formed line looks like, said without any of the passes that arrange its nodes. An
expression is a chain of assignments over sums over products over powers over unary phrases; a
unary phrase is an application behind any number of unary operators; an application is a row of
primaries; and a primary is a number, a name or a bracketed row of segments, each of them empty or
an expression.

`Derives` relates a phrase to the tokens that write it and to the nodes that it stands for: one
node, except that segments are a row. Two grammars share its rules. They differ in `Lists`, which
says where a parenthesised list with commas may stand: `anywhere`, or only `asArguments` behind a
name. Everything that the second derives the first does too (`Derives.mono`).
-/

namespace Reckoner

/-! ## Phrases -/

/-- The binary operators by how tightly they bind, the tightest first. -/
inductive Tier where
  | power
  | product
  | sum
  | assignment
deriving Repr, DecidableEq

def Tier.operators : Tier → List String
  | power => ["^"]
  | product => ["*", "/", "//"]
  | sum => ["+", "-"]
  | assignment => ["=>", "="]

/-- What a stretch of tokens can be. -/
inductive Phrase where
  /-- Phrases of the next tighter tier, joined by the operators of a tier. -/
  | chain (tier : Tier)
  | unary
  | application
  /-- A primary, which is the argument of `callee` if there is one. -/
  | primary (callee : Option Node)
  /-- Expressions and gaps with tokens of these kinds between them. -/
  | segments (separators : List TokenKind)

def Phrase.separators : Phrase → List TokenKind
  | segments separators => separators
  | _ => []

abbrev Phrase.expression : Phrase := .chain .assignment

/-- What the operators of a tier join. -/
def Tier.part : Tier → Phrase
  | power => .unary
  | product => .chain .power
  | sum => .chain .product
  | assignment => .chain .sum

theorem Tier.separators_part (tier : Tier) : tier.part.separators = [] := by
  cases tier <;> rfl

/-- Says whether the argument of a callee, or a primary that is no argument, may be a list with
commas. -/
abbrev Lists := Option Node → Bool

def Lists.anywhere : Lists := fun _ => true

/-- Only the argument of a name may be a list. -/
def Lists.asArguments : Lists
  | some callee => callee.isLeafOf .name
  | none => false

def Lists.separators (lists : Lists) (callee : Option Node) : List TokenKind :=
  if lists callee then [.comma] else []

/-! ## Rules -/

/-- `Derives lists phrase tokens nodes`: the tokens write a phrase that stands for the nodes. -/
inductive Derives (lists : Lists) : Phrase → List Token → List Node → Prop
  | single {tier ts t} : Derives lists tier.part ts [t] → Derives lists (.chain tier) ts [t]
  | joined {tier ls l rs r} {o : Token} : Derives lists (.chain tier) ls [l] →
      o.kind = .operator → o.text ∈ tier.operators → Derives lists tier.part rs [r] →
      Derives lists (.chain tier) (ls ++ o :: rs) [.group [l, .leaf o, r]]
  | prefixed {ts t} {o : Token} : o.kind = .operator → o.text ∈ ["-", "&", "!"] →
      Derives lists .unary ts [t] → Derives lists .unary (o :: ts) [.group [.leaf o, t]]
  | plain {ts t} : Derives lists .application ts [t] → Derives lists .unary ts [t]
  | alone {ts t} : Derives lists (.primary none) ts [t] → Derives lists .application ts [t]
  | applied {fs f xs x} : Derives lists .application fs [f] →
      Derives lists (.primary (some f)) xs [x] →
      Derives lists .application (fs ++ xs) [.group [f, x]]
  | number {callee} {t : Token} : t.kind = .number → Derives lists (.primary callee) [t] [.leaf t]
  | name {callee} {t : Token} : t.kind = .name → Derives lists (.primary callee) [t] [.leaf t]
  | parenthesized {callee ts ns} {o c : Token} : o.kind = .leftParen →
      Derives lists (.segments (lists.separators callee)) ts ns → c.kind = .rightParen →
      Derives lists (.primary callee) (o :: (ts ++ [c])) [.group ns]
  | bracketed {callee ts ns} {o c : Token} : o.kind = .leftBracket →
      Derives lists (.segments [.comma, .semicolon]) ts ns → c.kind = .rightBracket →
      Derives lists (.primary callee) (o :: (ts ++ [c])) [.group (.leaf o :: ns)]
  | gap {separators} : Derives lists (.segments separators) [] []
  | segment {separators ts t} : Derives lists .expression ts [t] →
      Derives lists (.segments separators) ts [t]
  | separated {separators ls ns rs ms} {s : Token} : Derives lists (.segments []) ls ns →
      s.kind ∈ separators → Derives lists (.segments separators) rs ms →
      Derives lists (.segments separators) (ls ++ s :: rs) (ns ++ .leaf s :: ms)

variable {lists : Lists} {phrase : Phrase} {tokens : List Token} {nodes : List Node}

/-- Segments may be separated in more ways. -/
theorem Derives.more_separators {fewer more : List TokenKind}
    (h : Derives lists (.segments fewer) tokens nodes) (hsub : ∀ kind ∈ fewer, kind ∈ more) :
    Derives lists (.segments more) tokens nodes := by
  generalize hp : Phrase.segments fewer = phrase at h
  induction h with
  | gap => exact .gap
  | segment h _ => exact .segment h
  | separated h hs _ _ ih =>
      obtain rfl := Phrase.segments.inj hp
      exact .separated h (hsub _ hs) (ih hp)
  | single | joined | prefixed | plain | alone | applied | number | name | parenthesized
  | bracketed => cases hp

/-- A grammar with lists in more places derives more. -/
theorem Derives.mono {more : Lists} (hle : ∀ callee, lists callee = true → more callee = true)
    (h : Derives lists phrase tokens nodes) : Derives more phrase tokens nodes := by
  induction h with
  | single _ ih => exact .single ih
  | joined _ hk ht _ ihl ihr => exact .joined ihl hk ht ihr
  | prefixed hk ht _ ih => exact .prefixed hk ht ih
  | plain _ ih => exact .plain ih
  | alone _ ih => exact .alone ih
  | applied _ _ ihf ihx => exact .applied ihf ihx
  | number hk => exact .number hk
  | name hk => exact .name hk
  | @parenthesized callee _ _ _ _ ho _ hc ih =>
      refine .parenthesized ho (ih.more_separators fun kind hkind => ?_) hc
      by_cases hcallee : lists callee = true
      · rw [Lists.separators, if_pos hcallee] at hkind
        rwa [Lists.separators, if_pos (hle callee hcallee)]
      · rw [Lists.separators, if_neg hcallee] at hkind
        cases hkind
  | bracketed ho _ hc ih => exact .bracketed ho ih hc
  | gap => exact .gap
  | segment _ ih => exact .segment ih
  | separated _ hs _ ihl ihr => exact .separated ihl hs ihr

/-- A leaf on its own is an operand or a separator. -/
theorem Derives.kind_of_leaf_mem (h : Derives lists phrase tokens nodes) {t : Token}
    (ht : .leaf t ∈ nodes) : t.kind = .number ∨ t.kind = .name ∨ t.kind ∈ phrase.separators := by
  induction h with
  | @single tier _ _ _ ih =>
      have hkind := ih ht
      rw [tier.separators_part] at hkind
      exact hkind
  | joined | prefixed | applied | parenthesized | bracketed => cases List.mem_singleton.mp ht
  | plain _ ih | alone _ ih => exact ih ht
  | number hk =>
      obtain rfl := Node.leaf.inj (List.mem_singleton.mp ht)
      exact .inl hk
  | name hk =>
      obtain rfl := Node.leaf.inj (List.mem_singleton.mp ht)
      exact .inr (.inl hk)
  | gap => cases ht
  | segment _ ih =>
      rcases ih ht with hk | hk | hk
      · exact .inl hk
      · exact .inr (.inl hk)
      · cases hk
  | separated _ hs _ ihl ihr =>
      rcases List.mem_append.mp ht with ht | ht
      · rcases ihl ht with hk | hk | hk
        · exact .inl hk
        · exact .inr (.inl hk)
        · cases hk
      · rcases List.mem_cons.mp ht with heq | ht
        · obtain rfl := Node.leaf.inj heq
          exact .inr (.inr hs)
        · exact ihr ht

/-- Without separators there is room for one expression. -/
theorem Derives.length_le_one (h : Derives lists (.segments []) tokens nodes) :
    nodes.length ≤ 1 := by
  cases h with
  | gap | segment => simp
  | separated _ hs => cases hs

/-- A chain that is no operation is a single part. -/
theorem Derives.of_chain {tier : Tier} {tree : Node} (h : Derives lists (.chain tier) tokens [tree])
    (hshape : ∀ l o r, tree ≠ .group [l, .leaf o, r]) : Derives lists tier.part tokens [tree] := by
  cases h with
  | single h => exact h
  | joined => exact absurd rfl (hshape _ _ _)

/-- Where only arguments may be lists, a name that is applied is applied to a primary. -/
theorem Derives.argument_of_applied {callee : Token} {argument : Node} (hk : callee.kind = .name)
    (h : Derives .asArguments .expression tokens [.group [.leaf callee, argument]]) :
    ∃ ts, Derives .asArguments (.primary (some (.leaf callee))) ts [argument] := by
  have hshape : ∀ l o r, Node.group [.leaf callee, argument] ≠ .group [l, .leaf o, r] := by
    intro l o r heq
    cases heq
  have hsum : Derives .asArguments (.chain .sum) tokens _ := h.of_chain hshape
  have hproduct : Derives .asArguments (.chain .product) tokens _ := hsum.of_chain hshape
  have hpower : Derives .asArguments (.chain .power) tokens _ := hproduct.of_chain hshape
  have hunary : Derives .asArguments .unary tokens _ := hpower.of_chain hshape
  cases hunary with
  | prefixed ho => cases hk.symm.trans ho
  | plain happlication =>
      cases happlication with
      | alone hprimary =>
          cases hprimary with
          | parenthesized _ hsegments => exact absurd hsegments.length_le_one (by simp)
          | bracketed ho => cases hk.symm.trans ho
      | applied _ hargument => exact ⟨_, hargument⟩

/-- A unary phrase is a chain of one at every tier. -/
theorem Derives.chain_of_unary {tree : Node} (h : Derives lists .unary tokens [tree])
    (tier : Tier) : Derives lists (.chain tier) tokens [tree] := by
  have hpower : Derives lists (.chain .power) tokens [tree] := .single h
  have hproduct : Derives lists (.chain .product) tokens [tree] := .single hpower
  have hsum : Derives lists (.chain .sum) tokens [tree] := .single hproduct
  cases tier with
  | power => exact hpower
  | product => exact hproduct
  | sum => exact hsum
  | assignment => exact .single hsum

/-- A primary that is no argument is an expression. -/
theorem Derives.expression_of_primary {tree : Node}
    (h : Derives lists (.primary none) tokens [tree]) : Derives lists .expression tokens [tree] :=
  .chain_of_unary (.plain (.alone h)) .assignment

end Reckoner
