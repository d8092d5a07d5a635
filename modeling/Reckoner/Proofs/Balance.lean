import Mathlib.Data.List.Forall2
import Reckoner.CalcError
import Reckoner.Proofs.Lexemes
import Reckoner.Proofs.Nesting

/-!
# Which bracket is at fault

`Balanced` says which words of parentheses and square brackets are well nested, and
`InnermostOpen`, `Misfit` and `FirstMisfit` say by means of it which bracket of any other row of
tokens is at fault: the first closing bracket that does not close the innermost open one, or else
the innermost one that stays open. None of them keeps a stack. `resolve` does, and agrees with them
(`resolve_balanced`): while it reads, the brackets on its stack are those that `OpenBehind` finds
open in what has been read, with balanced stretches between them.

Where `resolve` succeeds nothing is lost. Written out again, its nodes have the kinds of the tokens
at every place, and each leaf is the token of its place (`Nested.outline`).
-/

namespace Reckoner

/-! ## Balanced words -/

/-- Parentheses and square brackets that are well nested. -/
inductive Balanced : List TokenKind → Prop
  | nil : Balanced []
  | parentheses {w} : Balanced w → Balanced (.leftParen :: (w ++ [.rightParen]))
  | brackets {w} : Balanced w → Balanced (.leftBracket :: (w ++ [.rightBracket]))
  | append {v w} : Balanced v → Balanced w → Balanced (v ++ w)

theorem Balanced.enclose {o c : TokenKind} {w : List TokenKind} (hk : o.closer? = some c)
    (h : Balanced w) : Balanced (o :: (w ++ [c])) := by
  rcases kinds_of_closer?_eq_some hk with ⟨rfl, rfl⟩ | ⟨rfl, rfl⟩
  · exact .parentheses h
  · exact .brackets h

/-- The parentheses and square brackets among some tokens. -/
def bracketWord (tokens : List Token) : List TokenKind :=
  (tokens.map Token.kind).filter fun kind =>
    kind ∈ [.leftParen, .rightParen, .leftBracket, .rightBracket]

@[simp] theorem bracketWord_append (ts us : List Token) :
    bracketWord (ts ++ us) = bracketWord ts ++ bracketWord us := by
  simp [bracketWord]

theorem bracketWord_of_opener {t : Token} (h : t.kind.closer?.isSome = true) (ts : List Token) :
    bracketWord (t :: ts) = t.kind :: bracketWord ts := by
  have hk : t.kind ∈ [TokenKind.leftParen, .rightParen, .leftBracket, .rightBracket] := by
    revert h
    cases t.kind <;> decide
  rw [bracketWord, List.map_cons, List.filter_cons, if_pos (decide_eq_true hk)]
  rfl

theorem bracketWord_of_closer {t : Token} (h : t.kind.isCloser = true) (ts : List Token) :
    bracketWord (t :: ts) = t.kind :: bracketWord ts := by
  have hk : t.kind ∈ [TokenKind.leftParen, .rightParen, .leftBracket, .rightBracket] := by
    revert h
    cases t.kind <;> decide
  rw [bracketWord, List.map_cons, List.filter_cons, if_pos (decide_eq_true hk)]
  rfl

theorem bracketWord_of_leaf {t : Token} (ho : t.kind.closer? = none)
    (hc : t.kind.isCloser = false) (ts : List Token) :
    bracketWord (t :: ts) = bracketWord ts := by
  have hk : t.kind ∉ [TokenKind.leftParen, .rightParen, .leftBracket, .rightBracket] := by
    revert ho hc
    cases t.kind <;> decide
  rw [bracketWord, List.map_cons, List.filter_cons, decide_eq_false hk]
  rfl

/-! ## Faults -/

/-- The innermost bracket that is open behind some tokens: what is behind it is balanced. -/
def InnermostOpen (tokens : List Token) (o : Token) : Prop :=
  ∃ before inner, tokens = before ++ o :: inner ∧ o.kind ∈ [.leftParen, .leftBracket] ∧
    Balanced (bracketWord inner)

/-- Behind some tokens, `t` closes a bracket that is not the innermost open one. -/
def Misfit (tokens : List Token) (t : Token) : Prop :=
  t.kind ∈ [.rightParen, .rightBracket] ∧
    ∀ o, InnermostOpen tokens o → o.kind.closer? ≠ some t.kind

/-- `t` is the first closing bracket of a row that closes nothing. -/
def FirstMisfit (tokens : List Token) (t : Token) : Prop :=
  ∃ before after, tokens = before ++ t :: after ∧ Misfit before t ∧
    ∀ earlier u later, before = earlier ++ u :: later → ¬Misfit earlier u

/-- The bracket is the one that makes a row of tokens unbalanced. -/
def Unbalanced.Blames (u : Unbalanced) (tokens : List Token) : Prop :=
  match u.fault with
  | .unexpected => FirstMisfit tokens u.token
  | .neverClosed => (∀ t, ¬FirstMisfit tokens t) ∧ InnermostOpen tokens u.token

/-! ## Brackets left open -/

/-- The brackets that a word leaves open behind some open ones, innermost first; none if a closing
bracket does not fit. -/
def leftOpen : List TokenKind → List TokenKind → Option (List TokenKind)
  | stack, [] => some stack
  | stack, kind :: rest =>
    if kind.closer?.isSome then leftOpen (kind :: stack) rest
    else if stack.head?.bind TokenKind.closer? = some kind then leftOpen stack.tail rest
    else none

theorem leftOpen_append (v w : List TokenKind) : ∀ stack,
    leftOpen stack (v ++ w) = (leftOpen stack v).bind fun stack => leftOpen stack w := by
  induction v with
  | nil => exact fun stack => rfl
  | cons kind rest ih =>
      intro stack
      rw [List.cons_append, leftOpen, leftOpen]
      split
      · exact ih _
      · split
        · exact ih _
        · rfl

theorem leftOpen_opener {kind : TokenKind} (h : kind.closer?.isSome = true)
    (stack rest : List TokenKind) :
    leftOpen stack (kind :: rest) = leftOpen (kind :: stack) rest := by
  rw [leftOpen, if_pos h]

theorem leftOpen_closer {o c : TokenKind} (hk : o.closer? = some c)
    (stack rest : List TokenKind) : leftOpen (o :: stack) (c :: rest) = leftOpen stack rest := by
  rw [leftOpen, (isCloser_of_closer?_eq_some hk).2, if_neg (by decide)]
  exact if_pos hk

theorem Balanced.leftOpen_eq {w : List TokenKind} (h : Balanced w) :
    ∀ stack, leftOpen stack w = some stack := by
  have hpair : ∀ {o c v}, o.closer? = some c → (∀ stack, leftOpen stack v = some stack) →
      ∀ stack, leftOpen stack (o :: (v ++ [c])) = some stack := by
    intro o c v hk ih stack
    rw [leftOpen_opener (by rw [hk]; rfl), leftOpen_append, ih]
    exact leftOpen_closer hk stack []
  induction h with
  | nil => exact fun stack => rfl
  | parentheses _ ih => exact hpair rfl ih
  | brackets _ ih => exact hpair rfl ih
  | append _ _ ihv ihw =>
      intro stack
      rw [leftOpen_append, ihv]
      exact ihw stack

/-- The brackets open behind some tokens, innermost first, with balanced stretches in between. -/
inductive OpenBehind : List Token → List Token → Prop
  | none {ts} : Balanced (bracketWord ts) → OpenBehind ts []
  | more {ts o inner stack} : OpenBehind ts stack → o.kind.closer?.isSome = true →
      Balanced (bracketWord inner) → OpenBehind (ts ++ o :: inner) (o :: stack)

namespace OpenBehind

variable {ts us stack : List Token} {o c : Token}

theorem append (h : OpenBehind ts stack) (hus : Balanced (bracketWord us)) :
    OpenBehind (ts ++ us) stack := by
  cases h with
  | none hts =>
      refine .none ?_
      rw [bracketWord_append]
      exact hts.append hus
  | more h ho hinner =>
      rw [List.append_assoc, List.cons_append]
      refine .more h ho ?_
      rw [bracketWord_append]
      exact hinner.append hus

theorem close (h : OpenBehind ts (o :: stack)) (hk : o.kind.closer? = some c.kind) :
    OpenBehind (ts ++ [c]) stack := by
  cases h with
  | @more ts _ inner _ h ho hinner =>
      rw [List.append_assoc]
      refine h.append ?_
      rw [List.cons_append, bracketWord_of_opener ho, bracketWord_append,
        bracketWord_of_closer (isCloser_of_closer?_eq_some hk).1]
      exact hinner.enclose hk

theorem innermostOpen (h : OpenBehind ts (o :: stack)) : InnermostOpen ts o := by
  cases h with
  | @more before _ inner _ _ ho hinner =>
      refine ⟨before, inner, rfl, ?_, hinner⟩
      revert ho
      cases o.kind <;> decide

theorem leftOpen_eq (h : OpenBehind ts stack) :
    leftOpen [] (bracketWord ts) = some (stack.map Token.kind) := by
  induction h with
  | none hts => exact hts.leftOpen_eq []
  | more _ ho hinner ih =>
      rw [bracketWord_append, bracketWord_of_opener ho, leftOpen_append, ih, Option.bind_some,
        leftOpen_opener ho]
      exact hinner.leftOpen_eq _

/-- All innermost open brackets are of one kind. The tokens before them need not be balanced, so
this is not a matter of comparing two stacks. -/
theorem kind_eq (h : OpenBehind ts stack) {o' : Token} (ho' : InnermostOpen ts o') :
    ∃ o outer, stack = o :: outer ∧ o.kind = o'.kind := by
  obtain ⟨before, inner, rfl, hk, hinner⟩ := ho'
  have hopener : o'.kind.closer?.isSome = true := by
    revert hk
    cases o'.kind <;> decide
  have hstack := h.leftOpen_eq
  rw [bracketWord_append, bracketWord_of_opener hopener, leftOpen_append] at hstack
  obtain ⟨outer, -, hlast⟩ := Option.bind_eq_some_iff.mp hstack
  rw [leftOpen_opener hopener, hinner.leftOpen_eq] at hlast
  obtain ⟨o, rest, rfl, hkind, -⟩ := List.map_eq_cons_iff.mp (Option.some.inj hlast).symm
  exact ⟨o, rest, rfl, hkind⟩

end OpenBehind

/-! ## Reading any tokens -/

/-- Every closing bracket so far has closed the innermost open one. -/
def AllFit (tokens : List Token) : Prop :=
  ∀ before t after, tokens = before ++ t :: after → ¬Misfit before t

theorem AllFit.snoc {ts : List Token} {t : Token} (h : AllFit ts) (ht : ¬Misfit ts t) :
    AllFit (ts ++ [t]) := by
  intro before u after heq
  rcases List.eq_nil_or_concat after with rfl | ⟨later, last, rfl⟩
  · obtain ⟨rfl, hu⟩ := List.append_inj' heq rfl
    obtain rfl := List.singleton_inj.mp hu
    exact ht
  · have hsnoc : ts ++ [t] = (before ++ u :: later) ++ [last] := by simpa using heq
    exact h before u later (List.append_inj' hsnoc rfl).1

theorem AllFit.not_firstMisfit {ts : List Token} (h : AllFit ts) (t : Token) :
    ¬FirstMisfit ts t := by
  rintro ⟨before, after, heq, ht, -⟩
  exact h before t after heq ht

theorem not_misfit_of_not_closer {t : Token} (h : t.kind.isCloser = false) (ts : List Token) :
    ¬Misfit ts t := by
  rintro ⟨hk, -⟩
  revert h hk
  cases t.kind <;> decide

/-- What reading comes to behind tokens that all fit, and that leave the brackets on its stack
open. -/
theorem resolveInto_balanced (rest : List Token) :
    ∀ (before : List Token) (stack : OpenBrackets) (current : List Node),
      OpenBehind before (stack.map Prod.fst) → AllFit before →
      match resolveInto stack current rest with
      | .ok _ => Balanced (bracketWord (before ++ rest))
      | .error u => u.Blames (before ++ rest) := by
  induction rest with
  | nil =>
      intro before stack current hopen hfit
      rw [List.append_nil]
      cases stack with
      | nil =>
          cases hopen with
          | none hbalanced => exact hbalanced
      | cons opened stack => exact ⟨hfit.not_firstMisfit, hopen.innermostOpen⟩
  | cons t rest ih =>
      intro before stack current hopen hfit
      have happend : before ++ t :: rest = (before ++ [t]) ++ rest := by simp
      rw [happend]
      by_cases hopener : t.kind.closer?.isSome = true
      · have hcloser : t.kind.isCloser = false := by
          revert hopener
          cases t.kind <;> decide
        rw [resolveInto_opener hopener]
        exact ih _ _ _ (.more hopen hopener .nil)
          (hfit.snoc (not_misfit_of_not_closer hcloser before))
      · have hleaf : t.kind.closer? = none := by simpa using hopener
        cases hcloser : t.kind.isCloser with
        | false =>
            rw [resolveInto_leaf hleaf hcloser]
            refine ih _ _ _ (hopen.append ?_) (hfit.snoc (not_misfit_of_not_closer hcloser before))
            rw [bracketWord_of_leaf hleaf hcloser]
            exact .nil
        | true =>
            -- the bracket on the stack decides, because all innermost open ones are of its kind
            have hmisfit : (∀ o before', stack.head? = some (o, before') →
                o.kind.closer? ≠ some t.kind) → FirstMisfit (before ++ [t] ++ rest) t := by
              intro hstack
              refine ⟨before, rest, by simp, ⟨?_, fun o' ho' => ?_⟩, hfit⟩
              · revert hcloser
                cases t.kind <;> decide
              · obtain ⟨o, outer, heq, hkind⟩ := hopen.kind_eq ho'
                obtain ⟨opened, others, rfl, rfl, -⟩ := List.map_eq_cons_iff.mp heq
                rw [← hkind]
                exact hstack opened.1 opened.2 rfl
            cases stack with
            | nil =>
                rw [resolveInto.eq_def]
                simp only [hleaf, hcloser, Option.isSome_none, Bool.false_eq_true, if_false, if_true]
                exact hmisfit fun _ _ hnone => by cases hnone
            | cons opened stack =>
                obtain ⟨o, nodes⟩ := opened
                by_cases hk : o.kind.closer? = some t.kind
                · rw [resolveInto_closer hk]
                  have hfits : ¬Misfit before t := fun h => h.2 o hopen.innermostOpen hk
                  exact ih _ _ _ (hopen.close hk) (hfit.snoc hfits)
                · rw [resolveInto.eq_def]
                  simp only [hleaf, hcloser, hk, Option.isSome_none, Bool.false_eq_true, if_false,
                    if_true]
                  refine hmisfit fun o' before' heq => ?_
                  obtain ⟨rfl, -⟩ := Prod.mk.inj (Option.some.inj heq)
                  exact hk

theorem exists_resolveInto (rest : List Token) : ∀ (stack : OpenBrackets) (current : List Node),
    leftOpen (stack.map fun opened => opened.1.kind) (bracketWord rest) = some [] →
      ∃ row, resolveInto stack current rest = .ok row := by
  induction rest with
  | nil =>
      intro stack current h
      obtain rfl := List.map_eq_nil_iff.mp (Option.some.inj h)
      exact ⟨_, rfl⟩
  | cons t rest ih =>
      intro stack current h
      by_cases hopener : t.kind.closer?.isSome = true
      · rw [bracketWord_of_opener hopener, leftOpen_opener hopener] at h
        rw [resolveInto_opener hopener]
        exact ih _ _ h
      · have hleaf : t.kind.closer? = none := by simpa using hopener
        cases hcloser : t.kind.isCloser with
        | false =>
            rw [bracketWord_of_leaf hleaf hcloser] at h
            rw [resolveInto_leaf hleaf hcloser]
            exact ih _ _ h
        | true =>
            rw [bracketWord_of_closer hcloser, leftOpen, if_neg hopener] at h
            cases stack with
            | nil => cases h
            | cons opened stack =>
                obtain ⟨o, nodes⟩ := opened
                by_cases hk : o.kind.closer? = some t.kind
                · rw [resolveInto_closer hk]
                  exact ih _ _ ((if_pos hk).symm.trans h)
                · cases (if_neg hk).symm.trans h

/-! ## Writing a tree out again -/

mutual

/-- What a tree writes at the places of its line: the kind of each, and the token of a leaf. -/
def Node.outline : Node → List (TokenKind × Option Token)
  | .leaf t => [(t.kind, some t)]
  | .group children =>
    if Node.isLiteral children then outlineAll children ++ [(.rightBracket, none)]
    else (.leftParen, none) :: (outlineAll children ++ [(.rightParen, none)])

def outlineAll : List Node → List (TokenKind × Option Token)
  | [] => []
  | node :: rest => node.outline ++ outlineAll rest

end

/-- The token is of the kind of a place, and it is the leaf of the place if there is one. -/
def Token.FillsPlace (place : TokenKind × Option Token) (t : Token) : Prop :=
  t.kind = place.1 ∧ ∀ leaf, place.2 = some leaf → leaf = t

theorem Nested.not_isLiteral {tokens : List Token} {row : List Node} (h : Nested tokens row) :
    Node.isLiteral row = false := by
  cases h with
  | nil => rfl
  | @leaf t ts row ho hc _ =>
      have hk : t.kind ≠ .leftBracket := by
        intro hk
        rw [hk] at ho
        cases ho
      simpa [Node.isLiteral, Node.isLeafOf] using hk
  | group hk =>
      rw [bracketGroup]
      split <;> rfl

theorem Nested.outline {tokens : List Token} {row : List Node} (h : Nested tokens row) :
    List.Forall₂ Token.FillsPlace (outlineAll row) tokens := by
  have hleaf : ∀ t : Token, t.FillsPlace (t.kind, some t) :=
    fun t => ⟨rfl, fun leaf hleaf => (Option.some.inj hleaf).symm⟩
  have hbracket : ∀ (t : Token) kind, t.kind = kind → t.FillsPlace (kind, none) :=
    fun t kind hk => ⟨hk, fun leaf hleaf => by cases hleaf⟩
  induction h with
  | nil => exact .nil
  | leaf _ _ _ ih => exact .cons (hleaf _) ih
  | @group o c ts contents rest row hk hcontents _ ihcontents ih =>
      have hassoc : o :: (ts ++ c :: rest) = (o :: (ts ++ [c])) ++ rest := by simp
      rw [outlineAll, hassoc]
      refine List.rel_append (?_ : List.Forall₂ Token.FillsPlace _ _) ih
      rcases kinds_of_closer?_eq_some hk with ⟨ho, hc⟩ | ⟨ho, hc⟩
      · rw [bracketGroup_of_leftParen ho, Node.outline, hcontents.not_isLiteral]
        exact .cons (hbracket o _ ho)
          (List.rel_append ihcontents (.cons (hbracket c _ hc) .nil))
      · have hlit : Node.isLiteral (.leaf o :: contents) = true := by
          simp [Node.isLiteral, Node.isLeafOf, ho]
        rw [bracketGroup_of_leftBracket ho, Node.outline, if_pos hlit]
        exact .cons (hleaf o) (List.rel_append ihcontents (.cons (hbracket c _ hc) .nil))

/-! ## Rows of tokens -/

/-- The bracket that is at fault is one of the tokens, and a parenthesis or a square bracket. -/
theorem Unbalanced.Blames.mem_and_isBracket {u : Unbalanced} {tokens : List Token}
    (h : u.Blames tokens) : u.token ∈ tokens ∧
      u.token.kind ∈ [.leftParen, .rightParen, .leftBracket, .rightBracket] := by
  have hkinds : ∀ kind : TokenKind, kind ∈ [.rightParen, .rightBracket] ∨
      kind ∈ [.leftParen, .leftBracket] →
        kind ∈ [.leftParen, .rightParen, .leftBracket, .rightBracket] := by
    intro kind
    cases kind <;> decide
  rw [Blames] at h
  split at h
  · obtain ⟨before, after, rfl, hmisfit, -⟩ := h
    exact ⟨by simp, hkinds _ (.inl hmisfit.1)⟩
  · obtain ⟨-, before, inner, rfl, hk, -⟩ := h
    exact ⟨by simp, hkinds _ (.inr hk)⟩

/-- Where the bracket that is at fault stands in its line. -/
theorem Unbalanced.Blames.place {u : Unbalanced} {line : String} (h : u.Blames (scan line)) :
    ∃ (i : Nat) (c : Char), u.token.start = i ∧ u.token.stop = i + 1 ∧ line.toList[i]? = some c ∧
      bracketKind? c = some u.token.kind ∧ u.token.text = String.ofList [c] := by
  obtain ⟨hmem, hk⟩ := h.mem_and_isBracket
  obtain ⟨before, c, cs, after, hline, -, htoken⟩ := exists_run_of_mem_scanFrom hmem
  have hkind : u.token.kind = Token.kindOf c cs := by rw [htoken]; rfl
  rw [hkind] at hk
  obtain ⟨rfl, hbracket⟩ := Token.eq_of_kindOf_bracket hk
  refine ⟨before.length, c, ?_, ?_, ?_, hbracket.trans (congrArg some hkind.symm), ?_⟩
  · rw [htoken, Token.ofChars, Nat.zero_add]
  · rw [htoken, Token.ofChars, Nat.zero_add]
    rfl
  · rw [hline, List.getElem?_append_right (Nat.le_refl _), Nat.sub_self]
    rfl
  · rw [htoken, Token.ofChars]

/-- **Resolving accepts the balanced rows and blames the right bracket of any other.** Where it
succeeds its nodes, written out, are the tokens: of the same kinds in every place, and the very
tokens where they are leaves. Where it fails the error is about the first closing bracket that does
not close the innermost open one, or else about the innermost one that is left open; it is of the
sort of that bracket, and in a line that was scanned its span is where the bracket stands. -/
theorem resolve_balanced (tokens : List Token) :
    ((∃ row, resolve tokens = .ok row) ↔ Balanced (bracketWord tokens))
      ∧ (∀ row, resolve tokens = .ok row → List.Forall₂ Token.FillsPlace (outlineAll row) tokens)
      ∧ ∀ u, resolve tokens = .error u → u.Blames tokens
        ∧ ((CalcError.unbalanced u).sort = .unbalancedParenthesis
              ∧ u.token.kind ∈ [.leftParen, .rightParen]
            ∨ (CalcError.unbalanced u).sort = .unbalancedBracket
              ∧ u.token.kind ∈ [.leftBracket, .rightBracket])
        ∧ ∀ line, tokens = scan line → ∃ (i : Nat) (c : Char),
          u.token.start = i ∧ u.token.stop = i + 1 ∧ line.toList[i]? = some c
            ∧ bracketKind? c = some u.token.kind ∧ u.token.text = String.ofList [c] := by
  have hrun := resolveInto_balanced tokens [] [] [] (.none .nil)
    (fun before t after heq => by simp at heq)
  refine ⟨⟨fun ⟨row, hrow⟩ => ?_, fun hbalanced => ?_⟩, fun row hrow => ?_, fun u hu => ?_⟩
  · rw [resolve] at hrow
    rw [hrow] at hrun
    exact hrun
  · exact exists_resolveInto tokens [] [] (hbalanced.leftOpen_eq [])
  · exact (resolve_eq_ok_iff.mp hrow).outline
  · rw [resolve] at hu
    rw [hu] at hrun
    have hblames : u.Blames tokens := hrun
    refine ⟨hblames, ?_, fun line hline => (hline ▸ hblames).place⟩
    have hk := hblames.mem_and_isBracket.2
    rw [CalcError.sort, Token.isParenthesis]
    revert hk
    cases u.token.kind <;> decide

/-- In `f([x)` the parenthesis is at fault, because it is the square bracket that is open. -/
theorem resolve_bracket_closed_by_parenthesis :
    ∃ tokens u, tokens = scan "f([x)" ∧ resolve tokens = .error u ∧ u.fault = .unexpected
      ∧ FirstMisfit tokens u.token ∧ (CalcError.unbalanced u).sort = .unbalancedParenthesis
      ∧ u.token.start = 4 ∧ ¬Balanced (bracketWord tokens) := by
  have hscan : scan "f([x)" = [⟨.name, "f", 0, 1⟩, ⟨.leftParen, "(", 1, 2⟩,
    ⟨.leftBracket, "[", 2, 3⟩, ⟨.name, "x", 3, 4⟩, ⟨.rightParen, ")", 4, 5⟩] := by decide +kernel
  have hresolve : resolve (scan "f([x)") = .error ⟨.unexpected, ⟨.rightParen, ")", 4, 5⟩⟩ := by
    rw [hscan]
    rfl
  obtain ⟨hblames, -, -⟩ := (resolve_balanced (scan "f([x)")).2.2 _ hresolve
  refine ⟨_, _, rfl, hresolve, rfl, hblames, rfl, rfl, fun hbalanced => ?_⟩
  obtain ⟨row, hrow⟩ := (resolve_balanced (scan "f([x)")).1.mpr hbalanced
  cases hresolve.symm.trans hrow

end Reckoner
