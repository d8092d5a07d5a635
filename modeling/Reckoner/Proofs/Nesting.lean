import Reckoner.Node.Parse

/-!
# Well-nested brackets

`Nested` says without a stack which nodes a row of tokens resolves to: every token that is no
parenthesis and no square bracket is a leaf, and an opening bracket, the nodes behind it and the
bracket that closes it are one group. `resolve` computes exactly this relation
(`resolve_eq_ok_iff`): reading a nested row leaves the open brackets as they were
(`resolveInto_of_nested`), and a successful run closes all of them with nested rows in between
(`Closing`).

A line that goes on from the last answer is one that begins with the token of the answer
(`Nested.withAnswer`).
-/

namespace Reckoner

/-- The tokens resolve to the nodes. -/
inductive Nested : List Token → List Node → Prop
  | nil : Nested [] []
  | leaf {t : Token} {ts row} : t.kind.closer? = none → t.kind.isCloser = false → Nested ts row →
      Nested (t :: ts) (.leaf t :: row)
  | group {o c : Token} {ts contents rest row} : o.kind.closer? = some c.kind →
      Nested ts contents → Nested rest row →
      Nested (o :: (ts ++ c :: rest)) (bracketGroup o contents :: row)

theorem bracketGroup_of_leftParen {o : Token} (h : o.kind = .leftParen) (contents : List Node) :
    bracketGroup o contents = .group contents := by
  rw [bracketGroup, h]
  rfl

theorem bracketGroup_of_leftBracket {o : Token} (h : o.kind = .leftBracket)
    (contents : List Node) : bracketGroup o contents = .group (.leaf o :: contents) := by
  rw [bracketGroup, h]
  rfl

theorem kinds_of_closer?_eq_some {kind closer : TokenKind} (h : kind.closer? = some closer) :
    (kind = .leftParen ∧ closer = .rightParen) ∨ (kind = .leftBracket ∧ closer = .rightBracket) := by
  cases kind <;> cases h
  · exact .inl ⟨rfl, rfl⟩
  · exact .inr ⟨rfl, rfl⟩

namespace Nested

theorem append {ts us : List Token} {row others : List Node} (h : Nested ts row)
    (h' : Nested us others) : Nested (ts ++ us) (row ++ others) := by
  induction h with
  | nil => exact h'
  | leaf ho hc _ ih => exact .leaf ho hc ih
  | @group o c ts contents rest row hk hts _ _ ih =>
      rw [List.cons_append, List.append_assoc]
      exact .group hk hts ih

/-- A bracket pair with nested tokens inside. -/
theorem bracket {o c : Token} {ts : List Token} {contents : List Node}
    (hk : o.kind.closer? = some c.kind) (h : Nested ts contents) :
    Nested (o :: (ts ++ [c])) [bracketGroup o contents] :=
  .group hk h .nil

theorem single {t : Token} (ho : t.kind.closer? = none) (hc : t.kind.isCloser = false) :
    Nested [t] [.leaf t] :=
  .leaf ho hc .nil

end Nested

/-- The bracket that closes another is no opening one. -/
theorem isCloser_of_closer?_eq_some {kind closer : TokenKind} (h : kind.closer? = some closer) :
    closer.isCloser = true ∧ closer.closer? = none := by
  rcases kinds_of_closer?_eq_some h with ⟨-, rfl⟩ | ⟨-, rfl⟩ <;> exact ⟨rfl, rfl⟩

/-! ## Reading nested tokens -/

section Steps

variable {stack : OpenBrackets} {current : List Node} {t : Token} {rest : List Token}

theorem resolveInto_opener (h : t.kind.closer?.isSome = true) :
    resolveInto stack current (t :: rest) = resolveInto ((t, current) :: stack) [] rest := by
  rw [resolveInto.eq_def]
  exact if_pos h

theorem resolveInto_leaf (ho : t.kind.closer? = none) (hc : t.kind.isCloser = false) :
    resolveInto stack current (t :: rest) = resolveInto stack (.leaf t :: current) rest := by
  rw [resolveInto.eq_def]
  simp [ho, hc]

theorem resolveInto_closer {o : Token} {before : List Node} (hk : o.kind.closer? = some t.kind) :
    resolveInto ((o, before) :: stack) current (t :: rest)
      = resolveInto stack (bracketGroup o current.reverse :: before) rest := by
  obtain ⟨hclose, hopen⟩ := isCloser_of_closer?_eq_some hk
  rw [resolveInto.eq_def]
  simp [hopen, hclose, hk]

end Steps

/-- Nested tokens add their nodes to the innermost open bracket, whatever is open around them. -/
theorem resolveInto_of_nested {ts : List Token} {row : List Node} (h : Nested ts row) :
    ∀ (stack : OpenBrackets) (current : List Node) (rest : List Token),
      resolveInto stack current (ts ++ rest) = resolveInto stack (row.reverse ++ current) rest := by
  induction h with
  | nil => intro stack current rest; rfl
  | leaf ho hc _ ih =>
      intro stack current rest
      rw [List.cons_append, resolveInto_leaf ho hc, ih]
      simp
  | @group o c ts contents rest' row hk _ _ ihts ihrest =>
      intro stack current rest
      have ho : o.kind.closer?.isSome = true := by rw [hk]; rfl
      rw [List.cons_append, List.append_assoc, resolveInto_opener ho, ihts, List.cons_append,
        resolveInto_closer hk, List.append_nil, List.reverse_reverse, ihrest]
      simp

/-! ## Successful runs -/

/-- A run from open brackets to the nodes of the line: nested tokens and then the bracket that
closes the innermost open one, until none is left. -/
inductive Closing : OpenBrackets → List Node → List Token → List Node → Prop
  | done {current ts row} : Nested ts row → Closing [] current ts (current.reverse ++ row)
  | close {o c : Token} {before stack current ts contents rest row} : Nested ts contents →
      o.kind.closer? = some c.kind →
      Closing stack (bracketGroup o (current.reverse ++ contents) :: before) rest row →
      Closing ((o, before) :: stack) current (ts ++ c :: rest) row

/-- Tokens that resolve to one node may be read before the rest of a run. -/
theorem Closing.prepend {stack : OpenBrackets} {node : Node} {current row : List Node}
    {ts rest : List Token} (h : Closing stack (node :: current) rest row) (hts : Nested ts [node]) :
    Closing stack current (ts ++ rest) row := by
  generalize hcur : node :: current = nodes at h
  cases h with
  | done hrest =>
      subst hcur
      rw [List.reverse_cons, List.append_assoc]
      exact .done (hts.append hrest)
  | close hin hk hrest =>
      subst hcur
      rw [← List.append_assoc]
      refine .close (hts.append hin) hk ?_
      rwa [List.reverse_cons, List.append_assoc] at hrest

theorem closing_of_resolveInto {ts : List Token} {row : List Node} :
    ∀ {stack : OpenBrackets} {current : List Node},
      resolveInto stack current ts = .ok row → Closing stack current ts row := by
  induction ts with
  | nil =>
      intro stack current h
      cases stack with
      | nil =>
          obtain rfl := Except.ok.inj h
          rw [← List.append_nil current.reverse]
          exact .done .nil
      | cons opened stack => cases h
  | cons t ts ih =>
      intro stack current h
      by_cases hopen : t.kind.closer?.isSome = true
      · rw [resolveInto_opener hopen] at h
        cases ih h with
        | close hin hk hrest =>
            have := hrest.prepend (.bracket hk hin)
            simpa using this
      · have ho : t.kind.closer? = none := by simpa using hopen
        cases hclose : t.kind.isCloser with
        | false =>
            rw [resolveInto_leaf ho hclose] at h
            exact (ih h).prepend (.single ho hclose)
        | true =>
            cases stack with
            | nil =>
                rw [resolveInto.eq_def] at h
                simp [ho, hclose] at h
            | cons opened stack =>
                obtain ⟨o, before⟩ := opened
                by_cases hk : o.kind.closer? = some t.kind
                · rw [resolveInto_closer hk, ← List.append_nil current.reverse] at h
                  exact Closing.close .nil hk (ih h)
                · rw [resolveInto.eq_def] at h
                  simp [ho, hclose, hk] at h

/-- Resolving succeeds on the well-nested rows of tokens, with the nodes they are nested to. -/
theorem resolve_eq_ok_iff {ts : List Token} {row : List Node} :
    resolve ts = .ok row ↔ Nested ts row := by
  constructor
  · intro h
    generalize hstack : ([] : OpenBrackets) = stack at *
    cases closing_of_resolveInto h with
    | done hts => exact hts
  · intro h
    have := resolveInto_of_nested h [] [] []
    rw [List.append_nil, List.append_nil] at this
    rw [resolve, this, resolveInto, List.reverse_reverse]

/-! ## The last answer -/

/-- The tokens of a line with the last answer in front if the line goes on from it. -/
def withAnswer : List Token → List Token
  | [] => []
  | t :: ts =>
    if continuesAnswer (.leaf t) then ⟨.name, answerName, t.start, t.start⟩ :: t :: ts else t :: ts

theorem Nested.withAnswer {ts : List Token} {row : List Node} (h : Nested ts row) :
    Nested (withAnswer ts) (continueAnswer row) := by
  cases h with
  | nil => exact .nil
  | @leaf t ts row ho hc hrow =>
      rw [Reckoner.withAnswer, continueAnswer]
      split
      · exact .leaf rfl rfl (.leaf ho hc hrow)
      · exact .leaf ho hc hrow
  | @group o c ts contents rest row hk hts hrest =>
      have ho : o.kind ≠ .operator := fun h => by rw [h] at hk; cases hk
      have hcont : continuesAnswer (.leaf o) = false := by
        simp [continuesAnswer, Node.isOperatorIn, ho]
      rw [Reckoner.withAnswer, hcont]
      have hgroup : continueAnswer (bracketGroup o contents :: row)
          = bracketGroup o contents :: row := by
        rw [bracketGroup]
        split <;> rfl
      rw [hgroup]
      exact .group hk hts hrest

end Reckoner
