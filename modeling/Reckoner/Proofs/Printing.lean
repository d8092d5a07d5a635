import Mathlib.Data.List.Forall2
import Reckoner.Proofs.Leaves

/-!
# Printed trees

The text of a tree can be read again. Blanks and brackets end every run, so each leaf comes back as
a token of its own, and the brackets that the text has around every group make a group of what is
between them (`Node.Regular.readsAs_flat`). Before it is arranged, the line that a tree is printed
as is the tree again, but for the spans of its tokens (`resolve_scan_flat`).

The groups of `Node.Regular` are the ones that this holds for: no bracket is in them, except for the
one in front of a list.
-/

namespace Reckoner

/-- The same tree, with its tokens at other places of a line. -/
inductive Node.SameText : Node → Node → Prop
  | leaf {t u : Token} : u.kind = t.kind → u.text = t.text → SameText (.leaf t) (.leaf u)
  | group {row row' : List Node} : List.Forall₂ SameText row row' →
      SameText (.group row) (.group row')

/-- Every leaf could stand in a line, and none is a bracket but the one in front of a list. -/
inductive Node.Regular : Node → Prop
  | leaf {t : Token} : t.Lexed → t.kind.closer? = none → t.kind.isCloser = false →
      Regular (.leaf t)
  | group {row : List Node} : (∀ n ∈ row, Regular n) → Regular (.group row)
  | literal {opener : Token} {row : List Node} : opener.kind = .leftBracket →
      opener.text = String.ofList ['['] → (∀ n ∈ row, Regular n) →
      Regular (.group (.leaf opener :: row))

theorem Node.Regular.not_isLiteral {row : List Node} (h : ∀ n ∈ row, n.Regular) :
    isLiteral row = false := by
  cases row with
  | nil => rfl
  | cons first rest =>
      cases h first List.mem_cons_self with
      | leaf _ ho _ =>
          rw [isLiteral, isLeafOf, beq_eq_false_iff_ne]
          intro hk
          rw [hk] at ho
          cases ho
      | group | literal => rfl

/-! ## Trees of lines -/

theorem regular_of_nested {tokens : List Token} {row : List Node} (h : Nested tokens row)
    (hlexed : ∀ t ∈ tokens, t.Lexed) : ∀ n ∈ row, n.Regular := by
  induction h with
  | nil => exact List.forall_mem_nil _
  | leaf ho hc _ ih =>
      obtain ⟨ht, hts⟩ := List.forall_mem_cons.mp hlexed
      exact List.forall_mem_cons.mpr ⟨.leaf ht ho hc, ih hts⟩
  | @group o c ts contents rest row hk _ _ ihcontents ihrest =>
      have hts : ∀ t ∈ ts, t.Lexed := fun t ht => hlexed t (by simp [ht])
      have hrest : ∀ t ∈ rest, t.Lexed := fun t ht => hlexed t (by simp [ht])
      refine List.forall_mem_cons.mpr ⟨?_, ihrest hrest⟩
      rcases kinds_of_closer?_eq_some hk with ⟨ho, -⟩ | ⟨ho, -⟩
      · rw [bracketGroup_of_leftParen ho]
        exact .group (ihcontents hts)
      · rw [bracketGroup_of_leftBracket ho]
        exact .literal ho ((hlexed o List.mem_cons_self).text_of_leftBracket ho) (ihcontents hts)

theorem regular_arrange {row : List Node} (h : ∀ n ∈ row, n.Regular) :
    ∀ n ∈ arrange row, n.Regular := by
  refine forall_mem_arrange (fun a b _ _ ha hb => ?_) (fun op x _ hop hx => ?_)
    (fun _ _ l op r _ _ _ hl hop hr => ?_) h
  · exact .group (by simp [ha, hb])
  · exact .group (by simp [hop, hx])
  · exact .group (by simp [hl, hop, hr])

mutual

theorem Node.Regular.mapGroups_arrange {node : Node} (h : node.Regular) :
    (node.mapGroups arrange).Regular := by
  cases h with
  | leaf ht ho hc => exact .leaf ht ho hc
  | group hrow => exact .group (regular_arrange (regular_mapGroupsAll hrow))
  | @literal opener row hk htext hrow =>
      have hsplit : arrange (.leaf opener :: mapGroupsAll arrange row)
          = .leaf opener :: arrange (mapGroupsAll arrange row) :=
        arrange_append_cons notDangling_nil (.inr hk) _
      rw [Node.mapGroups, mapGroupsAll, Node.mapGroups, hsplit]
      exact .literal hk htext (regular_arrange (regular_mapGroupsAll hrow))

theorem regular_mapGroupsAll {row : List Node} (h : ∀ n ∈ row, n.Regular) :
    ∀ n ∈ mapGroupsAll arrange row, n.Regular := by
  cases row with
  | nil => exact List.forall_mem_nil _
  | cons first rest =>
      obtain ⟨hfirst, hrest⟩ := List.forall_mem_cons.mp h
      exact List.forall_mem_cons.mpr ⟨hfirst.mapGroups_arrange, regular_mapGroupsAll hrest⟩

end

theorem regular_of_buildTree {line : String} {tree : Node} (h : buildTree (scan line) = .ok tree) :
    tree.Regular := by
  obtain ⟨row, hnested, rfl⟩ := exists_of_buildTree h
  have hregular := regular_of_nested hnested.withAnswer fun _ ht => lexed_of_mem_withAnswer ht
  exact .group (regular_arrange (regular_mapGroupsAll hregular))

/-! ## Reading a text -/

/-- Some characters are read as tokens that resolve to a row, whatever is behind them. -/
def ReadsAs (chars : List Char) (row : List Node) : Prop :=
  ∀ position rest, EndsRuns rest → ∃ tokens behind again,
    scanFrom position (chars ++ rest) = tokens ++ scanFrom behind rest ∧ Nested tokens again ∧
      List.Forall₂ Node.SameText row again

namespace ReadsAs

theorem nil : ReadsAs [] [] :=
  fun position _ _ => ⟨[], position, [], rfl, .nil, .nil⟩

theorem leaf {t : Token} (h : t.Lexed) (ho : t.kind.closer? = none)
    (hc : t.kind.isCloser = false) : ReadsAs t.text.toList [.leaf t] := by
  intro position rest hrest
  obtain ⟨c, cs, hrun, htext, hkind⟩ := h
  have hscan := scanFrom_run hrun hrest position
  rw [hkind] at ho hc
  refine ⟨[.ofChars c cs position], position + 1 + cs.length, [.leaf (.ofChars c cs position)], ?_,
    .leaf ho hc .nil, ?_⟩
  · rw [htext, String.toList_ofList]
    exact hscan
  · exact .cons (.leaf hkind.symm htext.symm) .nil

/-- Two rows with a blank between them are read one after the other. -/
theorem append {chars more : List Char} {row others : List Node} (h : ReadsAs chars row)
    (h' : ReadsAs more others) : ReadsAs (chars ++ ' ' :: more) (row ++ others) := by
  intro position rest hrest
  have hblank : CharClass.of ' ' = .blank := by decide
  have hends : EndsRuns (' ' :: (more ++ rest)) := by
    intro d hd
    obtain rfl := Option.some.inj hd
    exact .inl hblank
  obtain ⟨tokens, behind, again, hscan, hnested, hsame⟩ := h position _ hends
  obtain ⟨tokens', behind', again', hscan', hnested', hsame'⟩ := h' (behind + 1) rest hrest
  have hstep : scanFrom behind (' ' :: (more ++ rest)) = scanFrom (behind + 1) (more ++ rest) := by
    rw [scanFrom, hblank]
  refine ⟨tokens ++ tokens', behind', again ++ again', ?_, hnested.append hnested',
    List.rel_append hsame hsame'⟩
  rw [List.append_assoc, List.cons_append, hscan, hstep, hscan', List.append_assoc]

/-- Two brackets around a row are read as the group of the row. -/
theorem bracket {t : Token} {o c : Char} {closer : TokenKind} {chars : List Char} {row : List Node}
    (h : ReadsAs chars row) (ho : bracketKind? o = some t.kind) (htext : t.text = String.ofList [o])
    (hc : bracketKind? c = some closer) (hk : t.kind.closer? = some closer) :
    ReadsAs (o :: (chars ++ [c])) [bracketGroup t row] := by
  intro position rest hrest
  have hends : EndsRuns (c :: rest) := by
    intro d hd
    obtain rfl := Option.some.inj hd
    exact .inr ⟨closer, class_of_bracketKind? hc⟩
  obtain ⟨tokens, behind, again, hscan, hnested, hsame⟩ := h (position + 1) (c :: rest) hends
  let opening := Token.ofChars o [] position
  let closing := Token.ofChars c [] behind
  have hopening : opening.kind = t.kind := Token.kindOf_bracket ho
  have hclosing : closing.kind = closer := Token.kindOf_bracket hc
  have hpair : opening.kind.closer? = some closing.kind := by rw [hopening, hclosing, hk]
  have hclose : scanFrom behind (c :: rest) = closing :: scanFrom (behind + 1) rest := by
    rw [scanFrom, class_of_bracketKind? hc]
  refine ⟨opening :: (tokens ++ [closing]), behind + 1, [bracketGroup opening again], ?_,
    hnested.bracket hpair, .cons ?_ .nil⟩
  · rw [List.cons_append, scanFrom, class_of_bracketKind? ho]
    simp only [List.append_assoc, List.cons_append, List.nil_append, hscan, hclose, opening]
  · rw [bracketGroup, bracketGroup, hopening]
    split
    · exact .group (.cons (.leaf hopening htext.symm) hsame)
    · exact .group hsame

end ReadsAs

mutual

/-- The text of a regular tree is read as the tree. -/
theorem Node.Regular.readsAs_flat {node : Node} (h : node.Regular) :
    ReadsAs node.flat.toList [node] := by
  cases h with
  | leaf ht ho hc =>
      rw [Node.flat]
      exact .leaf ht ho hc
  | @group row hrow =>
      let opener : Token := ⟨.leftParen, "(", 0, 0⟩
      have hbracket : bracketKind? '(' = some opener.kind := rfl
      have hread := (readsAs_flatAll hrow).bracket (c := ')') hbracket rfl rfl rfl
      have hchars : (Node.group row).flat.toList
          = '(' :: ((" ".intercalate (flatAll row)).toList ++ [')']) := by
        rw [Node.flat, Node.Regular.not_isLiteral hrow, if_neg Bool.false_ne_true,
          String.toList_append, String.toList_append]
        rfl
      rw [hchars]
      exact hread
  | @literal opener row hk hopener hrow =>
      have hbracket : bracketKind? '[' = some opener.kind := by rw [hk]; rfl
      have hclose : opener.kind.closer? = some .rightBracket := by rw [hk]; rfl
      have hread := (readsAs_flatAll hrow).bracket (c := ']') hbracket hopener rfl hclose
      have hlit : Node.isLiteral (.leaf opener :: row) = true := by
        rw [Node.isLiteral, Node.isLeafOf, hk]
        rfl
      have hchars : (Node.group (.leaf opener :: row)).flat.toList
          = '[' :: ((" ".intercalate (flatAll row)).toList ++ [']']) := by
        rw [Node.flat, if_pos hlit, flatAll, List.drop_one, List.tail_cons, String.toList_append,
          String.toList_append]
        rfl
      rw [hchars]
      rwa [bracketGroup_of_leftBracket hk] at hread

/-- Blanks separate the nodes of a row. -/
theorem readsAs_flatAll {row : List Node} (h : ∀ n ∈ row, n.Regular) :
    ReadsAs (" ".intercalate (flatAll row)).toList row := by
  cases row with
  | nil => exact .nil
  | cons first rest =>
      obtain ⟨hfirst, hrest⟩ := List.forall_mem_cons.mp h
      cases rest with
      | nil =>
        rw [flatAll, flatAll, String.intercalate_singleton]
        exact hfirst.readsAs_flat
      | cons second rest =>
        have hread := hfirst.readsAs_flat.append (readsAs_flatAll hrest)
        rw [flatAll, flatAll, String.intercalate_cons_cons]
        simpa [flatAll] using hread

end

/-- **A printed tree is read as itself.** The brackets in the text of a regular tree resolve to the
tree, but for the spans of its tokens. -/
theorem resolve_scan_flat {tree : Node} (h : tree.Regular) :
    ∃ again, resolve (scan tree.flat) = .ok [again] ∧ tree.SameText again := by
  have hnothing : EndsRuns [] := fun d hd => by cases hd
  obtain ⟨tokens, behind, row, hscan, hnested, hsame⟩ := h.readsAs_flat 0 [] hnothing
  rw [List.append_nil, scanFrom, List.append_nil] at hscan
  cases hsame with
  | @cons _ again _ _ hagain hrest =>
      cases hrest
      refine ⟨again, ?_, hagain⟩
      rw [scan, hscan]
      exact resolve_eq_ok_iff.mpr hnested

end Reckoner
