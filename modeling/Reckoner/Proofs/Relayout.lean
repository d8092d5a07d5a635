import Reckoner.Proofs.Printing
import Reckoner.Proofs.Reshaping

/-!
# The same line laid out differently

Blanks only separate. A line that is typed again with other blanks, wherever they are and however
many, is read as tokens of the same sorts with the same texts (`laidOut_scan_iff`): a token goes on
up to a blank, a bracket or a character of another class, and needs nothing else to end it.

From there on spans are carried along and never looked at. Resolving brackets goes by the sorts of
the tokens, so it groups both lines alike or blames tokens at the same place (`resolveInto_alike`),
and the passes cannot tell nodes apart that differ in their spans only. So the trees that are built
have the same texts too (`buildTree_alike`).
-/

namespace Reckoner

/-! ## Tokens -/

/-- Two tokens differ in nothing but their spans. -/
structure Token.SameText (t u : Token) : Prop where
  kind : u.kind = t.kind
  text : u.text = t.text

/-- The characters are the texts of the tokens in their order, with blanks anywhere between them.
There have to be some where the next characters would continue the run that a token is. -/
inductive LaidOut : List Token → List Char → Prop
  | nil : LaidOut [] []
  | blank {c : Char} {tokens : List Token} {chars : List Char} : CharClass.of c = .blank →
    LaidOut tokens chars → LaidOut tokens (c :: chars)
  | token {t : Token} {c : Char} {cs : List Char} {tokens : List Token} {chars : List Char} :
    t.text = String.ofList (c :: cs) → EndsRun c chars → LaidOut tokens chars →
    LaidOut (t :: tokens) (c :: (cs ++ chars))

namespace LaidOut

variable {t : Token} {tokens : List Token} {chars : List Char}

/-- No blank is needed behind a bracket. -/
theorem bracket {c : Char} {kind : TokenKind} (htext : t.text = String.ofList [c])
    (hc : bracketKind? c = some kind) (h : LaidOut tokens chars) :
    LaidOut (t :: tokens) (c :: chars) :=
  .token htext (fun _ _ _ => ⟨kind, class_of_bracketKind? hc⟩) h

/-- No blank is needed in front of a bracket or at the end of the line, and one is enough
elsewhere. -/
theorem lexed (ht : t.Lexed) (hends : EndsRuns chars) (h : LaidOut tokens chars) :
    LaidOut (t :: tokens) (t.text.toList ++ chars) := by
  obtain ⟨c, cs, hrun, htext, -⟩ := ht
  have hchars : t.text.toList = c :: cs := by rw [htext, String.toList_ofList]
  rw [hchars]
  exact .token htext (hends.endsRun hrun) h

end LaidOut

/-- Characters that tokens are laid out as are read as these tokens. -/
theorem forall₂_scanFrom {tokens : List Token} {chars : List Char} (h : LaidOut tokens chars)
    (hlexed : ∀ t ∈ tokens, t.Lexed) (position : Nat) :
    List.Forall₂ Token.SameText tokens (scanFrom position chars) := by
  induction h generalizing position with
  | nil =>
      rw [scanFrom]
      exact .nil
  | blank hc _ ih =>
      rw [scanFrom, hc]
      exact ih hlexed (position + 1)
  | @token t c cs tokens chars htext hends _ ih =>
      obtain ⟨⟨d, ds, hrun, htext', hkind⟩, hrest⟩ := List.forall_mem_cons.mp hlexed
      obtain ⟨rfl, rfl⟩ := List.cons.inj (String.ofList_injective (htext'.symm.trans htext))
      rw [scanFrom_longest hrun hends]
      exact .cons ⟨hkind.symm, htext.symm⟩ (ih hrest _)

/-- Every text lays out the tokens that it is read as. -/
theorem laidOut_scanFrom (position : Nat) (chars : List Char) :
    LaidOut (scanFrom position chars) chars := by
  induction position, chars using scanFrom.induct with
  | case1 position =>
      rw [scanFrom]
      exact .nil
  | case2 position c cs hc ih =>
      rw [scanFrom, hc]
      exact .blank hc ih
  | case3 position c cs kind hc ih =>
      rw [scanFrom, hc]
      exact .token (t := Token.ofChars c [] position) rfl (fun _ _ _ => ⟨kind, hc⟩) ih
  | case4 position c cs hblank hbracket run ih =>
      have hends : EndsRun c (cs.dropWhile (CharClass.of c).continuedBy) := by
        intro d hd heq
        have hstop := List.head?_dropWhile_not (CharClass.of c).continuedBy cs
        rw [hd] at hstop
        simp [CharClass.continuedBy, heq] at hstop
      have hlaidOut := LaidOut.token (t := Token.ofChars c run position) rfl hends ih
      rw [List.takeWhile_append_dropWhile] at hlaidOut
      rw [scanFrom]
      split
      · next hc => exact (hblank hc).elim
      · next kind hc => exact (hbracket kind hc).elim
      · exact hlaidOut

/-- Where tokens are laid out, those with the same texts are. -/
theorem LaidOut.of_sameText {tokens tokens' : List Token} {chars : List Char}
    (h : LaidOut tokens' chars) (hsame : List.Forall₂ Token.SameText tokens tokens') :
    LaidOut tokens chars := by
  induction h generalizing tokens with
  | nil =>
      cases hsame
      exact .nil
  | blank hc _ ih => exact .blank hc (ih hsame)
  | token htext hends _ ih =>
      cases hsame with
      | cons hfirst hrest => exact .token (hfirst.text.symm.trans htext) hends (ih hrest)

/-- **Only the texts of the tokens matter.** The lines that lay out the tokens of a line are those
whose tokens differ from them in nothing but their spans. -/
theorem laidOut_scan_iff {line again : String} :
    LaidOut (scan line) again.toList ↔ List.Forall₂ Token.SameText (scan line) (scan again) := by
  constructor
  · exact fun h => forall₂_scanFrom h (fun _ ht => Token.lexed_of_mem_scan ht) 0
  · exact fun h => (laidOut_scanFrom 0 again.toList).of_sameText h

/-! ## Trees -/

namespace Node.SameText

variable {n m : Node}

/-- What passes on from the nodes of two rows to their groups holds of trees with the same text. -/
theorem induct {motive : Node → Node → Prop}
    (leaf : ∀ t u : Token, u.kind = t.kind → u.text = t.text → motive (.leaf t) (.leaf u))
    (group : ∀ row row', List.Forall₂ SameText row row' → List.Forall₂ motive row row' →
      motive (.group row) (.group row'))
    (h : n.SameText m) : motive n m :=
  SameText.rec (motive_1 := fun n m _ => motive n m)
    (motive_2 := fun row row' _ => List.Forall₂ motive row row')
    (fun hk htext => leaf _ _ hk htext) (fun hrow ih => group _ _ hrow ih) .nil
    (fun _ _ ih ihrest => .cons ih ihrest) h

theorem refl (n : Node) : n.SameText n := by
  induction n using Node.rec (motive_2 := fun row => List.Forall₂ SameText row row) with
  | leaf t => exact .leaf rfl rfl
  | group row ih => exact .group ih
  | nil => exact .nil
  | cons node rest ih ihrest => exact .cons ih ihrest

theorem symm (h : n.SameText m) : m.SameText n := by
  refine h.induct (motive := fun n m => m.SameText n) ?_ ?_
  · intro t u hk htext
    exact .leaf hk.symm htext.symm
  · intro row row' _ ih
    exact .group ih.flip

/-- No parentheses are a case of having got some. -/
theorem rewraps (h : n.SameText m) : n.Rewraps m := by
  refine h.induct (motive := Rewraps) ?_ ?_
  · intro t u hk htext
    exact .leaf hk htext
  · intro row row' _ ih
    exact .group ih

theorem flat_eq (h : n.SameText m) : m.flat = n.flat := by
  refine h.induct (motive := fun n m => m.flat = n.flat) ?_ ?_
  · intro t u _ htext
    exact htext
  · intro row row' hrow ih
    have hflat : row'.map Node.flat = row.map Node.flat := by
      rw [← List.forall₂_eq_eq_eq, List.forall₂_map_left_iff, List.forall₂_map_right_iff]
      exact ih.flip
    rw [flat, flat, isLiteral_of_rewraps (hrow.imp fun _ _ => rewraps), flatAll_eq_map,
      flatAll_eq_map, hflat]

/-- A call shape is one wherever its tokens are. -/
theorem signature?_eq (h : n.SameText m) : m.signature? = n.signature? := by
  cases hn : n.signature? with
  | none => exact h.rewraps.signature?_eq_none hn
  | some signature => exact h.symm.rewraps.signature?_eq hn

theorem forall₂_arguments (h : n.SameText m) :
    List.Forall₂ SameText n.arguments m.arguments := by
  cases h with
  | leaf hk htext => exact .cons (.leaf hk htext) .nil
  | @group row row' hrow =>
      rw [arguments, arguments, isLiteral_of_rewraps (hrow.imp fun _ _ => rewraps)]
      split
      · exact .cons (.group hrow) .nil
      · cases hrow with
        | nil => exact .nil
        | cons hfirst hrest =>
            exact List.rel_map (fun _ _ => .group)
              (forall₂_cutAt (fun hnode => hnode.rewraps.isLeafOf_eq _) (.cons hfirst hrest))

end Node.SameText

/-! ## Resolving brackets -/

/-- Two rows of tokens come to related results, or to errors of one sort about tokens at the same
place. -/
inductive BuildsAlike (tokens tokens' : List Token) {α β : Type} (related : α → β → Prop) :
    Except Unbalanced α → Except Unbalanced β → Prop
  | ok {a : α} {b : β} (h : related a b) : BuildsAlike tokens tokens' related (.ok a) (.ok b)
  | error (fault : BracketFault) {t u : Token} (hmem : (t, u) ∈ tokens.zip tokens')
    (hsort : (CalcError.unbalanced ⟨fault, t⟩).sort = (CalcError.unbalanced ⟨fault, u⟩).sort) :
    BuildsAlike tokens tokens' related (.error ⟨fault, t⟩) (.error ⟨fault, u⟩)

section Resolving

variable {whole whole' : List Token}

/-- The tokens have the same text and stand at the same place of two rows. -/
def Token.Corresponds (whole whole' : List Token) (t u : Token) : Prop :=
  t.SameText u ∧ (t, u) ∈ whole.zip whole'

theorem Token.SameText.buildsAlike {α β : Type} {related : α → β → Prop} {t u : Token}
    (h : t.SameText u) (hmem : (t, u) ∈ whole.zip whole') (fault : BracketFault) :
    BuildsAlike whole whole' related (.error ⟨fault, t⟩) (.error ⟨fault, u⟩) := by
  refine .error fault hmem ?_
  rw [CalcError.sort, CalcError.sort, Token.isParenthesis, Token.isParenthesis, h.kind]

theorem sameText_bracketGroup {o o' : Token} (h : o.SameText o') {contents contents' : List Node}
    (hcontents : List.Forall₂ Node.SameText contents contents') :
    (bracketGroup o contents).SameText (bracketGroup o' contents') := by
  rw [bracketGroup, bracketGroup, h.kind]
  split
  · exact .group (.cons (.leaf h.kind h.text) hcontents)
  · exact .group hcontents

/-- Reading corresponding tokens into corresponding open brackets groups them alike. -/
theorem resolveInto_alike {tokens tokens' : List Token} {stack stack' : OpenBrackets}
    {current current' : List Node}
    (hstack : List.Forall₂ (fun opened opened' =>
      Token.Corresponds whole whole' opened.1 opened'.1 ∧
        List.Forall₂ Node.SameText opened.2 opened'.2) stack stack')
    (hcurrent : List.Forall₂ Node.SameText current current')
    (htokens : List.Forall₂ (Token.Corresponds whole whole') tokens tokens') :
    BuildsAlike whole whole' (List.Forall₂ Node.SameText) (resolveInto stack current tokens)
      (resolveInto stack' current' tokens') := by
  induction htokens generalizing stack stack' current current' with
  | nil =>
      cases hstack with
      | nil => exact .ok (List.rel_reverse hcurrent)
      | cons hopened _ => exact hopened.1.1.buildsAlike hopened.1.2 .neverClosed
  | @cons t u tokens tokens' htoken _ ih =>
      obtain ⟨hsame, hmem⟩ := htoken
      rw [resolveInto.eq_def, resolveInto.eq_def stack']
      dsimp only
      rw [hsame.kind]
      split
      · exact ih (.cons ⟨⟨hsame, hmem⟩, hcurrent⟩ hstack) .nil
      · split
        · cases hstack with
          | nil => exact hsame.buildsAlike hmem .unexpected
          | cons hopened houter =>
              obtain ⟨⟨hopener, -⟩, hbefore⟩ := hopened
              dsimp only
              rw [hopener.kind]
              split
              · have hgroup := sameText_bracketGroup hopener (List.rel_reverse hcurrent)
                exact ih houter (.cons hgroup hbefore)
              · exact hsame.buildsAlike hmem .unexpected
        · exact ih hstack (.cons (.leaf hsame.kind hsame.text) hcurrent)

end Resolving

/-! ## Arranging -/

section Arranging

variable {row row' : List Node}

theorem forall₂_foldEach (tiers : List (List String)) (h : List.Forall₂ Node.SameText row row') :
    List.Forall₂ Node.SameText (foldEach tiers row) (foldEach tiers row') := by
  induction tiers generalizing row row' with
  | nil => exact h
  | cons tier tiers ih =>
      refine ih ?_
      cases h with
      | nil => exact .nil
      | cons hfirst hrest =>
          exact forall₂_foldFrom (fun h => h.rewraps.isOperand_eq)
            (fun h => h.rewraps.isOperatorIn_eq tier)
            (fun _ _ _ hl hop hr => .group (.cons hl (.cons hop (.cons hr .nil)))) hfirst hrest

theorem forall₂_arrange (h : List.Forall₂ Node.SameText row row') :
    List.Forall₂ Node.SameText (arrange row) (arrange row') := by
  have hpair : List.Forall₂ Node.SameText (pairOperands row) (pairOperands row') := by
    cases h with
    | nil => exact .nil
    | cons hfirst hrest =>
        exact forall₂_pairFrom (fun h => h.rewraps.isOperand_eq)
          (fun _ _ ha hb => .group (.cons ha (.cons hb .nil))) hfirst hrest
  have hwrap := forall₂_wrapFrom (fun h => h.rewraps.isOperatorIn_eq unaryOperators)
    (fun h => h.rewraps.opensOperand_eq) (fun _ hop hx => .group (.cons hop (.cons hx .nil)))
    (Eq.refl (opensOperand none)) hpair
  exact forall₂_foldEach operatorTiers hwrap

theorem Node.SameText.mapGroups_arrange {n m : Node} (h : n.SameText m) :
    (n.mapGroups arrange).SameText (m.mapGroups arrange) := by
  refine h.induct (motive := fun n m => (n.mapGroups arrange).SameText (m.mapGroups arrange)) ?_ ?_
  · intro t u hk htext
    exact .leaf hk htext
  · intro row row' _ ih
    rw [mapGroups, mapGroups, mapGroupsAll_eq_map, mapGroupsAll_eq_map]
    refine .group (forall₂_arrange ?_)
    rwa [List.forall₂_map_left_iff, List.forall₂_map_right_iff]

/-- The last answer stands where the operator begins, so it has another span in each line. -/
theorem forall₂_continueAnswer (h : List.Forall₂ Node.SameText row row') :
    List.Forall₂ Node.SameText (continueAnswer row) (continueAnswer row') := by
  cases h with
  | nil => exact .nil
  | cons hfirst hrest =>
      cases hfirst with
      | group hrow => exact .cons (.group hrow) hrest
      | @leaf t u hk htext =>
          have hcontinues : continuesAnswer (.leaf u) = continuesAnswer (.leaf t) := by
            simp [continuesAnswer, Node.isOperatorIn, hk, htext]
          rw [continueAnswer, continueAnswer, hcontinues]
          split
          · exact .cons (.leaf rfl rfl) (.cons (.leaf hk htext) hrest)
          · exact .cons (.leaf hk htext) hrest

theorem forall₂_everywhere_arrange (h : List.Forall₂ Node.SameText row row') :
    List.Forall₂ Node.SameText (everywhere arrange row) (everywhere arrange row') := by
  rw [everywhere, everywhere, mapGroupsAll_eq_map, mapGroupsAll_eq_map]
  refine forall₂_arrange ?_
  rw [List.forall₂_map_left_iff, List.forall₂_map_right_iff]
  exact h.imp fun _ _ => Node.SameText.mapGroups_arrange

end Arranging

/-- **Trees do not depend on the layout.** Tokens that differ in their spans only are built into
trees that do, or are refused alike for tokens at the same place. -/
theorem buildTree_alike {tokens tokens' : List Token}
    (h : List.Forall₂ Token.SameText tokens tokens') :
    BuildsAlike tokens tokens' Node.SameText (buildTree tokens) (buildTree tokens') := by
  have hplaces : List.Forall₂ (Token.Corresponds tokens tokens') tokens tokens' :=
    List.forall₂_iff_zip.mpr
      ⟨h.length_eq, fun hmem => ⟨(List.forall₂_iff_zip.mp h).2 hmem, hmem⟩⟩
  have hresolve : BuildsAlike tokens tokens' (List.Forall₂ Node.SameText) (resolve tokens)
      (resolve tokens') := resolveInto_alike .nil .nil hplaces
  rw [buildTree_eq, buildTree_eq]
  generalize resolve tokens = resolved at hresolve
  generalize resolve tokens' = resolved' at hresolve
  cases hresolve with
  | ok hrow => exact .ok (.group (forall₂_everywhere_arrange (forall₂_continueAnswer hrow)))
  | error fault hmem hsort => exact .error fault hmem hsort

end Reckoner
