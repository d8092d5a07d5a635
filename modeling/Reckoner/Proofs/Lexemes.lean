import Mathlib.Data.List.TakeWhile
import Reckoner.Node.Arrange
import Reckoner.Token.Scan

/-!
# Reading tokens again

A token of a line is a whole run of characters, and nothing but its text decides what sort of
token it is (`Token.Lexed`). So its text is read as one token of the same sort when it
stands alone (`Token.Lexed.scan_text`), and what is a number in a line can be read as one
(`Token.Lexed.read?_isSome`).
-/

namespace Reckoner

/-- The characters `c :: cs` are one run: a bracket alone, or characters of one class. -/
def IsRun (c : Char) (cs : List Char) : Prop :=
  match CharClass.of c with
  | .blank => False
  | .bracket _ => cs = []
  | cls => ∀ d ∈ cs, cls.continuedBy d = true

/-- Every run ends in front of these characters: there are none, or a blank or a bracket comes
first. -/
def EndsRuns (rest : List Char) : Prop :=
  ∀ d, rest.head? = some d →
    CharClass.of d = .blank ∨ ∃ kind, CharClass.of d = .bracket kind

/-- The characters behind a run that begins with `c` do not continue it: there are none, or they
begin with one of another class, or the run is a bracket. -/
def EndsRun (c : Char) (rest : List Char) : Prop :=
  ∀ d, rest.head? = some d → CharClass.of d = CharClass.of c →
    ∃ kind, CharClass.of c = .bracket kind

/-- The run of a class is cut off where a character does not continue it. -/
theorem takeWhile_append_of_stop {p : Char → Bool} {cs rest : List Char}
    (hcs : ∀ d ∈ cs, p d = true) (hrest : ∀ d, rest.head? = some d → p d = false) :
    (cs ++ rest).takeWhile p = cs ∧ (cs ++ rest).dropWhile p = rest := by
  have hhead : rest.takeWhile p = [] ∧ rest.dropWhile p = rest := by
    cases rest with
    | nil => exact ⟨rfl, rfl⟩
    | cons d ds =>
      rw [List.takeWhile_cons, List.dropWhile_cons, hrest d rfl]
      exact ⟨rfl, rfl⟩
  rw [List.takeWhile_append_of_pos hcs, List.dropWhile_append_of_pos hcs, hhead.1, hhead.2,
    List.append_nil]
  exact ⟨rfl, rfl⟩

/-- A run that goes as far as it can is one token, and the characters behind it are read as if they
stood alone. -/
theorem scanFrom_longest {c : Char} {cs rest : List Char} (h : IsRun c cs) (hrest : EndsRun c rest)
    (position : Nat) :
    scanFrom position (c :: (cs ++ rest))
      = Token.ofChars c cs position :: scanFrom (position + 1 + cs.length) rest := by
  rw [IsRun] at h
  rw [scanFrom]
  cases hc : CharClass.of c with
  | blank =>
    rw [hc] at h
    exact h.elim
  | bracket kind =>
    rw [hc] at h
    subst h
    rfl
  | word | symbol =>
    rw [hc] at h
    have hstop : ∀ d, rest.head? = some d → (CharClass.of c).continuedBy d = false := by
      intro d hd
      rw [CharClass.continuedBy, beq_eq_false_iff_ne]
      intro heq
      obtain ⟨kind, hkind⟩ := hrest d hd heq
      rw [hc] at hkind
      cases hkind
    rw [hc] at hstop
    obtain ⟨htake, hdrop⟩ := takeWhile_append_of_stop h hstop
    simp only [htake, hdrop]

/-- What ends every run ends a run in front of it. -/
theorem EndsRuns.endsRun {rest : List Char} (h : EndsRuns rest) {c : Char} {cs : List Char}
    (hrun : IsRun c cs) : EndsRun c rest := by
  intro d hd heq
  rcases h d hd with hblank | ⟨kind, hbracket⟩
  · rw [IsRun, ← heq, hblank] at hrun
    exact hrun.elim
  · exact ⟨kind, heq.symm.trans hbracket⟩

/-- A run that ends is one token, whatever is behind it. -/
theorem scanFrom_run {c : Char} {cs rest : List Char} (h : IsRun c cs) (hrest : EndsRuns rest)
    (position : Nat) :
    scanFrom position (c :: (cs ++ rest))
      = Token.ofChars c cs position :: scanFrom (position + 1 + cs.length) rest :=
  scanFrom_longest h (hrest.endsRun h) position

theorem scanFrom_of_isRun {c : Char} {cs : List Char} (h : IsRun c cs) (position : Nat) :
    scanFrom position (c :: cs) = [Token.ofChars c cs position] := by
  have hnothing : EndsRuns [] := fun d hd => by cases hd
  have hrun := scanFrom_run h hnothing position
  rwa [List.append_nil, scanFrom] at hrun

/-- A token is a run, and its span is where the run stands in the line. -/
theorem exists_run_of_mem_scanFrom {position : Nat} {chars : List Char} {t : Token}
    (h : t ∈ scanFrom position chars) :
    ∃ before c cs after, chars = before ++ c :: (cs ++ after) ∧ IsRun c cs ∧
      t = Token.ofChars c cs ((position + before.length : Nat) : Int) := by
  induction position, chars using scanFrom.induct with
  | case1 position =>
    rw [scanFrom] at h
    cases h
  | case2 position c cs hc ih =>
    rw [scanFrom, hc] at h
    obtain ⟨before, d, ds, after, rfl, hrun, rfl⟩ := ih h
    exact ⟨c :: before, d, ds, after, rfl, hrun, by
      rw [List.length_cons, Nat.add_right_comm, Nat.add_assoc]⟩
  | case3 position c cs kind hc ih =>
    rw [scanFrom, hc] at h
    rcases List.mem_cons.mp h with rfl | h
    · exact ⟨[], c, [], cs, rfl, by simp [IsRun, hc], rfl⟩
    · obtain ⟨before, d, ds, after, rfl, hrun, rfl⟩ := ih h
      exact ⟨c :: before, d, ds, after, rfl, hrun, by
        rw [List.length_cons, Nat.add_right_comm, Nat.add_assoc]⟩
  | case4 position c cs hblank hbracket run ih =>
    have hsplit : cs = run ++ cs.dropWhile (CharClass.of c).continuedBy :=
      List.takeWhile_append_dropWhile.symm
    have hrun : IsRun c run := by
      rw [IsRun]
      split
      · next hc => exact hblank hc
      · next kind hc => exact (hbracket kind hc).elim
      · exact fun d hd => List.mem_takeWhile_imp hd
    rw [scanFrom] at h
    split at h
    · next hc => exact (hblank hc).elim
    · next kind hc => exact (hbracket kind hc).elim
    · rcases List.mem_cons.mp h with rfl | h
      · exact ⟨[], c, run, _, congrArg (c :: ·) hsplit, hrun, rfl⟩
      · obtain ⟨before, d, ds, after, hrest, hd, rfl⟩ := ih h
        refine ⟨c :: (run ++ before), d, ds, after, ?_, hd, ?_⟩
        · rw [List.cons_append, List.append_assoc, ← hrest, ← hsplit]
        · rw [List.length_cons, List.length_append]
          congr 2
          omega

/-! ## Tokens that can stand in a line -/

/-- The token is a whole run, and of the sort that its text asks for. -/
def Token.Lexed (t : Token) : Prop :=
  ∃ c cs, IsRun c cs ∧ t.text = String.ofList (c :: cs) ∧ t.kind = kindOf c cs

theorem Token.lexed_of_mem_scan {line : String} {t : Token} (h : t ∈ scan line) : t.Lexed := by
  obtain ⟨-, c, cs, -, -, hrun, rfl⟩ := exists_run_of_mem_scanFrom h
  exact ⟨c, cs, hrun, rfl, rfl⟩

theorem class_of_bracketKind? {c : Char} {kind : TokenKind} (h : bracketKind? c = some kind) :
    CharClass.of c = .bracket kind := by
  unfold bracketKind? at h
  split at h
  all_goals cases h
  all_goals decide

theorem bracketKind?_ne_number (c : Char) : bracketKind? c ≠ some .number := by
  unfold bracketKind?
  split <;> simp

theorem Token.kindOf_bracket {c : Char} {kind : TokenKind} (h : bracketKind? c = some kind) :
    kindOf c [] = kind := by
  unfold kindOf
  rw [h]

/-- Only a bracket that stands alone is of the sort of a bracket. -/
theorem Token.eq_of_kindOf_bracket {c : Char} {cs : List Char}
    (h : kindOf c cs ∈ [.leftParen, .rightParen, .leftBracket, .rightBracket]) :
    cs = [] ∧ bracketKind? c = some (kindOf c cs) := by
  unfold kindOf at h ⊢
  split at h
  · next kind hbracket => exact ⟨rfl, hbracket⟩
  · split at h
    · split at h <;> simp at h
    · split at h <;> simp at h

namespace Token.Lexed

variable {t : Token}

/-- A token, read again, is one token of the same sort. -/
theorem scan_text (h : t.Lexed) : ∃ again, scan t.text = [again] ∧ again.kind = t.kind := by
  obtain ⟨c, cs, hrun, htext, hkind⟩ := h
  refine ⟨ofChars c cs 0, ?_, hkind.symm⟩
  rw [scan, htext, String.toList_ofList]
  exact scanFrom_of_isRun hrun 0

/-- What counts as a number can be read as one. -/
theorem read?_isSome (h : t.Lexed) (hk : t.kind = .number) : (Numeral.read? t.text).isSome := by
  obtain ⟨c, cs, -, htext, hkind⟩ := h
  rw [hk] at hkind
  rw [htext]
  unfold kindOf at hkind
  split at hkind
  · next kind hbracket => exact absurd (hkind ▸ hbracket) (bracketKind?_ne_number c)
  · split at hkind
    · split at hkind
      · assumption
      · cases hkind
    · split at hkind <;> cases hkind

theorem text_of_leftBracket (h : t.Lexed) (hk : t.kind = .leftBracket) :
    t.text = String.ofList ['['] := by
  obtain ⟨c, cs, -, htext, hkind⟩ := h
  have hmem : kindOf c cs ∈ [.leftParen, .rightParen, .leftBracket, .rightBracket] := by
    rw [← hkind, hk]
    decide
  obtain ⟨rfl, hc⟩ := eq_of_kindOf_bracket hmem
  rw [← hkind, hk] at hc
  have hchar : c = '[' := by
    unfold bracketKind? at hc
    split at hc
    all_goals first | rfl | cases hc
  rw [htext, hchar]

/-- A token with the text of a binary operator is an operator. -/
theorem kind_of_text_mem (h : t.Lexed) (htext : t.text ∈ operatorTiers.flatten) :
    t.kind = .operator := by
  obtain ⟨c, cs, -, hchars, hkind⟩ := h
  have hoperators : ∀ text ∈ operatorTiers.flatten,
      (ofText? text 0).map kind = some .operator := by decide
  have hself : ofText? (String.ofList (c :: cs)) 0 = some (ofChars c cs 0) := by
    rw [ofText?, String.toList_ofList]
  have hop := hoperators _ htext
  rw [hchars, hself] at hop
  exact hkind.trans (Option.some.inj hop)

end Token.Lexed

/-- The last answer could stand in a line. -/
theorem lexed_answer (start stop : Int) : Token.Lexed ⟨.name, answerName, start, stop⟩ := by
  have hclass : CharClass.of 'a' = .word := by decide
  have hrest : ∀ d ∈ ['n', 's'], CharClass.word.continuedBy d = true := by
    rw [List.forall_mem_cons, List.forall_mem_singleton]
    decide
  have hkind : TokenKind.name = Token.kindOf 'a' ['n', 's'] := by decide
  refine ⟨'a', ['n', 's'], ?_, rfl, hkind⟩
  rw [IsRun, hclass]
  exact hrest

end Reckoner
