import Mathlib.Data.List.Chain
import Reckoner.Proofs.Lexemes

/-!
# The tokens of a line and no others

`Partition` says what the tokens of a line are without saying how they are found: they stand in the
line one behind the other, they leave out the blanks and nothing else, each is a bracket or a run
of one class and has the sort that goes with its text, and two runs of one class never touch. The
tokens that are scanned are such a partition, and there is no other one (`partition_iff`).

The position of the first character is a parameter, so that what is left behind a token is again
partitioned. The cases of `scanFrom` are those of a partition: a blank in front is left out
(`Partition.blank_iff`), and anything else begins the first token (`exists_first`), behind which the
others are a partition of the rest (`behind`, and `cons` for the way back).
-/

namespace Reckoner

/-- What is no blank, no bracket and no part of a word. -/
def isSymbolChar (c : Char) : Bool :=
  !Text.isBlank c && (bracketKind? c).isNone && !isWordChar c

namespace Token

/-- The place is in the span of the token. -/
def Covers (t : Token) (place : Int) : Prop :=
  t.start ≤ place ∧ place < t.stop

/-- The text of the token is what stands at its span among characters that begin at a position. -/
def StandsIn (position : Nat) (chars : List Char) (t : Token) : Prop :=
  ∃ before after, chars = before ++ (t.text.toList ++ after) ∧
    t.start = ((position + before.length : Nat) : Int) ∧
    t.stop = t.start + (t.text.toList.length : Nat)

def IsWordRun (t : Token) : Prop :=
  ∀ c ∈ t.text.toList, isWordChar c = true

def IsSymbolRun (t : Token) : Prop :=
  ∀ c ∈ t.text.toList, isSymbolChar c = true

/-- The token is a bracket, a run of a word or a run of symbols, and of the sort that this asks
for. -/
inductive WellSorted (t : Token) : Prop
  | bracket (c : Char) (htext : t.text = String.ofList [c]) (hkind : bracketKind? c = some t.kind)
  | word (hrun : t.IsWordRun)
    (hkind : t.kind = if (Numeral.read? t.text).isSome then .number else .name)
  | symbol (hrun : t.IsSymbolRun)
    (hkind : t.kind = if t.text = "," then .comma
      else if t.text = ";" then .semicolon else .operator)

end Token

/-- The tokens partition what is no blank among characters that begin at a position, each of them
as far as it goes. -/
structure Partition (position : Nat) (chars : List Char) (tokens : List Token) : Prop where
  nonempty : ∀ t ∈ tokens, t.start < t.stop
  ordered : tokens.Pairwise fun t u => t.stop ≤ u.start
  stands : ∀ t ∈ tokens, t.StandsIn position chars
  blank : ∀ i c, chars[i]? = some c → Text.isBlank c = true →
    ∀ t ∈ tokens, ¬t.Covers ((position + i : Nat) : Int)
  covered : ∀ i c, chars[i]? = some c → Text.isBlank c = false →
    ∃! t, t ∈ tokens ∧ t.Covers ((position + i : Nat) : Int)
  sorted : ∀ t ∈ tokens, t.WellSorted
  maximal : tokens.IsChain fun t u => t.stop = u.start →
    ¬(t.IsWordRun ∧ u.IsWordRun) ∧ ¬(t.IsSymbolRun ∧ u.IsSymbolRun)

/-! ## Classes of characters -/

theorem isWordChar_of_bracketKind? {c : Char} {kind : TokenKind} (h : bracketKind? c = some kind) :
    isWordChar c = false := by
  unfold bracketKind? at h
  split at h
  all_goals cases h
  all_goals decide

theorem isSymbolChar_iff {c : Char} : isSymbolChar c = true ↔ CharClass.of c = .symbol := by
  unfold isSymbolChar CharClass.of
  cases Text.isBlank c <;> cases bracketKind? c <;> cases isWordChar c <;> simp

theorem isWordChar_iff {c : Char} (hblank : Text.isBlank c = false) :
    isWordChar c = true ↔ CharClass.of c = .word := by
  unfold CharClass.of
  rw [hblank]
  cases hbracket : bracketKind? c with
  | none => cases isWordChar c <;> simp
  | some kind => simp [isWordChar_of_bracketKind? hbracket]

theorem bracketKind?_of_class {c : Char} {kind : TokenKind} (h : CharClass.of c = .bracket kind) :
    bracketKind? c = some kind := by
  unfold CharClass.of at h
  cases hblank : Text.isBlank c <;> cases hbracket : bracketKind? c <;>
    cases hword : isWordChar c <;> simp_all

theorem isBlank_eq_false_iff {c : Char} : Text.isBlank c = false ↔ CharClass.of c ≠ .blank := by
  unfold CharClass.of
  cases Text.isBlank c <;> cases bracketKind? c <;> cases isWordChar c <;> simp

theorem isWordChar_of_class {c : Char} (h : CharClass.of c = .word) : isWordChar c = true := by
  have hblank : Text.isBlank c = false := isBlank_eq_false_iff.mpr (by simp [h])
  exact (isWordChar_iff hblank).mpr h

theorem Token.kindOf_word {c : Char} (h : isWordChar c = true) (cs : List Char) :
    kindOf c cs
      = if (Numeral.read? (String.ofList (c :: cs))).isSome then .number else .name := by
  unfold kindOf
  split
  · next kind hbracket =>
    rw [isWordChar_of_bracketKind? hbracket] at h
    cases h
  · rw [if_pos h]

theorem Token.kindOf_symbol {c : Char} (h : isSymbolChar c = true) (cs : List Char) :
    kindOf c cs = if String.ofList (c :: cs) = "," then .comma
      else if String.ofList (c :: cs) = ";" then .semicolon else .operator := by
  obtain ⟨⟨-, hbracket⟩, hword⟩ :
      (Text.isBlank c = false ∧ bracketKind? c = none) ∧ isWordChar c = false := by
    simpa [isSymbolChar] using h
  have hsingle : ∀ d, String.ofList (c :: cs) = String.ofList [d] ↔ c = d ∧ cs = [] := by
    intro d
    rw [← String.toList_inj, String.toList_ofList, String.toList_ofList, List.cons.injEq]
  change _ = if String.ofList (c :: cs) = String.ofList [','] then TokenKind.comma
    else if String.ofList (c :: cs) = String.ofList [';'] then .semicolon else .operator
  simp only [hsingle]
  cases cs with
  | nil =>
    simp only [kindOf, hbracket, hword, and_true, Bool.false_eq_true, if_false]
    split
    · rfl
    · rfl
    · next hcomma hsemicolon =>
      rw [if_neg fun heq => hcomma heq rfl, if_neg fun heq => hsemicolon heq rfl]
  | cons d ds => simp [kindOf, hword]

/-! ## Runs -/

section Runs

variable {t : Token} {c : Char} {cs : List Char}

/-- What is well sorted and has no blanks is one run. -/
theorem Token.WellSorted.isRun (h : t.WellSorted) (htext : t.text = String.ofList (c :: cs))
    (hblank : ∀ d ∈ c :: cs, Text.isBlank d = false) : IsRun c cs := by
  obtain ⟨hc, hcs⟩ := List.forall_mem_cons.mp hblank
  have hchars : t.text.toList = c :: cs := by rw [htext, String.toList_ofList]
  rw [IsRun]
  cases h with
  | bracket d hd hkind =>
    obtain ⟨rfl, rfl⟩ := List.cons.inj (String.ofList_injective (htext.symm.trans hd))
    rw [class_of_bracketKind? hkind]
  | word hrun _ =>
    rw [IsWordRun, hchars] at hrun
    obtain ⟨hword, hrest⟩ := List.forall_mem_cons.mp hrun
    rw [(isWordChar_iff hc).mp hword]
    intro d hd
    rw [CharClass.continuedBy, (isWordChar_iff (hcs d hd)).mp (hrest d hd)]
    rfl
  | symbol hrun _ =>
    rw [IsSymbolRun, hchars] at hrun
    obtain ⟨hsymbol, hrest⟩ := List.forall_mem_cons.mp hrun
    rw [isSymbolChar_iff.mp hsymbol]
    intro d hd
    rw [CharClass.continuedBy, isSymbolChar_iff.mp (hrest d hd)]
    rfl

theorem IsRun.isBlank_eq_false (hrun : IsRun c cs) : ∀ d ∈ c :: cs, Text.isBlank d = false := by
  rw [IsRun] at hrun
  cases hclass : CharClass.of c with
  | blank =>
    rw [hclass] at hrun
    exact hrun.elim
  | bracket kind =>
    rw [hclass] at hrun
    subst hrun
    exact List.forall_mem_singleton.mpr (isBlank_eq_false_iff.mpr (by simp [hclass]))
  | word | symbol =>
    rw [hclass] at hrun
    refine List.forall_mem_cons.mpr ⟨isBlank_eq_false_iff.mpr (by simp [hclass]), fun d hd => ?_⟩
    exact isBlank_eq_false_iff.mpr (by simp [eq_of_beq (hrun d hd)])

theorem IsRun.isWordRun_iff (hrun : IsRun c cs) (htext : t.text = String.ofList (c :: cs)) :
    t.IsWordRun ↔ CharClass.of c = .word := by
  have hchars : t.text.toList = c :: cs := by rw [htext, String.toList_ofList]
  rw [Token.IsWordRun, hchars]
  constructor
  · intro h
    exact (isWordChar_iff (hrun.isBlank_eq_false c List.mem_cons_self)).mp (h c List.mem_cons_self)
  · intro hclass
    rw [IsRun, hclass] at hrun
    refine List.forall_mem_cons.mpr ⟨isWordChar_of_class hclass, fun d hd => ?_⟩
    exact isWordChar_of_class (eq_of_beq (hrun d hd))

theorem IsRun.isSymbolRun_iff (hrun : IsRun c cs) (htext : t.text = String.ofList (c :: cs)) :
    t.IsSymbolRun ↔ CharClass.of c = .symbol := by
  have hchars : t.text.toList = c :: cs := by rw [htext, String.toList_ofList]
  rw [Token.IsSymbolRun, hchars]
  constructor
  · exact fun h => isSymbolChar_iff.mp (h c List.mem_cons_self)
  · intro hclass
    rw [IsRun, hclass] at hrun
    refine List.forall_mem_cons.mpr ⟨isSymbolChar_iff.mpr hclass, fun d hd => ?_⟩
    exact isSymbolChar_iff.mpr (eq_of_beq (hrun d hd))

/-- A run is well sorted exactly if it is of the sort that its text has on scanning. -/
theorem IsRun.wellSorted_iff (hrun : IsRun c cs) (htext : t.text = String.ofList (c :: cs)) :
    t.WellSorted ↔ t.kind = Token.kindOf c cs := by
  have hchars : t.text.toList = c :: cs := by rw [htext, String.toList_ofList]
  constructor
  · intro h
    cases h with
    | bracket d hd hkind =>
      obtain ⟨rfl, rfl⟩ := List.cons.inj (String.ofList_injective (htext.symm.trans hd))
      rw [Token.kindOf_bracket hkind]
    | word hword hkind =>
      have hc : isWordChar c = true := hword c (by simp [hchars])
      rw [Token.kindOf_word hc, ← htext, hkind]
    | symbol hsymbol hkind =>
      have hc : isSymbolChar c = true := hsymbol c (by simp [hchars])
      rw [Token.kindOf_symbol hc, ← htext, hkind]
  · intro hkind
    cases hclass : CharClass.of c with
    | blank =>
      rw [IsRun, hclass] at hrun
      exact hrun.elim
    | bracket kind =>
      rw [IsRun, hclass] at hrun
      subst hrun
      have hbracket := bracketKind?_of_class hclass
      rw [Token.kindOf_bracket hbracket] at hkind
      exact .bracket c htext (hkind ▸ hbracket)
    | word =>
      refine .word ((hrun.isWordRun_iff htext).mpr hclass) ?_
      rw [hkind, htext, Token.kindOf_word (isWordChar_of_class hclass)]
    | symbol =>
      refine .symbol ((hrun.isSymbolRun_iff htext).mpr hclass) ?_
      rw [hkind, htext, Token.kindOf_symbol (isSymbolChar_iff.mpr hclass)]

/-- What begins with no blank begins with a run that goes as far as it can. -/
theorem exists_longest (hc : Text.isBlank c = false) (chars : List Char) :
    ∃ cs after, chars = cs ++ after ∧ IsRun c cs ∧ EndsRun c after := by
  cases hcases : CharClass.of c with
  | blank => exact absurd hcases (isBlank_eq_false_iff.mp hc)
  | bracket kind =>
    exact ⟨[], chars, rfl, by simp [IsRun, hcases], fun _ _ _ => ⟨kind, hcases⟩⟩
  | word | symbol =>
    refine ⟨chars.takeWhile (CharClass.of c).continuedBy,
      chars.dropWhile (CharClass.of c).continuedBy, List.takeWhile_append_dropWhile.symm, ?_, ?_⟩
    · rw [IsRun, hcases]
      exact fun d hd => List.mem_takeWhile_imp hd
    · intro d hd heq
      have hstops := List.head?_dropWhile_not (CharClass.of c).continuedBy chars
      rw [hd] at hstops
      simp [CharClass.continuedBy, heq] at hstops

end Runs

/-! ## Taking the first token off -/

namespace Partition

variable {position : Nat} {chars : List Char} {tokens : List Token}

theorem nil_iff : Partition position [] tokens ↔ tokens = [] := by
  constructor
  · intro h
    refine List.eq_nil_iff_forall_not_mem.mpr fun t ht => ?_
    obtain ⟨before, after, hchars, hstart, hstop⟩ := h.stands t ht
    have hempty : t.text.toList = [] :=
      (List.append_eq_nil_iff.mp (List.append_eq_nil_iff.mp hchars.symm).2).1
    have hlt := h.nonempty t ht
    rw [hstop, hempty] at hlt
    simp at hlt
  · rintro rfl
    exact ⟨by simp, .nil, by simp, by simp, by simp, by simp, .nil⟩

/-- No token begins before the first character. -/
theorem le_start (h : Partition position chars tokens) {t : Token} (ht : t ∈ tokens) :
    (position : Int) ≤ t.start := by
  obtain ⟨before, after, -, hstart, -⟩ := h.stands t ht
  omega

/-- A blank in front is left out. -/
theorem blank_iff {c : Char} (hc : Text.isBlank c = true) :
    Partition position (c :: chars) tokens ↔ Partition (position + 1) chars tokens := by
  have hplace : ∀ i : Nat, position + 1 + i = position + (i + 1) := fun i => by omega
  constructor
  · intro h
    refine ⟨h.nonempty, h.ordered, fun t ht => ?_, fun i d hd => ?_, fun i d hd => ?_, h.sorted,
      h.maximal⟩
    · obtain ⟨before, after, hchars, hstart, hstop⟩ := h.stands t ht
      cases before with
      | nil =>
        have hlt := h.nonempty t ht
        refine absurd ?_ (h.blank 0 c rfl hc t ht)
        constructor <;> simp at hstart ⊢ <;> omega
      | cons b before =>
        refine ⟨before, after, (List.cons.inj hchars).2, ?_, hstop⟩
        rw [hstart, List.length_cons]
        omega
    · rw [hplace]
      exact h.blank (i + 1) d hd
    · rw [hplace]
      exact h.covered (i + 1) d hd
  · intro h
    refine ⟨h.nonempty, h.ordered, fun t ht => ?_, fun i d hd => ?_, fun i d hd => ?_, h.sorted,
      h.maximal⟩
    · obtain ⟨before, after, hchars, hstart, hstop⟩ := h.stands t ht
      refine ⟨c :: before, after, by rw [hchars, List.cons_append], ?_, hstop⟩
      rw [hstart, List.length_cons]
      omega
    · cases i with
      | zero =>
        intro _ t ht hcovers
        have hle := h.le_start ht
        have := hcovers.1
        omega
      | succ i =>
        rw [← hplace]
        exact h.blank i d hd
    · cases i with
      | zero =>
        intro hd'
        obtain rfl : c = d := Option.some.inj hd
        rw [hc] at hd'
        cases hd'
      | succ i =>
        rw [← hplace]
        exact h.covered i d hd

/-- What is no blank in front begins the first token. -/
theorem exists_first {c : Char} (hc : Text.isBlank c = false)
    (h : Partition position (c :: chars) tokens) :
    ∃ rest cs after, chars = cs ++ after ∧ IsRun c cs ∧
      tokens = Token.ofChars c cs position :: rest := by
  obtain ⟨t, ⟨ht, hcovers⟩, -⟩ := h.covered 0 c rfl hc
  obtain ⟨first, rest, rfl⟩ : ∃ first rest, tokens = first :: rest :=
    List.exists_cons_of_ne_nil (List.ne_nil_of_mem ht)
  -- a token before `t` would have to begin before the first character
  obtain rfl : t = first := by
    rcases List.mem_cons.mp ht with rfl | ht
    · rfl
    · have hbefore := (List.pairwise_cons.mp h.ordered).1 t ht
      have hlt := h.nonempty first List.mem_cons_self
      have hle := h.le_start (t := first) List.mem_cons_self
      have := hcovers.1
      omega
  obtain ⟨before, after, hchars, hstart, hstop⟩ := h.stands t ht
  obtain rfl : before = [] := by
    have := hcovers.1
    exact List.eq_nil_of_length_eq_zero (by omega)
  obtain ⟨cs, htext, rfl⟩ : ∃ cs, t.text.toList = c :: cs ∧ chars = cs ++ after := by
    cases htext : t.text.toList with
    | nil =>
      have hlt := h.nonempty t ht
      rw [hstop, htext] at hlt
      simp at hlt
    | cons d cs =>
      rw [htext] at hchars
      obtain ⟨rfl, rfl⟩ := List.cons.inj hchars
      exact ⟨cs, rfl, rfl⟩
  rw [htext, List.length_cons] at hstop
  rw [List.length_nil, Nat.add_zero] at hstart
  have hofList : t.text = String.ofList (c :: cs) := by rw [← htext, String.ofList_toList]
  have hnoBlank : ∀ d ∈ c :: cs, Text.isBlank d = false := by
    intro d hd
    obtain ⟨i, hi, rfl⟩ := List.mem_iff_getElem.mp hd
    by_contra hblank
    have hget : (c :: (cs ++ after))[i]? = some (c :: cs)[i] := by
      rw [← List.cons_append, List.getElem?_append_left hi, List.getElem?_eq_getElem hi]
    rw [List.length_cons] at hi
    exact h.blank i _ hget (by simpa using hblank) t ht ⟨by omega, by omega⟩
  have hrun := (h.sorted t ht).isRun hofList hnoBlank
  have hkind := (hrun.wellSorted_iff hofList).mp (h.sorted t ht)
  refine ⟨rest, cs, after, rfl, hrun, congrArg (· :: rest) ?_⟩
  rw [hstart] at hstop
  cases t
  subst hkind hofList hstart hstop
  rfl

section Cons

variable {c : Char} {cs after : List Char} {rest : List Token}

theorem getElem?_after (c : Char) (cs after : List Char) (i : Nat) :
    (c :: (cs ++ after))[1 + cs.length + i]? = after[i]? := by
  rw [← List.cons_append, List.getElem?_append_right (by simp; omega), List.length_cons]
  congr 1
  omega

/-- What is behind the first token is partitioned by the others. -/
theorem behind
    (h : Partition position (c :: (cs ++ after)) (Token.ofChars c cs position :: rest)) :
    Partition (position + 1 + cs.length) after rest := by
  obtain ⟨hbefore, hordered⟩ := List.pairwise_cons.mp h.ordered
  have hplace : ∀ i, position + (1 + cs.length + i) = position + 1 + cs.length + i :=
    fun i => by omega
  refine ⟨fun u hu => h.nonempty u (List.mem_cons_of_mem _ hu), hordered, fun u hu => ?_,
    fun i d hd hblank u hu => ?_, fun i d hd hblank => ?_,
    fun u hu => h.sorted u (List.mem_cons_of_mem _ hu), h.maximal.tail⟩
  · obtain ⟨before, after', hchars, hstart, hstop⟩ := h.stands u (List.mem_cons_of_mem _ hu)
    have hle : (position : Int) + (cs.length + 1 : Nat) ≤ u.start := hbefore u hu
    have hlen : (c :: cs).length ≤ before.length := by
      rw [List.length_cons]
      omega
    obtain ⟨between, rfl⟩ : (c :: cs) <+: before :=
      List.prefix_of_prefix_length_le ⟨after, rfl⟩ ⟨_, hchars.symm⟩ hlen
    refine ⟨between, after', ?_, ?_, hstop⟩
    · rw [← List.cons_append, List.append_assoc] at hchars
      exact List.append_cancel_left hchars
    · rw [hstart, List.length_append, List.length_cons]
      omega
  · rw [← getElem?_after c cs] at hd
    rw [← hplace]
    exact h.blank _ d hd hblank u (List.mem_cons_of_mem _ hu)
  · rw [← getElem?_after c cs] at hd
    obtain ⟨u, ⟨hu, hcovers⟩, hunique⟩ := h.covered _ d hd hblank
    rw [hplace] at hcovers hunique
    refine ⟨u, ⟨?_, hcovers⟩, fun u' hu' => hunique u' ⟨List.mem_cons_of_mem _ hu'.1, hu'.2⟩⟩
    rcases List.mem_cons.mp hu with rfl | hu
    · have hlt : ((position + 1 + cs.length + i : Nat) : Int)
          < position + (cs.length + 1 : Nat) := hcovers.2
      omega
    · exact hu

/-- The first token goes as far as its run does. -/
theorem endsRun (hrun : IsRun c cs)
    (h : Partition position (c :: (cs ++ after)) (Token.ofChars c cs position :: rest)) :
    EndsRun c after := by
  intro d hd heq
  obtain ⟨tail, rfl⟩ : ∃ tail, after = d :: tail := by
    cases after with
    | nil => cases hd
    | cons d' tail => exact ⟨tail, by rw [Option.some.inj hd]⟩
  have hc := hrun.isBlank_eq_false c List.mem_cons_self
  have hblank : Text.isBlank d = false := by
    rw [isBlank_eq_false_iff, heq]
    exact isBlank_eq_false_iff.mp hc
  obtain ⟨rest, ds, after', rfl, hrun', rfl⟩ := h.behind.exists_first hblank
  have htouch : (Token.ofChars c cs position).stop
      = (Token.ofChars d ds ((position + 1 + cs.length : Nat) : Int)).start := by
    show (position : Int) + (cs.length + 1 : Nat) = ((position + 1 + cs.length : Nat) : Int)
    omega
  obtain ⟨hwords, hsymbols⟩ := (List.isChain_cons_cons.mp h.maximal).1 htouch
  rw [hrun.isWordRun_iff rfl, hrun'.isWordRun_iff rfl, heq, and_self] at hwords
  rw [hrun.isSymbolRun_iff rfl, hrun'.isSymbolRun_iff rfl, heq, and_self] at hsymbols
  cases hclass : CharClass.of c with
  | blank => exact absurd hclass (isBlank_eq_false_iff.mp hc)
  | bracket kind => exact ⟨kind, rfl⟩
  | word => exact absurd hclass hwords
  | symbol => exact absurd hclass hsymbols

/-- Where the first of some tokens begins with the first character, it is a run from there on. -/
theorem exists_run (h : Partition position chars tokens) {u : Token} {us : List Token}
    (htokens : tokens = u :: us) (hstart : u.start = position) :
    ∃ d ds, chars.head? = some d ∧ IsRun d ds ∧ u = Token.ofChars d ds position := by
  subst htokens
  obtain ⟨before, after, hchars, hbefore, hstop⟩ := h.stands u List.mem_cons_self
  have hlt := h.nonempty u List.mem_cons_self
  obtain ⟨d, tail, rfl⟩ : ∃ d tail, chars = d :: tail := by
    refine List.exists_cons_of_ne_nil fun hnil => ?_
    rw [hnil, eq_comm, List.append_eq_nil_iff, List.append_eq_nil_iff] at hchars
    rw [hstop, hchars.2.1] at hlt
    simp at hlt
  have hblank : Text.isBlank d = false := by
    by_contra hblank
    refine h.blank 0 d rfl (by simpa using hblank) u List.mem_cons_self ⟨?_, ?_⟩ <;> omega
  obtain ⟨rest, ds, after', rfl, hrun, heq⟩ := h.exists_first hblank
  exact ⟨d, ds, rfl, hrun, (List.cons.inj heq).1⟩

/-- A run that goes as far as it can is a token in front of the others. -/
theorem cons (hrun : IsRun c cs) (hends : EndsRun c after)
    (h : Partition (position + 1 + cs.length) after rest) :
    Partition position (c :: (cs ++ after)) (Token.ofChars c cs position :: rest) := by
  have hstart : (Token.ofChars c cs position).start = position := rfl
  have hstop : (Token.ofChars c cs position).stop = position + (cs.length + 1 : Nat) := rfl
  have htext : (Token.ofChars c cs position).text.toList = c :: cs := String.toList_ofList
  have hbehind : ∀ u ∈ rest, (Token.ofChars c cs position).stop ≤ u.start := by
    intro u hu
    have hle := h.le_start hu
    omega
  have hplace : ∀ i, position + (1 + cs.length + i) = position + 1 + cs.length + i :=
    fun i => by omega
  -- a character of the line is one of the run or one behind it
  have hcases : ∀ i d, (c :: (cs ++ after))[i]? = some d →
      (i < 1 + cs.length ∧ Text.isBlank d = false) ∨
        ∃ j, i = 1 + cs.length + j ∧ after[j]? = some d := by
    intro i d hd
    rcases Nat.lt_or_ge i (1 + cs.length) with hi | hi
    · have hlen : i < (c :: cs).length := by
        rw [List.length_cons]
        omega
      rw [← List.cons_append, List.getElem?_append_left hlen] at hd
      exact .inl ⟨hi, hrun.isBlank_eq_false d (List.mem_of_getElem? hd)⟩
    · obtain ⟨j, rfl⟩ := Nat.exists_eq_add_of_le hi
      rw [getElem?_after] at hd
      exact .inr ⟨j, rfl, hd⟩
  refine ⟨List.forall_mem_cons.mpr ⟨by omega, h.nonempty⟩,
    List.pairwise_cons.mpr ⟨hbehind, h.ordered⟩,
    List.forall_mem_cons.mpr ⟨⟨[], after, by rw [htext]; rfl, rfl, by rw [htext]; rfl⟩, ?_⟩, ?_, ?_,
    List.forall_mem_cons.mpr ⟨(hrun.wellSorted_iff rfl).mpr rfl, h.sorted⟩, ?_⟩
  · intro u hu
    obtain ⟨before, after', rfl, hbefore, hend⟩ := h.stands u hu
    refine ⟨c :: (cs ++ before), after', by simp, ?_, hend⟩
    rw [hbefore, List.length_cons, List.length_append]
    omega
  · intro i d hd hblank
    rcases hcases i d hd with ⟨-, hnoBlank⟩ | ⟨j, rfl, hafter⟩
    · rw [hnoBlank] at hblank
      cases hblank
    · rw [hplace]
      refine List.forall_mem_cons.mpr ⟨fun hcovers => ?_, h.blank j d hafter hblank⟩
      have := hcovers.2
      omega
  · intro i d hd hblank
    rcases hcases i d hd with ⟨hi, -⟩ | ⟨j, rfl, hafter⟩
    · refine ⟨_, ⟨List.mem_cons_self, by omega, by omega⟩, fun u hu => ?_⟩
      rcases List.mem_cons.mp hu.1 with rfl | hmem
      · rfl
      · have := hbehind u hmem
        have := hu.2.1
        omega
    · obtain ⟨u, ⟨hu, hcovers⟩, hunique⟩ := h.covered j d hafter hblank
      rw [hplace]
      refine ⟨u, ⟨List.mem_cons_of_mem _ hu, hcovers⟩, fun u' hu' => ?_⟩
      rcases List.mem_cons.mp hu'.1 with rfl | hmem
      · have := hu'.2.2
        omega
      · exact hunique u' ⟨hmem, hu'.2⟩
  · refine List.isChain_cons.mpr ⟨fun u hu htouch => ?_, h.maximal⟩
    obtain ⟨us, rfl⟩ : ∃ us, rest = u :: us := List.head?_eq_some_iff.mp hu
    obtain ⟨d, ds, hhead, hrun', rfl⟩ := h.exists_run rfl (by omega)
    have hother : CharClass.of c = CharClass.of d → ∃ kind, CharClass.of c = .bracket kind :=
      fun heq => hends d hhead heq.symm
    rw [hrun.isWordRun_iff rfl, hrun'.isWordRun_iff rfl, hrun.isSymbolRun_iff rfl,
      hrun'.isSymbolRun_iff rfl]
    constructor <;> rintro ⟨hc, hd⟩ <;> obtain ⟨kind, hkind⟩ := hother (hc.trans hd.symm) <;>
      cases hc.symm.trans hkind

end Cons

end Partition

/-- The tokens that are scanned are a partition, and every partition is scanned. -/
theorem partition_iff_scanFrom {position : Nat} {chars : List Char} {tokens : List Token} :
    Partition position chars tokens ↔ tokens = scanFrom position chars := by
  induction hlen : chars.length using Nat.strongRecOn generalizing position chars tokens with
  | ind n ih =>
    cases chars with
    | nil =>
      rw [scanFrom]
      exact Partition.nil_iff
    | cons c rest =>
      cases hblank : Text.isBlank c with
      | true =>
        have hclass : CharClass.of c = .blank := by simp [CharClass.of, hblank]
        rw [scanFrom, hclass, Partition.blank_iff hblank]
        exact ih rest.length (by simp at hlen; omega) rfl
      | false =>
        constructor
        · intro h
          obtain ⟨others, cs, after, rfl, hrun, rfl⟩ := h.exists_first hblank
          have hafter : after.length < n := by
            simp at hlen
            omega
          rw [scanFrom_longest hrun (h.endsRun hrun), (ih after.length hafter rfl).mp h.behind]
        · rintro rfl
          obtain ⟨cs, after, rfl, hrun, hends⟩ := exists_longest hblank rest
          have hafter : after.length < n := by
            simp at hlen
            omega
          rw [scanFrom_longest hrun hends]
          exact .cons hrun hends ((ih after.length hafter rfl).mpr rfl)

/-- **The tokens of a line are its only partition.** A list of tokens is what scanning a line gives
exactly if the tokens stand in the line one behind the other, cover every character but the blanks
once, are brackets or runs of one class of the sorts that their texts have, and no two that touch
are runs of the same class. -/
theorem partition_iff (line : String) (tokens : List Token) :
    Partition 0 line.toList tokens ↔ tokens = scan line :=
  partition_iff_scanFrom

end Reckoner
