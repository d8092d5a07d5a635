import Reckoner.Proofs.Outcomes
import Reckoner.Proofs.WholeNumbers

/-!
# Lines about digits

A line `digits` shows the cap on digits, and `digits` with one more token sets it to the number
that the token writes or answers that it does not. `DigitsEffect` lists what such a line comes to,
and `runLine_digits` says that every such line is one of them, whatever its second token is, and
that it touches nothing but the cap.

Two kinds of tokens are made of digits and are not answered: those that have a digit without a
place in a numeral, and those that begin with more than `Whole.maxDigits` decimal digits. The line
fails on them and leaves the cap as it is.
-/

namespace Reckoner

/-- What a line about digits comes to, from its argument and the cap before it: the answer to it,
and the cap that it leaves. -/
inductive DigitsEffect (cap : DigitCap) :
    Option String → Except Failure String → DigitCap → Prop where
  | shown : DigitsEffect cap none (.ok ("digits: " ++ toString cap.val)) cap
  | set {wanted : String} {cap' : DigitCap} (hnumber : Text.decimalNumber? wanted = some cap'.val)
      (hlength : wanted.length ≤ Whole.maxDigits) :
      DigitsEffect cap (some wanted) (.ok ("digits: " ++ toString cap'.val)) cap'
  /-- The argument has a character that is no digit. -/
  | notDigits {wanted : String} (hdigits : Command.isDigits wanted = false) :
      DigitsEffect cap (some wanted) (.ok (Command.capRefusal wanted)) cap
  | outOfRange {wanted : String} {n : Nat} (hnumber : Text.decimalNumber? wanted = some n)
      (hlength : wanted.length ≤ Whole.maxDigits) (hlarge : maxPlaces < n) :
      DigitsEffect cap (some wanted) (.ok (Command.capRefusal wanted)) cap
  /-- The argument has a digit that is no decimal digit. -/
  | notWhole {wanted : String} (hdigits : Command.isDigits wanted = true)
      (hnumber : Text.decimalNumber? wanted = none)
      (hcount : Text.leadingDecimals wanted ≤ Whole.maxDigits) :
      DigitsEffect cap (some wanted) (.error (.notWhole wanted)) cap
  | tooManyDigits {wanted : String} (hdigits : Command.isDigits wanted = true)
      (hcount : Whole.maxDigits < Text.leadingDecimals wanted) :
      DigitsEffect cap (some wanted)
        (.error (.tooManyDigits (Text.leadingDecimals wanted))) cap

/-! ## Arguments -/

namespace Command

theorem isDigits_iff {wanted : String} :
    isDigits wanted = true ↔ wanted ≠ "" ∧ ∀ c ∈ wanted.toList, Text.isDigit c = true := by
  rw [isDigits, Bool.and_eq_true, List.all_eq_true]
  simp

theorem isDigits_of_decimalNumber? {wanted : String} {n : Nat}
    (h : Text.decimalNumber? wanted = some n) : isDigits wanted = true := by
  obtain ⟨hne, hdecimal⟩ := Text.of_decimalNumber?_eq_some h
  exact isDigits_iff.mpr ⟨hne, fun c hc => Bool.or_eq_true _ _ |>.mpr (.inl (hdecimal c hc))⟩

/-- Carrying out the command has one of the effects that are listed, with no wish to leave. -/
theorem exists_digitsEffect (wanted? : Option String) (env : Environment) :
    ∃ answer cap, DigitsEffect env.cap wanted? answer cap ∧
      (digits wanted?).run env
        = answer.map fun status => (⟨status, false⟩, { env with cap := cap }) := by
  cases wanted? with
  | none => exact ⟨_, _, .shown, rfl⟩
  | some wanted =>
    rw [run, setCap]
    split
    · next hdigits =>
      obtain ⟨hne, hall⟩ := isDigits_iff.mp hdigits
      rw [Whole.read_of_isDigit hne hall]
      by_cases hcount : Whole.maxDigits < Text.leadingDecimals wanted
      · rw [if_pos hcount]
        exact ⟨_, _, .tooManyDigits hdigits hcount, rfl⟩
      · rw [if_neg hcount]
        rw [Nat.not_lt] at hcount
        cases hnumber : Text.decimalNumber? wanted with
        | none => exact ⟨_, _, .notWhole hdigits hnumber hcount, rfl⟩
        | some n =>
          have hlength := Text.leadingDecimals_of_decimalNumber? hnumber ▸ hcount
          by_cases hn : n ≤ maxPlaces
          · have hcap : DigitCap.ofInt? (n : Int) = some ⟨n, Nat.lt_succ_of_le hn⟩ :=
              DigitCap.ofInt?_val ⟨n, _⟩
            simp only [hcap]
            exact ⟨_, _, .set hnumber hlength, rfl⟩
          · have hcap : DigitCap.ofInt? (n : Int) = none := by simp [DigitCap.ofInt?, hn]
            simp only [hcap]
            exact ⟨_, _, .outOfRange hnumber hlength (Nat.lt_of_not_le hn), rfl⟩
    · next hdigits =>
      rw [Bool.not_eq_true] at hdigits
      exact ⟨_, _, .notDigits hdigits, rfl⟩

end Command

namespace DigitsEffect

variable {cap cap' : DigitCap} {answer : Except Failure String}

/-- A cap that the argument writes is set. -/
theorem sets {wanted : String} (h : DigitsEffect cap (some wanted) answer cap') {n : Nat}
    (hnumber : Text.decimalNumber? wanted = some n) (hn : n ≤ maxPlaces)
    (hlength : wanted.length ≤ Whole.maxDigits) :
    cap'.val = n ∧ answer = .ok ("digits: " ++ toString n) := by
  cases h with
  | set hcap _ =>
    obtain rfl := Option.some.inj (hcap.symm.trans hnumber)
    exact ⟨rfl, rfl⟩
  | notDigits hdigits =>
    rw [Command.isDigits_of_decimalNumber? hnumber] at hdigits
    cases hdigits
  | outOfRange hother _ hlarge =>
    obtain rfl := Option.some.inj (hother.symm.trans hnumber)
    exact absurd hn (Nat.not_le_of_lt hlarge)
  | notWhole _ hnone _ => cases hnone.symm.trans hnumber
  | tooManyDigits _ hcount =>
    rw [Text.leadingDecimals_of_decimalNumber? hnumber] at hcount
    exact absurd hlength (Nat.not_le_of_lt hcount)

/-- The line fails on an argument of digits that is no whole number or is too long. -/
theorem fails_iff {wanted? : Option String} (h : DigitsEffect cap wanted? answer cap') :
    (∃ failure, answer = .error failure) ↔ ∃ wanted, wanted? = some wanted ∧
      Command.isDigits wanted = true ∧
      (Text.decimalNumber? wanted = none ∨ Whole.maxDigits < wanted.length) := by
  constructor
  · rintro ⟨failure, rfl⟩
    cases h with
    | @notWhole wanted hdigits hnumber _ => exact ⟨wanted, rfl, hdigits, .inl hnumber⟩
    | @tooManyDigits wanted hdigits hcount =>
      refine ⟨wanted, rfl, hdigits, ?_⟩
      cases hnumber : Text.decimalNumber? wanted with
      | none => exact .inl rfl
      | some n => exact .inr (Text.leadingDecimals_of_decimalNumber? hnumber ▸ hcount)
  · rintro ⟨wanted, rfl, hdigits, hfault⟩
    cases h with
    | notWhole | tooManyDigits => exact ⟨_, rfl⟩
    | notDigits hnot => cases hdigits.symm.trans hnot
    | set hnumber hlength | outOfRange hnumber hlength =>
      rcases hfault with hnone | hlong
      · cases hnone.symm.trans hnumber
      · exact absurd hlength (Nat.not_le_of_lt hlong)

end DigitsEffect

/-! ## Lines -/

/-- A line of the word `digits` and at most one more token is a command. -/
theorem Command.ofTokens?_digits {line : String} {wanted? : Option String}
    (hline : (scan line).map Token.text = "digits" :: wanted?.toList) :
    ofTokens? (scan line) = some (digits wanted?) := by
  have hname : IsName "digits" := isName_of_kinds (by decide +kernel)
  cases htokens : scan line with
  | nil =>
    rw [htokens] at hline
    cases hline
  | cons t rest =>
    rw [htokens] at hline
    obtain ⟨htext, hrest⟩ := List.cons.inj hline
    have hlexed : t.Lexed := Token.lexed_of_mem_scan (htokens ▸ List.mem_cons_self)
    rw [ofTokens?, if_pos (hlexed.kind_of_isName (htext ▸ hname)), hrest, htext]
    cases wanted? <;> rfl

/-- **Lines about digits.** Whatever the argument of a line about digits is, if it has one, the line
changes nothing but the cap and keeps no error. The cap is shown, or set to the whole number from 0
to `maxPlaces` that the argument writes, or the argument is refused with a status. The line fails,
with the cap as it was, exactly when the argument is made of digits and does not write a whole
number with them, or has too many of them. -/
theorem runLine_digits {s : Session} {line : String} {wanted? : Option String}
    (hline : (scan line).map Token.text = "digits" :: wanted?.toList) :
    ∃ cap, DigitsEffect s.env.cap wanted? (s.runLine line).1 cap ∧
      (s.runLine line).2 = { s with env := { s.env with cap := cap }, lastError := none } ∧
      ((∃ failure, (s.runLine line).1 = .error failure) ↔ ∃ wanted, wanted? = some wanted ∧
        Command.isDigits wanted = true ∧
        (Text.decimalNumber? wanted = none ∨ Whole.maxDigits < wanted.length)) := by
  obtain ⟨answer, cap, heffect, hrun⟩ := Command.exists_digitsEffect wanted? s.env
  have hresult : s.runLine line
      = (answer, { s with env := { s.env with cap := cap }, lastError := none }) := by
    rw [Session.runLine, Session.runTokens_of_command (Command.ofTokens?_digits hline),
      Session.runCommand, hrun]
    cases heffect <;> simp [Except.map, Session.answer, Session.asksToLeave]
  rw [hresult]
  exact ⟨cap, heffect, rfl, heffect.fails_iff⟩

/-- The digits may be those of any script. -/
theorem runLine_digits_arabic :
    (Session.start .standard).runLine "digits ٣"
      = (.ok "digits: 3", Session.start { Environment.standard with cap := 3 }) := by
  obtain ⟨cap, heffect, hsession, -⟩ :=
    @runLine_digits (.start .standard) "digits ٣" (some "٣") (by decide +kernel)
  obtain ⟨hcap, hanswer⟩ := heffect.sets (n := 3) (by decide +kernel) (by decide) (by decide)
  obtain rfl : cap = 3 := Fin.ext hcap
  exact Prod.ext hanswer hsession

/-- A superscript is a digit, so it is not refused, and no whole number, so the line fails. -/
theorem runLine_digits_superscript :
    (scan "digits ²").map Token.text = ["digits", "²"] ∧
      (Session.start .standard).runLine "digits ²"
        = (.error (.notWhole "²"), Session.start .standard) := by
  have hline : Command.ofTokens? (scan "digits ²") = some (.digits (some "²")) := by decide +kernel
  have hdigits : Command.isDigits "²" = true := by decide +kernel
  have hread : Whole.read "²" = .error .malformed := by decide +kernel
  refine ⟨by decide +kernel, ?_⟩
  rw [Session.runLine, Session.runTokens_of_command hline, Session.runCommand, Command.run,
    Command.setCap, if_pos hdigits, hread]
  rfl

end Reckoner
