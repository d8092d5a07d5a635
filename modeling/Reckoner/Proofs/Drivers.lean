import Reckoner.CommandLine
import Reckoner.Proofs.Lexemes
import Reckoner.Proofs.Outcomes

/-!
# Lines as options and lines in conversation

Lines can be given to the program as options or typed into a conversation, and it carries out the
same ones, in the same session: those up to the first that asks to leave (`Session.executed`). What
is printed differs in the invitations only (`batch_and_conversation_agree`).

A run of which every executed line is answered is `Session.Answered`, and each of the two loops is
compared with its outcomes by induction on it (`runBatch_eq`, `converse_eq`). The rest is about how
lines reach the loops: an option with its value attached is read as it is written, whatever the
value is (`Options.classify_attached`), and an input is cut into the lines that it was put together
from (`linesOf_join`).
-/

namespace Reckoner

/-! ## Carrying out lines -/

/-- The lines of a run that are carried out: those up to the first that asks to leave, and all of
them if none does. -/
def Session.executed (s : Session) (lines : List String) : List String :=
  lines.take ((s.outcomes lines).findIdx (fun outcome => outcome.2.leaving) + 1)

theorem Session.executed_cons (s : Session) (line : String) (rest : List String) :
    s.executed (line :: rest) = line ::
      if (s.runLine line).2.leaving then [] else (s.runLine line).2.executed rest := by
  rw [executed, outcomes, List.findIdx_cons]
  cases (s.runLine line).2.leaving <;> rfl

/-- The lines of a run that are carried out are answered by texts. -/
inductive Session.Answered : Session → List String → List String → Prop where
  | nil (s : Session) : Answered s [] []
  | last {s s' : Session} {line text : String} (rest : List String)
      (hline : s.runLine line = (.ok text, s')) (hleaving : s'.leaving = true) :
      Answered s (line :: rest) [text]
  | cons {s s' : Session} {line text : String} {rest texts : List String}
      (hline : s.runLine line = (.ok text, s')) (hleaving : s'.leaving = false)
      (hrest : Answered s' rest texts) : Answered s (line :: rest) (text :: texts)

variable {s : Session} {lines texts : List String}

theorem Session.answered_of_outcomes
    (h : (s.outcomes (s.executed lines)).map Prod.fst = texts.map .ok) :
    s.Answered lines texts := by
  induction lines generalizing s texts with
  | nil =>
    obtain rfl : texts = [] := List.map_eq_nil_iff.mp h.symm
    exact .nil s
  | cons line rest ih =>
    rw [executed_cons, outcomes] at h
    obtain ⟨text, texts, rfl, htext, hrest⟩ := List.map_eq_cons_iff.mp h.symm
    have hline : s.runLine line = (.ok text, (s.runLine line).2) := Prod.ext htext.symm rfl
    cases hleaving : (s.runLine line).2.leaving with
    | true =>
      rw [hleaving, if_pos rfl] at hrest
      obtain rfl : texts = [] := List.map_eq_nil_iff.mp hrest
      exact .last rest hline hleaving
    | false =>
      rw [hleaving, if_neg Bool.false_ne_true] at hrest
      exact .cons hline hleaving (ih hrest.symm)

/-- The answers are what is printed for lines given as options. -/
theorem runBatch_eq (h : s.Answered lines texts) :
    runBatch s lines = .ok (String.join (texts.map printed),
      (s.outcomes (s.executed lines)).any fun outcome => outcome.2.lastError.isSome) := by
  induction h with
  | nil => rfl
  | last rest hline hleaving =>
    simp [runBatch, Session.executed_cons, Session.outcomes, hline, hleaving]
  | cons hline hleaving _ ih =>
    simp only [runBatch, Session.executed_cons, Session.outcomes, hline, hleaving,
      Bool.false_eq_true, if_false, ih, List.any_cons, List.map_cons, String.join_cons]

/-- The same answers are printed in a conversation, each behind an invitation. The conversation
ends with one more of them when its input does. -/
theorem converse_eq (h : s.Answered lines texts) (invitation : String) :
    converse invitation s lines
      = .ok (String.join (texts.map fun text => invitation ++ printed text)
        ++ if (s.outcomes (s.executed lines)).any fun outcome => outcome.2.leaving then ""
          else invitation ++ "\n") := by
  induction h with
  | nil => simp [converse, Session.executed, Session.outcomes]
  | last rest hline hleaving =>
    simp [converse, exchange, Session.executed_cons, Session.outcomes, hline, hleaving]
  | cons hline hleaving _ ih =>
    simp only [converse, exchange, Session.executed_cons, Session.outcomes, hline, hleaving,
      Bool.false_eq_true, if_false, ih, List.any_cons, Bool.false_or, List.map_cons,
      String.join_cons, Except.map, String.append_assoc]

/-! ## Reading options -/

namespace Options

theorem not_mem_longName : ∀ entry ∈ Flag.longNames, '=' ∉ entry.1.toList := by decide +kernel

theorem ofName?_longName :
    ∀ entry ∈ Flag.longNames, Flag.ofName? entry.1.toList = some entry.2 := by
  decide +kernel

theorem dashes_longName : ∀ entry ∈ Flag.longNames, ['-', '-'] <+: entry.1.toList := by
  decide +kernel

theorem ofName?_of_mem {name : List Char} (h : '=' ∈ name) (hlen : 2 < name.length) :
    Flag.ofName? name = none := by
  unfold Flag.ofName?
  split
  · simp at hlen
  · rw [Option.map_eq_none_iff, List.find?_eq_none]
    intro entry hentry hname
    exact not_mem_longName entry hentry (eq_of_beq hname ▸ h)

/-- A long name with a value attached is that option with that value, whatever the value is. -/
theorem classify_attached {long : String} {flag : Flag} (h : (long, flag) ∈ Flag.longNames)
    (value : String) : classify (long ++ "=" ++ value) = .option flag (some value.toList) := by
  obtain ⟨letters, hletters⟩ := dashes_longName _ h
  have hchars : (long ++ "=" ++ value).toList = long.toList ++ '=' :: value.toList := by
    simp
  have hsplit : splitEquals (long.toList ++ '=' :: value.toList)
      = (long.toList, some value.toList) := by
    have hlong : ∀ c ∈ long.toList, (c != '=') = true := by
      intro c hc
      rw [bne_iff_ne]
      rintro rfl
      exact not_mem_longName _ h hc
    have hstop : ∀ c, ('=' :: value.toList).head? = some c → (c != '=') = false := by
      rintro c hc
      obtain rfl := Option.some.inj hc
      rfl
    obtain ⟨htake, hdrop⟩ := takeWhile_append_of_stop hlong hstop
    rw [splitEquals, htake, hdrop]
  have hwhole : Flag.ofName? (long.toList ++ '=' :: value.toList) = none := by
    refine ofName?_of_mem (List.mem_append_right _ List.mem_cons_self) ?_
    rw [← hletters]
    simp only [List.length_append, List.length_cons]
    omega
  rw [classify, hchars, hsplit]
  simp only [hwhole, ofName?_longName _ h]
  rw [← hletters]
  rfl

theorem readArgument?_attached {long : String} {flag : Flag} (h : (long, flag) ∈ Flag.longNames)
    (hvalue : flag.needsValue = true) (o : Options) (value : String) :
    o.readArgument? (long ++ "=" ++ value) = (o.set? flag value).map fun o => (o, none) := by
  rw [readArgument?, classify_attached h]
  simp [hvalue]

/-- Arguments are read on from where those before them have led. -/
theorem readFrom?_append {o o' : Options} {wanting : Option Flag} {args : List String}
    (h : readFrom? o wanting args = some o') (more : List String) :
    readFrom? o wanting (args ++ more) = readFrom? o' none more := by
  induction args generalizing o wanting with
  | nil =>
    cases wanting with
    | none => rw [← Option.some.inj h]; rfl
    | some flag => cases h
  | cons arg rest ih =>
    rw [List.cons_append]
    cases wanting with
    | none =>
      rw [readFrom?] at h ⊢
      cases hread : o.readArgument? arg with
      | none =>
        rw [hread] at h
        cases h
      | some result =>
        rw [hread] at h
        exact ih h
    | some flag =>
      rw [readFrom?] at h ⊢
      cases hclass : classify arg with
      | plain =>
        rw [hclass] at h
        dsimp only at h ⊢
        cases hset : o.set? flag arg with
        | none =>
          rw [hset] at h
          cases h
        | some next =>
          rw [hset] at h
          exact ih h
      | option | letters | unknown =>
        rw [hclass] at h
        cases h

/-- Lines given as options are lines to run. -/
theorem readFrom?_commands (o : Options) (lines : List String) :
    readFrom? o none (lines.map ("--command=" ++ ·))
      = some { o with lines := o.lines ++ lines } := by
  induction lines generalizing o with
  | nil => rw [List.append_nil]; rfl
  | cons line rest ih =>
    have hread : o.readArgument? ("--command=" ++ line)
        = some ({ o with lines := o.lines ++ [line] }, none) := by
      rw [show "--command=" = "--command" ++ "=" by decide,
        @readArgument?_attached "--command" .command (by decide) rfl, set?]
      rfl
    rw [List.map_cons, readFrom?, hread]
    dsimp only
    rw [ih, List.append_assoc]
    rfl

end Options

/-! ## Reading input -/

theorem linesFrom_append {cs : List Char} (h : '\n' ∉ cs) (current rest : List Char) :
    linesFrom current (cs ++ '\n' :: rest)
      = String.ofList (current.reverse ++ cs) :: linesFrom [] rest := by
  induction cs generalizing current with
  | nil => simp [linesFrom]
  | cons c cs ih =>
    have hc : c ≠ '\n' := fun heq => h (heq ▸ List.mem_cons_self)
    have hcs : '\n' ∉ cs := fun hmem => h (List.mem_cons_of_mem c hmem)
    rw [List.cons_append, linesFrom, if_neg hc, ih hcs]
    simp

/-- An input of lines that have no break in them is read as these lines. -/
theorem linesOf_join (h : ∀ line ∈ lines, '\n' ∉ line.toList) :
    linesOf (String.join (lines.map (· ++ "\n"))) = lines := by
  induction lines with
  | nil => rfl
  | cons line rest ih =>
    have hchars : (String.join ((line :: rest).map (· ++ "\n"))).toList
        = line.toList ++ '\n' :: (String.join (rest.map (· ++ "\n"))).toList := by
      simp
    rw [linesOf, hchars, linesFrom_append (h line List.mem_cons_self)]
    rw [← linesOf, ih fun other hother => h other (List.mem_cons_of_mem _ hother)]
    simp

/-! ## The program -/

/-- The arguments that set the unit of angles, the cap and the invitation, those that are given. -/
def Options.settings (mode : Option TrigMode) (cap : Option DigitCap)
    (invitation : Option String) : List String :=
  (mode.map fun mode => "--mode=" ++ mode.text).toList
    ++ (cap.map fun cap => "--digits=" ++ toString cap.val).toList
    ++ (invitation.map ("--prompt=" ++ ·)).toList

/-- Every setting can be given. -/
theorem Options.read?_settings (mode : Option TrigMode) (cap : Option DigitCap)
    (invitation : Option String) :
    read? (settings mode cap invitation)
      = some ⟨[], cap, mode, invitation.getD ": ", false⟩ := by
  have hmode : ∀ (o : Options) (mode : TrigMode),
      o.readArgument? ("--mode=" ++ mode.text) = some ({ o with mode := some mode }, none) := by
    intro o mode
    rw [show "--mode=" = "--mode" ++ "=" by decide,
      @readArgument?_attached "--mode" .mode (by decide) rfl]
    cases mode <;> rfl
  have hcap : ∀ (o : Options) (cap : DigitCap),
      o.readArgument? ("--digits=" ++ toString cap.val)
        = some ({ o with cap := some cap }, none) := by
    intro o cap
    have hread : ∀ cap : DigitCap, Whole.read (toString cap.val) = .ok (cap.val : Int) := by
      decide +kernel
    rw [show "--digits=" = "--digits" ++ "=" by decide,
      @readArgument?_attached "--digits" .digits (by decide) rfl, set?, hread]
    simp only [Datum.toDigitCap_cap]
    rfl
  have hinvitation : ∀ (o : Options) (invitation : String),
      o.readArgument? ("--prompt=" ++ invitation)
        = some ({ o with invitation := invitation }, none) := by
    intro o invitation
    rw [show "--prompt=" = "--prompt" ++ "=" by decide,
      @readArgument?_attached "--prompt" .invitation (by decide) rfl]
    rfl
  rw [read?, settings]
  cases mode <;> cases cap <;> cases invitation <;>
    simp only [Option.map_some, Option.map_none, Option.toList_some, Option.toList_none,
      List.nil_append, List.cons_append, readFrom?, hmode, hcap, hinvitation] <;> rfl

/-- **Lines are carried out the same as options and in conversation.** For any settings and any
lines, if the lines up to the first that asks to leave are all answered: given as options, they have
their answers printed, and the status tells whether one was at fault. Typed in, they have the same
answers printed behind invitations, with one invitation more if the conversation ends with its
input. -/
theorem batch_and_conversation_agree {args lines texts : List String} {mode : Option TrigMode}
    {cap : Option DigitCap} {invitation : String}
    (hargs : Options.read? args = some ⟨[], cap, mode, invitation, false⟩)
    (hlines : lines ≠ []) (hbreaks : ∀ line ∈ lines, '\n' ∉ line.toList) :
    let s := Session.start (.fresh [] (mode.getD .degrees) (cap.getD .standard))
    let run := s.outcomes (s.executed lines)
    run.map Prod.fst = texts.map .ok →
      (∀ input, runProgram (args ++ lines.map ("--command=" ++ ·)) input
        = .ok (String.join (texts.map fun text => if text.isEmpty then "" else text ++ "\n"),
          if run.any fun outcome => outcome.2.lastError.isSome then 1 else 0)) ∧
      runProgram args (String.join (lines.map (· ++ "\n")))
        = .ok (String.join (texts.map fun text =>
            invitation ++ if text.isEmpty then "" else text ++ "\n")
          ++ (if run.any fun outcome => outcome.2.leaving then "" else invitation ++ "\n"), 0) := by
  intro s run htexts
  have hanswered : s.Answered lines texts := Session.answered_of_outcomes htexts
  constructor
  · intro input
    have hread : Options.read? (args ++ lines.map ("--command=" ++ ·))
        = some ⟨lines, cap, mode, invitation, false⟩ := by
      rw [Options.read?, Options.readFrom?_append hargs, Options.readFrom?_commands]
      rfl
    have hempty : lines.isEmpty = false := by simpa using hlines
    rw [runProgram, hread]
    simp only [Bool.false_eq_true, if_false, hempty]
    rw [Options.session, runBatch_eq hanswered]
    rfl
  · rw [runProgram, hargs]
    simp only [Bool.false_eq_true, if_false, List.isEmpty_nil, if_true]
    rw [linesOf_join hbreaks, Options.session, converse_eq hanswered]
    rfl

/-- A command, a blank line and a line at fault are carried out, and so is the one that asks to
leave; the line behind it is not. -/
theorem batch_and_conversation_until_exit :
    let args := Options.settings (some .radians) (some 3) (some "> ")
    let lines := ["deg", "", ")", "exit", "1"]
    let texts := ["trig mode: degrees", "", "error: unexpected closing ')' at span [0, 1)", ""]
    let s := Session.start (.fresh [] .radians 3)
    let run := s.outcomes (s.executed lines)
    Options.read? args = some ⟨[], some 3, some .radians, "> ", false⟩ ∧ lines ≠ [] ∧
      (∀ line ∈ lines, '\n' ∉ line.toList) ∧ run.map Prod.fst = texts.map .ok ∧
      (∀ input, runProgram (args ++ lines.map ("--command=" ++ ·)) input
        = .ok (String.join (texts.map fun text => if text.isEmpty then "" else text ++ "\n"),
          if run.any fun outcome => outcome.2.lastError.isSome then 1 else 0)) ∧
      runProgram args (String.join (lines.map (· ++ "\n")))
        = .ok (String.join (texts.map fun text =>
            "> " ++ if text.isEmpty then "" else text ++ "\n")
          ++ (if run.any fun outcome => outcome.2.leaving then "" else "> " ++ "\n"), 0) := by
  intro args lines texts s run
  have hargs : Options.read? args = some ⟨[], some 3, some .radians, "> ", false⟩ :=
    Options.read?_settings (some .radians) (some 3) (some "> ")
  have hbreaks : ∀ line ∈ lines, '\n' ∉ line.toList := by decide
  let env : Environment := { s.env with mode := .degrees }
  let fault : CalcError := .unbalanced ⟨.unexpected, ⟨.rightParen, ")", 0, 1⟩⟩
  have hcommands : Command.ofTokens? (scan "deg") = some (.useMode .degrees)
      ∧ Command.ofTokens? (scan "exit") = some .leave := by decide +kernel
  have hdeg : s.runLine "deg" = (.ok "trig mode: degrees", ⟨env, false, none⟩) :=
    Session.runLine_of_command hcommands.1 rfl
  have hblank : Session.runLine ⟨env, false, none⟩ "" = (.ok "", ⟨env, false, none⟩) := by
    rw [Session.runLine, show scan "" = [] by decide +kernel]
    rfl
  have hparen : Session.runLine ⟨env, false, none⟩ ")"
      = (.ok "error: unexpected closing ')' at span [0, 1)", ⟨env, false, some fault⟩) := by
    rw [Session.runLine, show scan ")" = [⟨.rightParen, ")", 0, 1⟩] by decide +kernel]
    rfl
  have hexit : Session.runLine ⟨env, false, some fault⟩ "exit" = (.ok "", ⟨env, true, none⟩) :=
    Session.runLine_of_command hcommands.2 rfl
  have htexts : run.map Prod.fst = texts.map .ok := by
    simp only [run, lines, Session.executed_cons, hdeg, hblank, hparen, hexit, if_true,
      Bool.false_eq_true, if_false, Session.outcomes]
    rfl
  obtain ⟨hbatch, hconverse⟩ :=
    batch_and_conversation_agree hargs (List.cons_ne_nil _ _) hbreaks htexts
  exact ⟨hargs, List.cons_ne_nil _ _, hbreaks, htexts, hbatch, hconverse⟩

end Reckoner
