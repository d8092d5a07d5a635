import Reckoner.Command
import Reckoner.Proofs.Agreement
import Reckoner.Proofs.Frame
import Reckoner.Proofs.Relayout
import Reckoner.Proofs.Uniformity

/-!
# Evaluation does not look at the layout

Trees that differ only in the spans of their tokens have the same meaning but for the bodies that
they define and the nodes that their errors show, and both are shown by their texts alone
(`reshapes_sameText`). So in environments that are the same up to the spans in the bodies of their
functions, they come to the same value, or fail with the same words, and leave environments behind
that are the same in this way (`like_of_sameText`, by induction on the depth of calls). A command
that is read from the tokens cannot tell the environments apart either.
-/

namespace Reckoner

/-! ## Scopes with related values -/

/-- Two layers have the same names in the same order and bind them to what is related. -/
def Layer.Aligned {α : Type} (R : α → α → Prop) : Layer α → Layer α → Prop :=
  List.Forall₂ fun binding binding' => binding.1 = binding'.1 ∧ R binding.2 binding'.2

def Scope.Aligned {α : Type} (R : α → α → Prop) (s s' : Scope α) : Prop :=
  List.Forall₂ (Layer.Aligned R) s.layers s'.layers

namespace Layer.Aligned

variable {α : Type} {R : α → α → Prop} {layer layer' : Layer α}

theorem find? (h : layer.Aligned R layer') (name : String) :
    Option.Rel R (layer.find? name) (layer'.find? name) := by
  rw [Aligned] at h
  induction h with
  | nil => exact .none
  | @cons binding binding' rest rest' hbinding _ ih =>
    rw [Layer.find?, Layer.find?, hbinding.1]
    split
    · exact .some hbinding.2
    · exact ih

theorem set (h : layer.Aligned R layer') (name : String) {a a' : α} (ha : R a a') :
    (layer.set name a).Aligned R (layer'.set name a') := by
  rw [Aligned] at h
  induction h with
  | nil => exact .cons ⟨rfl, ha⟩ .nil
  | @cons binding binding' rest rest' hbinding hrest ih =>
    rw [Layer.set, Layer.set, hbinding.1]
    split
    · exact .cons ⟨rfl, ha⟩ hrest
    · exact .cons ⟨rfl, hbinding.2⟩ ih

/-- What cannot tell related values apart makes the same of both layers. -/
theorem map_eq {β : Type} {g : String × α → β}
    (hg : ∀ name a a', R a a' → g (name, a) = g (name, a')) (h : layer.Aligned R layer') :
    layer.map g = layer'.map g := by
  rw [← List.forall₂_eq_eq_eq, List.forall₂_map_left_iff, List.forall₂_map_right_iff]
  refine List.Forall₂.imp ?_ h
  rintro ⟨name, a⟩ ⟨_, a'⟩ ⟨rfl, ha⟩
  exact hg name a a' ha

theorem names_eq (h : layer.Aligned R layer') : layer.names = layer'.names :=
  h.map_eq fun _ _ _ _ => rfl

end Layer.Aligned

namespace Scope.Aligned

variable {α : Type} {R : α → α → Prop} {s s' : Scope α}

theorem refl (hR : ∀ a, R a a) (s : Scope α) : s.Aligned R s :=
  List.forall₂_same.mpr fun _ _ => List.forall₂_same.mpr fun binding _ => ⟨rfl, hR binding.2⟩

theorem find? (h : s.Aligned R s') (name : String) :
    Option.Rel R (s.find? name) (s'.find? name) := by
  have hmatches : s.Matches R s' := List.Forall₂.imp (fun _ _ hlayer => hlayer.find?) h
  exact hmatches.find? name

theorem enter (h : s.Aligned R s') : s.enter.Aligned R s'.enter :=
  .cons .nil h

theorem leave (h : s.Aligned R s') : s.leave.Aligned R s'.leave :=
  forall₂_layers_leave h

theorem set (h : s.Aligned R s') (name : String) {a a' : α} (ha : R a a') :
    (s.set name a).Aligned R (s'.set name a') := by
  cases h with
  | cons hinner houter => exact .cons (hinner.set name ha) houter

theorem names_eq (h : s.Aligned R s') : s.names = s'.names := by
  have hlayers : s.layers.map Layer.names = s'.layers.map Layer.names := by
    rw [← List.forall₂_eq_eq_eq, List.forall₂_map_left_iff, List.forall₂_map_right_iff]
    exact List.Forall₂.imp (fun _ _ hlayer => hlayer.names_eq) h
  rw [names, names, List.flatMap_def, List.flatMap_def, hlayers]

/-- The visible bindings stand in the same order. -/
theorem sorted (h : s.Aligned R s') : Layer.Aligned R s.sorted s'.sorted := by
  rw [Scope.sorted, Scope.sorted, h.names_eq]
  refine List.rel_filterMap (fun name _ hname => ?_) (List.forall₂_same.mpr fun _ _ => rfl)
  obtain rfl : name = _ := hname
  have hfound := h.find? name
  generalize s.find? name = found at hfound
  generalize s'.find? name = found' at hfound
  cases hfound with
  | none => exact .none
  | some ha => exact .some ⟨rfl, ha⟩

end Scope.Aligned

/-! ## Environments and failures -/

/-- The functions take the same parameters, and their bodies differ in spans only. -/
structure Function.SameText (f f' : Function) : Prop where
  params : f.params = f'.params
  body : f.body.SameText f'.body

/-- Two environments are the same, but for the spans in the bodies of their functions. -/
structure Environment.SameText (env env' : Environment) : Prop where
  vars : env.vars = env'.vars
  functions : env.functions.Aligned Function.SameText env'.functions
  mode : env.mode = env'.mode
  cap : env.cap = env'.cap
  seed : env.seed = env'.seed

namespace Environment.SameText

variable {env env' : Environment}

theorem refl (env : Environment) : env.SameText env :=
  ⟨rfl, .refl (fun f => ⟨rfl, .refl f.body⟩) _, rfl, rfl, rfl⟩

theorem setVariable (h : env.SameText env') (name : String) (v : Value) :
    (env.setVariable name v).SameText (env'.setVariable name v) :=
  { h with vars := congrArg (·.set name v) h.vars }

theorem define (h : env.SameText env') (name : String) {f f' : Function} (hf : f.SameText f') :
    (env.define name f).SameText (env'.define name f') :=
  { h with functions := h.functions.set name hf }

theorem frame (h : env.SameText env') : env.frame.SameText env'.frame :=
  { h with vars := congrArg Scope.enter h.vars, functions := h.functions.enter }

theorem leave (h : env.SameText env') {callee callee' : Environment}
    (hcallee : callee.SameText callee') : (env.leave callee).SameText (env'.leave callee') :=
  { h with vars := congrArg Scope.leave hcallee.vars, functions := hcallee.functions.leave }

theorem reset (h : env.SameText env') : env.reset.SameText env'.reset :=
  ⟨congrArg (fun seed => Scope.ofLayer (startOf seed)) h.seed, .cons .nil .nil, h.mode, h.cap,
    h.seed⟩

end Environment.SameText

/-- Two failures are the same, or errors of one sort that say the same. -/
inductive Failure.SameWording : Failure → Failure → Prop
  | same (failure : Failure) : SameWording failure failure
  | reported {error error' : CalcError} : error.sort = error'.sort →
    error.message = error'.message → SameWording (.reported error) (.reported error')

theorem CalcError.message_notApplicable (left right : Node) :
    (notApplicable left right).message
      = "could not parse expression: left: " ++ left.flat ++ "; right: " ++ right.flat ++ ";" :=
  rfl

theorem CalcError.message_malformed (node : Node) :
    (malformed node).message = "could not parse expression: " ++ node.flat :=
  rfl

/-! ## Evaluation -/

/-- Other spans reshape any tree. -/
theorem reshapes_sameText :
    Node.Reshapes Node.SameText Failure.SameWording Node.SameText where
  rewraps := Node.SameText.rewraps
  row := by
    intro row m h
    cases h with
    | @group _ row' hrow => exact ⟨row', hrow, rfl⟩
  call := by
    intro callee right m hk h
    cases h with
    | group hrow =>
      obtain ⟨first, right', rfl, hfirst, hright⟩ := exists_of_forall₂_two hrow
      obtain ⟨callee', rfl, hk', htext⟩ := hfirst.rewraps.exists_leaf
      refine ⟨right'.arguments, hright.forall₂_arguments, ?_⟩
      rw [Node.meaning_call (hk'.trans hk), htext]
  definition := by
    intro n m named stored function params h ha hs
    cases h with
    | leaf => cases ha
    | group hrow =>
      obtain ⟨named', stored', ha', hnamed, hstored⟩ :=
        exists_assignment Node.SameText.rewraps hrow ha
      refine ⟨stored', hstored, ?_⟩
      rw [Node.meaning_assignment ha', hnamed.signature?_eq, hs]
  notApplicable hleft hright := by
    refine .reported rfl ?_
    rw [CalcError.message_notApplicable, CalcError.message_notApplicable, hleft.flat_eq,
      hright.flat_eq]
  malformed hrow := by
    refine .reported rfl ?_
    rw [CalcError.message_malformed, CalcError.message_malformed,
      (Node.SameText.group hrow).flat_eq]

def byText : Comparison Unit :=
  ⟨fun _ => Environment.SameText, (· = ·), Failure.SameWording⟩

theorem respected_byText : byText.Respected :=
  Comparison.respected_of_eq rfl (fun _ => .same _) (fun _ => .same _) (fun henv => henv.mode)
    (fun henv => henv.cap) (fun henv name => congrArg (·.find? name) henv.vars)
    (fun henv => henv.setVariable)

theorem callsRelate_byText (depth : Nat) :
    byText.CallsRelate (.framed depth) (.framed depth) := by
  intro i caller caller' hcaller
  rw [(framed_framed depth).enter, (framed_framed depth).leave]
  exact ⟨(), hcaller.frame, fun _ _ hcallee => hcaller.leave hcallee⟩

/-- Trees with the same text are evaluated alike if the bodies of functions are. -/
theorem like_of_run {depth : Nat}
    (hrun : ∀ body body', body.SameText body' → ∀ i, byText.Relate i byText.values
      ((Calls.framed depth).run body) ((Calls.framed depth).run body'))
    {tree tree' : Node} (h : tree.SameText tree') :
    byText.Like (.framed depth) (.framed depth) tree.meaning tree'.meaning := by
  refine respected_byText.like_of_alike (callsRelate_byText depth)
    (reshapes_sameText.alike_meaning h) fun part _ => ?_
  cases part with
  | call function args =>
    intro i env env' henv
    have hfound := henv.functions.find? function
    generalize env.functions.find? function = found at hfound ⊢
    generalize env'.functions.find? function = found' at hfound ⊢
    cases hfound with
    | none => exact .none
    | some hf => exact .some ⟨hf.params, hrun _ _ hf.body⟩
  | definition function params body =>
    intro body' hbody i env env' henv
    exact henv.define function ⟨rfl, hbody⟩
  | _ => trivial

/-- **Evaluation does not look at spans.** -/
theorem like_of_sameText (depth : Nat) {tree tree' : Node} (h : tree.SameText tree') :
    byText.Like (.framed depth) (.framed depth) tree.meaning tree'.meaning := by
  induction depth generalizing tree tree' with
  | zero => exact like_of_run (fun _ _ _ _ => .throw (Failure.SameWording.same _)) h
  | succ depth ih =>
    refine like_of_run (fun body body' hbody => ?_) h
    show byText.Like (.framed depth) (.framed depth) body.meaning body'.meaning
    exact ih hbody

theorem Failure.SameWording.eq_runaway_iff {failure failure' : Failure}
    (h : failure.SameWording failure') : failure = .runaway ↔ failure' = .runaway := by
  cases h with
  | same => exact Iff.rfl
  | reported => simp

/-! ## Commands -/

theorem Command.ofTokens?_eq {tokens tokens' : List Token}
    (h : List.Forall₂ Token.SameText tokens tokens') : ofTokens? tokens' = ofTokens? tokens := by
  cases h with
  | nil => rfl
  | @cons t u rest rest' hfirst hrest =>
    have htexts : rest'.map Token.text = rest.map Token.text := by
      rw [← List.forall₂_eq_eq_eq, List.forall₂_map_left_iff, List.forall₂_map_right_iff]
      exact (hrest.imp fun _ _ => Token.SameText.text).flip
    rw [ofTokens?, ofTokens?, hfirst.kind, hfirst.text, htexts]

theorem Command.listing_eq {env env' : Environment} (h : env.SameText env') :
    listing env = listing env' := by
  rw [listing, listing, h.vars, h.cap, h.functions.sorted.map_eq]
  intro name f f' hf
  dsimp only
  rw [hf.params, hf.body.flat_eq]

/-- A command gives the same reply and leaves environments behind that are the same but for the
spans in bodies. -/
theorem Command.run_sameText (command : Command) {env env' : Environment} (h : env.SameText env') :
    OutcomesRelate (· = ·) (fun reply reply' => reply.1 = reply'.1 ∧ reply.2.SameText reply'.2)
      (command.run env) (command.run env') := by
  cases command with
  | useMode mode => exact .ok ⟨rfl, { h with mode := rfl }⟩
  | digits wanted =>
    cases wanted with
    | none =>
      refine .ok ⟨?_, h⟩
      rw [capStatus, capStatus, h.cap]
    | some wanted =>
      rw [run, run, setCap, setCap]
      split
      · split
        · exact .error rfl
        · exact .error rfl
        · split
          · exact .ok ⟨rfl, { h with cap := rfl }⟩
          · exact .ok ⟨rfl, h⟩
      · exact .ok ⟨rfl, h⟩
  | clear => exact .ok ⟨rfl, h.reset⟩
  | listBindings =>
    refine .ok ⟨?_, h⟩
    rw [listing_eq h]
  | leave => exact .ok ⟨rfl, h⟩

/-! ## Lines -/

/-- **Layout shows in spans only.** The lines that lay out the tokens of a line, with blanks wherever
they like, are those whose tokens differ from them in their spans only. Tokens that differ so are
built into trees that do, or are refused with an error of one sort about tokens at one place. The
trees come to the same value, or to errors of the same sort and wording, in environments that are
the same but for the spans in bodies, and so are the environments afterwards. The same commands are
read from the tokens, with the same replies. -/
theorem layout_shows_in_spans_only :
    (∀ line again : String, LaidOut (scan line) again.toList ↔
      List.Forall₂ Token.SameText (scan line) (scan again)) ∧
    ∀ tokens tokens' : List Token, List.Forall₂ Token.SameText tokens tokens' →
      BuildsAlike tokens tokens' Node.SameText (buildTree tokens) (buildTree tokens') ∧
      (∀ tree tree', buildTree tokens = .ok tree → buildTree tokens' = .ok tree' →
        ∀ env env' : Environment, env.SameText env' →
          (∀ depth, ResultsRelate Environment.SameText Failure.SameWording (· = ·)
            (evalWithin depth tree env) (evalWithin depth tree' env')) ∧
          ((∀ depth, ∃ after, evalWithin depth tree env = .error .runaway after) ↔
            ∀ depth, ∃ after, evalWithin depth tree' env' = .error .runaway after)) ∧
      Command.ofTokens? tokens' = Command.ofTokens? tokens ∧
      ∀ command, Command.ofTokens? tokens = some command →
        ∀ env env' : Environment, env.SameText env' →
          OutcomesRelate (· = ·)
            (fun reply reply' => reply.1 = reply'.1 ∧ reply.2.SameText reply'.2)
            (command.run env) (command.run env') := by
  refine ⟨fun line again => laidOut_scan_iff, fun tokens tokens' htokens => ?_⟩
  have hbuilds := buildTree_alike htokens
  refine ⟨hbuilds, fun tree tree' htree htree' env env' henv => ?_, Command.ofTokens?_eq htokens,
    fun command _ env env' henv => command.run_sameText henv⟩
  rw [htree, htree'] at hbuilds
  cases hbuilds with
  | ok hsame =>
    have hrelate : ∀ depth, ResultsRelate Environment.SameText Failure.SameWording (· = ·)
        (evalWithin depth tree env) (evalWithin depth tree' env') := fun depth =>
      like_of_sameText depth hsame () env env' henv
    exact ⟨hrelate, forall_congr' fun depth =>
      (hrelate depth).fails_iff fun _ _ h => h.eq_runaway_iff⟩

/-- The call `half(9)` and the command `digits 4`, each typed with other blanks, where the body of
the function has been typed with other blanks too. -/
theorem layout_of_half :
    let body := fun start => Node.group [.leaf ⟨.name, "v", start, start + 1⟩,
      .leaf ⟨.operator, "/", start + 1, start + 2⟩, .leaf ⟨.number, "2", start + 2, start + 3⟩]
    let env := Environment.standard.define "half" ⟨["v"], body 8⟩
    let env' := Environment.standard.define "half" ⟨["v"], body 12⟩
    List.Forall₂ Token.SameText (scan "half(9)") (scan " half (9 )") ∧
      (∃ tree tree', buildTree (scan "half(9)") = .ok tree ∧
        buildTree (scan " half (9 )") = .ok tree' ∧
        ∀ depth, ResultsRelate Environment.SameText Failure.SameWording (· = ·)
          (evalWithin depth tree env) (evalWithin depth tree' env')) ∧
      OutcomesRelate (· = ·) (fun reply reply' => reply.1 = reply'.1 ∧ reply.2.SameText reply'.2)
        ((Command.digits (some "4")).run env) ((Command.digits (some "4")).run env') := by
  intro body env env'
  obtain ⟨hrescan, hsame⟩ := layout_shows_in_spans_only
  have hbody : (body 8).SameText (body 12) :=
    .group (.cons (.leaf rfl rfl) (.cons (.leaf rfl rfl) (.cons (.leaf rfl rfl) .nil)))
  have henv : env.SameText env' := (Environment.SameText.refl _).define "half" ⟨rfl, hbody⟩
  have hline : scan "half(9)" = [⟨.name, "half", 0, 4⟩, ⟨.leftParen, "(", 4, 5⟩,
      ⟨.number, "9", 5, 6⟩, ⟨.rightParen, ")", 6, 7⟩] := by decide +kernel
  have hagain : scan " half (9 )" = [⟨.name, "half", 1, 5⟩, ⟨.leftParen, "(", 6, 7⟩,
      ⟨.number, "9", 7, 8⟩, ⟨.rightParen, ")", 9, 10⟩] := by decide +kernel
  have hlexed : ∀ t ∈ scan "half(9)", t.Lexed := fun _ ht => Token.lexed_of_mem_scan ht
  have hblank : CharClass.of ' ' = .blank := by decide
  have hgap : ∀ chars, EndsRuns (' ' :: chars) := by
    rintro chars _ ⟨⟩
    exact .inl hblank
  have hlaidOut : LaidOut (scan "half(9)") " half (9 )".toList := by
    rw [hline] at hlexed ⊢
    refine .blank hblank (.lexed (hlexed _ (by simp)) (hgap _) (.blank hblank ?_))
    refine .bracket rfl rfl (.lexed (hlexed _ (by simp)) (hgap _) (.blank hblank ?_))
    exact .bracket rfl rfl .nil
  have htokens := (hrescan _ _).mp hlaidOut
  have htree : buildTree (scan "half(9)") = .ok (.group [.group [.leaf ⟨.name, "half", 0, 4⟩,
      .group [.leaf ⟨.number, "9", 5, 6⟩]]]) := by
    rw [hline]
    rfl
  have htree' : buildTree (scan " half (9 )") = .ok (.group [.group [.leaf ⟨.name, "half", 1, 5⟩,
      .group [.leaf ⟨.number, "9", 7, 8⟩]]]) := by
    rw [hagain]
    rfl
  have hcommand : List.Forall₂ Token.SameText [⟨.name, "digits", 0, 6⟩, ⟨.number, "4", 7, 8⟩]
      [⟨.name, "digits", 1, 7⟩, ⟨.number, "4", 9, 10⟩] :=
    .cons ⟨rfl, rfl⟩ (.cons ⟨rfl, rfl⟩ .nil)
  have hvalues := ((hsame _ _ htokens).2.1 _ _ htree htree' env env' henv).1
  exact ⟨htokens, ⟨_, _, htree, htree', hvalues⟩,
    (hsame _ _ hcommand).2.2.2 (.digits (some "4")) rfl env env' henv⟩

end Reckoner
