import Reckoner.Proofs.Depth
import Reckoner.Proofs.Footprint
import Reckoner.Proofs.Replacement

/-!
# Naming a part of a tree

A node of a tree can be given a name: with its value stored in a variable, the name in its place
leads to the same value or to an error of the same sort (`evalWithin_naming`). The name has to be
new to the tree and to the bodies of functions, and nothing in the tree may assign or define, not
even the pieces that the arguments of calls are cut into (`x_named_behind_assignment` has a piece
that does).

Evaluation then changes no binding outside of the frames of calls, so the node has the same value
wherever evaluation comes across it. The two trees are compared in environments that show just what
they did to begin with, with and without the new variable (`standing`). Inside of a call this is the
case until the arguments have been evaluated. The parameters hide what was there before, and what
the body of the function does from then on is left to the law that it depends on no name but those
that it comes across.
-/

namespace Reckoner

/-! ## Trees that assign nothing -/

/-- No assignment and no definition is in the tree, where `parts` says what is in a node. -/
def Node.AssignmentFree (parts : Node → List Node) (tree : Node) : Prop :=
  ∀ node, Relation.ReflTransGen (fun node part => part ∈ parts node) tree node →
    node.assignment? = none

namespace Node.AssignmentFree

theorem of_forall {parts : Node → List Node} {tree : Node} (hroot : tree.assignment? = none)
    (hparts : ∀ part ∈ parts tree, part.AssignmentFree parts) : tree.AssignmentFree parts := by
  intro node hnode
  rcases hnode.cases_head with rfl | ⟨part, hpart, hrest⟩
  · exact hroot
  · exact hparts part hpart node hrest

theorem of_part {parts : Node → List Node} {tree part : Node} (h : tree.AssignmentFree parts)
    (hpart : part ∈ parts tree) : part.AssignmentFree parts :=
  fun node hnode => h node (.head hpart hnode)

theorem of_mem {children : List Node} {node : Node}
    (h : (Node.group children).AssignmentFree components) (hnode : node ∈ children) :
    node.AssignmentFree components :=
  h.of_part (mem_components hnode)

theorem of_mem_arguments {t : Token} {right arg : Node}
    (h : (Node.group [.leaf t, right]).AssignmentFree components) (hk : t.kind = .name)
    (harg : arg ∈ right.arguments) : arg.AssignmentFree components :=
  h.of_part (mem_components_of_mem_arguments hk harg)

theorem assignment?_of_reaches {tree node : Node} (h : tree.AssignmentFree components)
    (hnode : tree.Reaches node) : node.assignment? = none := by
  refine h node (Relation.ReflTransGen.mono (fun node part hpart => ?_) _ _ hnode)
  cases node with
  | leaf t => cases hpart
  | group children => exact mem_components (mem_of_mem_parts hpart)

/-- A tree that assigns nothing keeps every binding. -/
theorem keeps {tree : Node} (h : tree.AssignmentFree components) (depth : Nat) :
    (evalWithin depth tree).Keeps (fun _ => False) (fun _ => False) := by
  refine (keeps_eval (framed_framed depth) tree).mono ?_ ?_
  · rintro name ⟨node, hnode, hname⟩
    rw [assigned?, h.assignment?_of_reaches hnode] at hname
    cases hname
  · rintro name ⟨node, hnode, hname⟩
    rw [defined?, h.assignment?_of_reaches hnode] at hname
    cases hname

end Node.AssignmentFree

theorem Environment.ChangesOnly.sameBindings {env env' : Environment}
    (h : env.ChangesOnly (fun _ => False) (fun _ => False) env') : env'.SameBindings env where
  mode := h.mode
  cap := h.cap
  seed := h.seed
  vars _ := h.vars.find?_eq id
  functions _ := h.functions.find?_eq id

theorem Environment.ChangesOnly.surroundings_eq {vars functions : String → Prop}
    {env env' : Environment} (h : env.ChangesOnly vars functions env') :
    env'.surroundings = env.surroundings := by
  rw [surroundings, surroundings, h.vars.outer, h.functions.outer]

/-! ## Environments with a new variable -/

/-- The comparison of environments that show what a first one does with environments that show a new
variable as well. -/
def standing (base : Environment) (name : String) (v : Value) :
    Comparison (Surroundings × Surroundings) where
  envs around env env' :=
    (env.SameBindings base ∧ env'.SameBindings (base.setVariable name v)) ∧
      env.surroundings = around.1 ∧ env'.surroundings = around.2
  values := (· = ·)
  failures := Failure.SameSort

section Standing

variable {base : Environment} {name : String} {v : Value} {depth : Nat}

theorem computes_standing : (standing base name v).Computes :=
  Comparison.computes_of_eq rfl (fun _ => .inl rfl) (fun _ => .inl rfl)
    (fun henv => henv.1.1.mode.trans henv.1.2.mode.symm)
    (fun henv => henv.1.1.cap.trans henv.1.2.cap.symm)

/-- What a new variable hides is its name. -/
theorem agreeBut_of_standing
    (hbodies : ∀ function f, base.functions.find? function = some f → f.body.Avoids (· = name))
    {around : Surroundings × Surroundings} {env env' : Environment}
    (h : (standing base name v).envs around env env') :
    (outside (· = name)).envs around env env' := by
  obtain ⟨⟨hsame, hsame'⟩, haround⟩ := h
  refine ⟨⟨hsame.mode.trans hsame'.mode.symm, hsame.cap.trans hsame'.cap.symm,
    fun other hother => ?_,
    fun other _ => (hsame.functions other).trans (hsame'.functions other).symm,
    fun function f _ hf => hbodies function f ((hsame.functions function).symm.trans hf)⟩, haround⟩
  rw [hsame.vars, hsame'.vars]
  exact (Scope.find?_set_of_ne hother base.vars v).symm

/-- Environments stand as they did after trees that assign nothing. -/
theorem standing_after (depth : Nat) {tree tree' : Node}
    (hfree : tree.AssignmentFree Node.components)
    (hfree' : tree'.AssignmentFree Node.components) {around : Surroundings × Surroundings}
    {env env' : Environment} (h : (standing base name v).envs around env env') :
    (standing base name v).envs around ((evalWithin depth tree).after env)
      ((evalWithin depth tree').after env') := by
  obtain ⟨⟨hsame, hsame'⟩, haround, haround'⟩ := h
  have hkeeps := hfree.keeps depth env
  have hkeeps' := hfree'.keeps depth env'
  exact ⟨⟨hkeeps.sameBindings.trans hsame, hkeeps'.sameBindings.trans hsame'⟩,
    hkeeps.surroundings_eq.trans haround, hkeeps'.surroundings_eq.trans haround'⟩

/-- A tree is evaluated alike without the new variable and with it. -/
theorem like_standing
    (hbodies : ∀ function f, base.functions.find? function = some f → f.body.Avoids (· = name))
    {tree : Node} (hfree : tree.AssignmentFree Node.components) (hfresh : tree.Avoids (· = name)) :
    (standing base name v).Like (.framed depth) (.framed depth) tree.meaning tree.meaning := by
  intro around env env' henv
  have hrelate := like_of_avoids depth hfresh around env env' (agreeBut_of_standing hbodies henv)
  exact hrelate.of_after (standing_after depth hfree hfree henv) fun _ _ h => .inl h

/-- A node that has a value to begin with is evaluated like a name for the value. -/
theorem like_name {u after} (hu : evalWithin depth u base = .ok v after)
    (hfree : u.AssignmentFree Node.components) :
    (standing base name v).Like (.framed depth) (.framed depth) u.meaning (.name name) := by
  intro around env env' henv
  have hvalue : ∃ after', evalWithin depth u env = .ok v after' := by
    have hagree : env.AgreeBut (fun _ => False) base := ⟨henv.1.1.mode, henv.1.1.cap,
      fun other _ => henv.1.1.vars other, fun other _ => henv.1.1.functions other,
      fun _ _ _ _ _ _ h => h⟩
    have havoids : u.Avoids fun _ => False := fun _ _ h => h
    have hrelate := resultsRelate_of_avoids depth havoids hagree
    rw [hu] at hrelate
    generalize evalWithin depth u env = result at hrelate
    cases hrelate with
    | ok hv _ => exact ⟨_, by rw [hv]⟩
  obtain ⟨after', hvalue⟩ := hvalue
  have hbound : env'.vars.find? name = some v :=
    (henv.1.2.vars name).trans (Scope.find?_set_self base.vars name v)
  have hlookUp : lookUp name env' = .ok v env' := by
    have hget : (get : Eval Environment) env' = .ok env' env' := rfl
    rw [lookUp, Eval.bind_of_ok hget, hbound]
    rfl
  have hkeeps := hfree.keeps depth env
  rw [Eval.after, hvalue] at hkeeps
  rw [Expr.eval, hlookUp]
  show ResultsRelate _ _ _ (evalWithin depth u env) _
  rw [hvalue]
  exact .ok rfl ⟨⟨hkeeps.sameBindings.trans henv.1.1, henv.1.2⟩,
    hkeeps.surroundings_eq.trans henv.2.1, henv.2.2⟩

/-- Calls of one function with arguments that are evaluated alike are evaluated alike. Only the
arguments are evaluated where the environments show what they did to begin with. -/
theorem like_call
    (hbodies : ∀ function f, base.functions.find? function = some f → f.body.Avoids (· = name))
    (function : String) {args args' : List Expr}
    (hargs : List.Forall₂ ((standing base name v).Like (.framed depth) (.framed depth))
      args args') :
    (standing base name v).Like (.framed depth) (.framed depth) (.call function args)
      (.call function args') := by
  intro around caller caller' hcaller
  have hcalls := framed_framed depth
  let inner := (caller.frame.surroundings, caller'.frame.surroundings)
  have henter : (standing base name v).envs inner ((Calls.framed depth).enter caller)
      ((Calls.framed depth).enter caller') := by
    rw [hcalls.enter]
    exact ⟨⟨hcaller.1.1.frame, hcaller.1.2.frame⟩, rfl, rfl⟩
  have hleave : ∀ callee callee', (outside (· = name)).envs inner callee callee' →
      (standing base name v).envs around ((Calls.framed depth).leave caller callee)
        ((Calls.framed depth).leave caller' callee') := by
    rintro callee callee' ⟨-, hcallee, hcallee'⟩
    rw [hcalls.leave, Environment.leave_eq_of_surroundings hcallee,
      Environment.leave_eq_of_surroundings hcallee']
    exact hcaller
  rw [Expr.eval, Expr.eval]
  refine Comparison.resultsRelate_inside hleave (ResultsRelate.bind
    (Comparison.relate_evalAll hargs inner _ _ henter)
    (fun _ _ => agreeBut_of_standing hbodies)
    fun values values' callee callee' hvalues hcallee => ?_)
  have houtside := agreeBut_of_standing hbodies hcallee
  obtain ⟨⟨hsame, hsame'⟩, -⟩ := hleave callee callee' houtside
  have hfunction := optionRel_of_eq
    (R := (outside (· = name)).RunAlike (.framed depth) (.framed depth))
    ((hsame.functions function).trans (hsame'.functions function).symm) fun f hf =>
      ⟨rfl, relate_run_of_avoids depth
        (hbodies function f ((hsame.functions function).symm.trans hf))⟩
  have happly := (stores_outside (· = name)).relate_applyFunction inner function hfunction hvalues
    callee callee' houtside
  exact happly.mono (fun _ _ h => h) fun _ _ h => .inl h

end Standing

/-! ## Evaluation -/

section Named

variable {base : Environment} {n : Token} {v : Value} {depth : Nat} {u : Node}

theorem Node.isLiteral_append {before : List Node} (h : isLiteral before = true)
    (behind : List Node) : isLiteral (before ++ behind) = true := by
  cases before with
  | nil => cases h
  | cons first rest => exact h

theorem Node.AssignmentFree.not_assignment {parts : Node → List Node} {left right : Node}
    {op : Token} (h : (Node.group [left, .leaf op, right]).AssignmentFree parts)
    (hlit : isLiteral [left, .leaf op, right] = false) :
    ¬(op.kind = .operator ∧ op.text ∈ assignmentOperators) := by
  intro hop
  have hnone := h _ .refl
  rw [assignment?, if_pos ⟨by simp [hlit], hop⟩] at hnone
  cases hnone

/-- **A tree is evaluated like the same tree with a node named.** -/
theorem like_of_naming (hn : n.kind = .name)
    (hbodies : ∀ function f, base.functions.find? function = some f → f.body.Avoids (· = n.text))
    {after : Environment} (hu : evalWithin depth u base = .ok v after) {tree tree' : Node}
    (h : Node.Naming u n tree tree') (hfree : tree.AssignmentFree Node.components)
    (hfresh : tree.Avoids (· = n.text)) :
    (standing base n.text v).Like (.framed depth) (.framed depth) tree.meaning tree'.meaning := by
  have hC : (standing base n.text v).Computes := computes_standing
  induction h with
  | here =>
    have hmeaning : (Node.leaf n).meaning = .name n.text := by
      rw [Node.meaning, if_neg (by simp [hn])]
    rw [hmeaning]
    exact like_name hu hfree
  | wrapped hlit h ih =>
    have hlit' : Node.isLiteral [_] = false := h.isLeafOf hn (by decide)
    rw [Node.meaning_wrapped (by simp [hlit]), Node.meaning_wrapped (by simp [hlit'])]
    exact ih (hfree.of_mem (by simp)) (hfresh.of_mem (by simp))
  | negation hk htext h ih =>
    rw [Node.meaning_negation hk htext, Node.meaning_negation hk htext]
    exact .negation hC (ih (hfree.of_mem (by simp)) (hfresh.of_mem (by simp)))
  | @left left left' right op hlit h ih =>
    have hop := hfree.not_assignment hlit
    have hlit' : Node.isLiteral [left', .leaf op, right] = false := h.isLeafOf hn (by decide)
    rw [Node.meaning_operation (by simp [hlit]) hop, Node.meaning_operation (by simp [hlit']) hop]
    exact .operation hC op.text (ih (hfree.of_mem (by simp)) (hfresh.of_mem (by simp)))
      (like_standing hbodies (hfree.of_mem (by simp)) (hfresh.of_mem (by simp)))
  | @right left right right' op hlit h ih =>
    have hop := hfree.not_assignment hlit
    have hlit' : Node.isLiteral [left, .leaf op, right'] = false := hlit
    rw [Node.meaning_operation (by simp [hlit]) hop, Node.meaning_operation (by simp [hlit']) hop]
    exact .operation hC op.text
      (like_standing hbodies (hfree.of_mem (by simp)) (hfresh.of_mem (by simp)))
      (ih (hfree.of_mem (by simp)) (hfresh.of_mem (by simp)))
  | @element before behind element element' hlit hcomma hsemicolon h ih =>
    rw [Node.meaning_literal (Node.isLiteral_append hlit _),
      Node.meaning_literal (Node.isLiteral_append hlit _)]
    have hsame : ∀ node ∈ before ++ element :: behind, (standing base n.text v).Like
        (.framed depth) (.framed depth) node.meaning node.meaning := fun node hnode =>
      like_standing hbodies (hfree.of_mem hnode) (hfresh.of_mem hnode)
    let R := fun x y : Node => (y.isLeafOf .semicolon = x.isLeafOf .semicolon ∧
      y.isLeafOf .comma = x.isLeafOf .comma) ∧
      (standing base n.text v).Like (.framed depth) (.framed depth) x.meaning y.meaning
    have helement : R element element' := by
      refine ⟨⟨?_, ?_⟩, ih (hfree.of_mem (by simp)) (hfresh.of_mem (by simp))⟩
      · rw [hsemicolon, h.isLeafOf hn (by decide)]
      · rw [hcomma, h.isLeafOf hn (by decide)]
    have hrow : List.Forall₂ R (before ++ element :: behind) (before ++ element' :: behind) :=
      List.rel_append
        (List.forall₂_same.mpr fun node hnode => ⟨⟨rfl, rfl⟩, hsame node (by simp [hnode])⟩)
        (.cons helement
          (List.forall₂_same.mpr fun node hnode => ⟨⟨rfl, rfl⟩, hsame node (by simp [hnode])⟩))
    have hrows := forall₂_literalRows (fun h => h.1.1) (fun h => h.1.2) hrow
    refine .literal hC (List.rel_map (fun row row' hcells => ?_) hrows)
    exact List.rel_map (fun _ _ hcell => hcell.2) hcells
  | argument hk hwhole hwhole' h ih =>
    rw [Node.meaning_call hk, Node.meaning_call hk, hwhole, hwhole']
    exact like_call hbodies _
      (.cons (ih (hfree.of_mem (by simp)) (hfresh.of_mem (by simp))) .nil)
  | @segment t before piece piece' behind hk hlit hsegment h ih =>
    obtain ⟨a, b, hargs, hargs'⟩ := h.exists_arguments_segment hlit hsegment hn
    have hfreeArgs : ∀ arg ∈ a ++ .group piece :: b, arg.AssignmentFree Node.components :=
      fun arg harg => hfree.of_mem_arguments hk (hargs ▸ harg)
    have hfreshArgs : ∀ arg ∈ a ++ .group piece :: b, arg.Avoids (· = n.text) := fun arg harg =>
      (hfresh.of_mem (by simp)).of_mem_arguments (hargs ▸ harg)
    have hsame : ∀ arg ∈ a ++ .group piece :: b, (standing base n.text v).Like
        (.framed depth) (.framed depth) arg.meaning arg.meaning := fun arg harg =>
      like_standing hbodies (hfreeArgs arg harg) (hfreshArgs arg harg)
    rw [Node.meaning_call hk, Node.meaning_call hk, hargs, hargs', List.map_append, List.map_append]
    refine like_call hbodies _ (List.rel_append (forall₂_map_same fun arg harg =>
      hsame arg (by simp [harg])) (.cons ?_ (forall₂_map_same fun arg harg =>
      hsame arg (by simp [harg]))))
    exact ih (hfreeArgs _ (by simp)) (hfreshArgs _ (by simp))
  | @refused before inner inner' behind hrow h ih =>
    obtain ⟨error, hsort, herror⟩ := hrow.exists_error
    obtain ⟨hrow', hsame⟩ := hrow.replace inner'
    obtain ⟨error', hsort', herror'⟩ := hrow'.exists_error
    exact .report (.inr ⟨error, error', rfl, rfl, by rw [hsort, hsort', hsame]⟩) (herror _)
      (herror' _)

/-- **Subexpressions can be named.** A node of a tree that assigns nothing has a value at some depth
of calls. With the value stored in a new variable, the name of it can stand in the place of the
node: from that depth on the tree comes to the same value or to an error of the same sort, and what
is visible stays as it was. It runs away at every depth with the name if it does so without. -/
theorem evalWithin_naming {tree tree' : Node} {env after : Environment} {enough : Nat}
    (hnaming : Node.Naming u n tree tree') (hn : n.kind = .name)
    (hfree : tree.AssignmentFree Node.components) (hfresh : tree.Avoids (· = n.text))
    (hbodies : ∀ function f, env.functions.find? function = some f → f.body.Avoids (· = n.text))
    (hu : evalWithin enough u env = .ok v after) :
    (∀ depth, enough ≤ depth → ResultsRelate
      (fun after after' => after.SameBindings env ∧
        after'.SameBindings (env.setVariable n.text v)) Failure.SameSort (· = ·)
      (evalWithin depth tree env) (evalWithin depth tree' (env.setVariable n.text v))) ∧
    ((∀ depth, ∃ after, evalWithin depth tree env = .error .runaway after) ↔
      ∀ depth, ∃ after,
        evalWithin depth tree' (env.setVariable n.text v) = .error .runaway after) := by
  have hrelate : ∀ depth, enough ≤ depth → ResultsRelate
      (fun after after' => after.SameBindings env ∧
        after'.SameBindings (env.setVariable n.text v)) Failure.SameSort (· = ·)
      (evalWithin depth tree env) (evalWithin depth tree' (env.setVariable n.text v)) := by
    intro depth hdepth
    have hdeeper : evalWithin depth u env = .ok v after := by
      rw [evalWithin_of_le hdepth (by simp [hu]), hu]
    have hresult := like_of_naming hn hbodies hdeeper hnaming hfree hfresh
      (env.surroundings, (env.setVariable n.text v).surroundings) env (env.setVariable n.text v)
      ⟨⟨.refl _, .refl _⟩, rfl, rfl⟩
    exact hresult.mono (fun _ _ h => h.1) fun _ _ h => h
  have haway : ∀ depth, (∃ after, evalWithin (max depth enough) tree env = .error .runaway after) ↔
      ∃ after, evalWithin (max depth enough) tree' (env.setVariable n.text v)
        = .error .runaway after := fun depth =>
    (hrelate _ (Nat.le_max_right depth enough)).fails_iff fun _ _ h => h.eq_runaway_iff
  refine ⟨hrelate, fun h depth => ?_, fun h depth => ?_⟩
  · exact runs_away_of_le (Nat.le_max_left depth enough) ((haway depth).mp (h _))
  · exact runs_away_of_le (Nat.le_max_left depth enough) ((haway depth).mpr (h _))

end Named

/-- The quotient in `half(pi / 2)` named `quarter`, where `half(x)` is `x / 2`. -/
theorem half_of_named_quotient :
    let slash := Node.leaf ⟨.operator, "/", 8, 9⟩
    let two := Node.leaf ⟨.number, "2", 10, 11⟩
    let env := Environment.standard.define "half"
      ⟨["x"], .group [.leaf ⟨.name, "x", 5, 6⟩, slash, two]⟩
    let quotient := Node.group [.leaf ⟨.name, "pi", 5, 7⟩, slash, two]
    let quarter : Token := ⟨.name, "quarter", 5, 12⟩
    let tree := fun argument => Node.group [.leaf ⟨.name, "half", 0, 4⟩, .group [argument]]
    Node.Naming quotient quarter (tree quotient) (tree (.leaf quarter)) ∧
      (tree quotient).AssignmentFree Node.components ∧ (tree quotient).Avoids (· = "quarter") ∧
      (∀ function f, env.functions.find? function = some f → f.body.Avoids (· = "quarter")) ∧
      ∃ v after, evalWithin 0 quotient env = .ok v after ∧
        (∀ depth, 0 ≤ depth → ResultsRelate
          (fun after after' => after.SameBindings env ∧
            after'.SameBindings (env.setVariable "quarter" v)) Failure.SameSort (· = ·)
          (evalWithin depth (tree quotient) env)
          (evalWithin depth (tree (.leaf quarter)) (env.setVariable "quarter" v))) ∧
        ((∀ depth, ∃ after, evalWithin depth (tree quotient) env = .error .runaway after) ↔
          ∀ depth, ∃ after, evalWithin depth (tree (.leaf quarter)) (env.setVariable "quarter" v)
            = .error .runaway after) := by
  intro slash two env quotient quarter tree
  have hsegment : IsSegment [] [quotient] [] :=
    ⟨.inl rfl, .inl rfl, List.forall_mem_singleton.mpr rfl⟩
  have hnaming : Node.Naming quotient quarter (tree quotient) (tree (.leaf quarter)) :=
    Node.Naming.segment rfl rfl hsegment (.wrapped rfl .here)
  have hleaf : ∀ t, (Node.leaf t).AssignmentFree Node.components := fun t =>
    .of_forall rfl (List.forall_mem_nil _)
  have hquotient : quotient.AssignmentFree Node.components :=
    .of_forall rfl (List.forall_mem_cons.mpr ⟨hleaf _, List.forall_mem_cons.mpr ⟨hleaf _,
      List.forall_mem_singleton.mpr (hleaf _)⟩⟩)
  have hargument : (Node.group [quotient]).AssignmentFree Node.components :=
    .of_forall rfl (List.forall_mem_singleton.mpr hquotient)
  have hfree : (tree quotient).AssignmentFree Node.components :=
    .of_forall rfl (List.forall_mem_cons.mpr ⟨hleaf _, List.forall_mem_cons.mpr ⟨hargument,
      List.forall_mem_singleton.mpr hargument⟩⟩)
  have hfresh : (tree quotient).Avoids (· = "quarter") := by
    unfold Node.Avoids Node.AllLeaves
    decide +kernel
  have hbodies : ∀ function f, env.functions.find? function = some f →
      f.body.Avoids (· = "quarter") := by
    intro function f hf
    obtain rfl := eq_of_find?_define hf
    unfold Node.Avoids Node.AllLeaves
    decide +kernel
  have hmeaning : quotient.meaning = .operation "/" (.name "pi") (.number "2") := by
    simp [quotient, slash, two, Node.meaning, Node.isLiteral, Node.isLeafOf, assignmentOperators]
  obtain ⟨v, after, hv⟩ : ∃ v after, evalWithin 0 quotient env = .ok v after := by
    rw [evalWithin, hmeaning]
    exact ⟨_, _, rfl⟩
  exact ⟨hnaming, hfree, hfresh, hbodies, v, after, hv,
    evalWithin_naming hnaming rfl hfree hfresh hbodies hv⟩

/-! ## Pieces that assign -/

/-- The tree of `max(x = + , x)`, with a node in the place of its last argument. -/
def maxBehindAssignment (last : Node) : Node :=
  .group [.group [.leaf ⟨.name, "max", 0, 3⟩,
    .group [.leaf ⟨.name, "x", 4, 5⟩, .leaf ⟨.operator, "=", 6, 7⟩, .leaf ⟨.operator, "+", 8, 9⟩,
      .leaf ⟨.comma, ",", 10, 11⟩, last]]]

theorem meaning_maxBehindAssignment {t : Token} (hk : t.kind = .name) :
    (maxBehindAssignment (.leaf t)).meaning
      = .call "max" [.assignment "x" (.name "+"), .name t.text] := by
  have harguments : (Node.group [.leaf ⟨.name, "x", 4, 5⟩, .leaf ⟨.operator, "=", 6, 7⟩,
      .leaf ⟨.operator, "+", 8, 9⟩, .leaf ⟨.comma, ",", 10, 11⟩, .leaf t]).arguments
      = [.group [.leaf ⟨.name, "x", 4, 5⟩, .leaf ⟨.operator, "=", 6, 7⟩,
        .leaf ⟨.operator, "+", 8, 9⟩], .group [.leaf t]] := by
    simp [Node.arguments, Node.isLiteral, Node.isLeafOf, cutAt, hk]
  have hlast : (Node.group [.leaf t]).meaning = .name t.text := by
    rw [Node.meaning_wrapped (by simp [Node.isLiteral, Node.isLeafOf, hk]), Node.meaning,
      if_neg (by simp [hk])]
  rw [maxBehindAssignment, Node.meaning_wrapped (by simp [Node.isLiteral, Node.isLeafOf]),
    Node.meaning_call rfl, harguments, List.map_cons, List.map_cons, List.map_nil, hlast,
    Node.meaning_assignment rfl]
  simp [Node.meaning, Node.signature?, Node.name?]

theorem parse_maxBehindAssignment :
    parse "max(x = + , x)" = .ok (maxBehindAssignment (.leaf ⟨.name, "x", 12, 13⟩)) := by
  have hscan : scan "max(x = + , x)" = [⟨.name, "max", 0, 3⟩, ⟨.leftParen, "(", 3, 4⟩,
      ⟨.name, "x", 4, 5⟩, ⟨.operator, "=", 6, 7⟩, ⟨.operator, "+", 8, 9⟩,
      ⟨.comma, ",", 10, 11⟩, ⟨.name, "x", 12, 13⟩, ⟨.rightParen, ")", 13, 14⟩] := by
    decide +kernel
  rw [parse, hscan]
  rfl

theorem assignmentFree_maxBehindAssignment (t : Token) :
    (maxBehindAssignment (.leaf t)).AssignmentFree Node.children := by
  have hleaf : ∀ t, (Node.leaf t).AssignmentFree Node.children := fun t =>
    .of_forall rfl (List.forall_mem_nil _)
  have hargument : (Node.group [.leaf ⟨.name, "x", 4, 5⟩, .leaf ⟨.operator, "=", 6, 7⟩,
      .leaf ⟨.operator, "+", 8, 9⟩, .leaf ⟨.comma, ",", 10, 11⟩,
      .leaf t]).AssignmentFree Node.children :=
    .of_forall rfl (List.forall_mem_cons.mpr ⟨hleaf _, List.forall_mem_cons.mpr ⟨hleaf _,
      List.forall_mem_cons.mpr ⟨hleaf _, List.forall_mem_cons.mpr ⟨hleaf _,
        List.forall_mem_singleton.mpr (hleaf _)⟩⟩⟩⟩)
  exact .of_forall rfl (List.forall_mem_singleton.mpr (.of_forall (by simp [Node.assignment?])
    (List.forall_mem_cons.mpr ⟨hleaf _, List.forall_mem_singleton.mpr hargument⟩)))

/-- The pieces of an argument must not assign anything either. Where a variable of the name `+` has
the value 1 and `x` has the value 5, what is in front of the comma of `max(x = + , x)` sets `x` to
1, which the `x` behind the comma sees and a name that was given to its value before does not. -/
theorem x_named_behind_assignment :
    let x : Token := ⟨.name, "x", 12, 13⟩
    let n : Token := ⟨.name, "n", 12, 13⟩
    let env := Environment.fresh [("+", .scalar 1), ("x", .scalar 5)] .degrees .standard
    parse "max(x = + , x)" = .ok (maxBehindAssignment (.leaf x)) ∧
      (maxBehindAssignment (.leaf x)).AssignmentFree Node.children ∧
      Node.Naming (.leaf x) n (maxBehindAssignment (.leaf x)) (maxBehindAssignment (.leaf n)) ∧
      (maxBehindAssignment (.leaf x)).Avoids (· = "n") ∧ env.vars.find? "n" = none ∧
      (∀ function f, env.functions.find? function = some f → f.body.Avoids (· = "n")) ∧
      Value.scalar 1 ≠ .scalar 5 ∧
      ∀ depth, evalWithin depth (.leaf x) env = .ok (.scalar 5) env ∧
        (∃ after, evalWithin depth (maxBehindAssignment (.leaf x)) env
          = .ok (.scalar 1) after) ∧
        ∃ after, evalWithin depth (maxBehindAssignment (.leaf n)) (env.setVariable "n" (.scalar 5))
          = .ok (.scalar 5) after := by
  intro x n env
  let before := [Node.leaf ⟨.name, "x", 4, 5⟩, .leaf ⟨.operator, "=", 6, 7⟩,
    .leaf ⟨.operator, "+", 8, 9⟩, .leaf ⟨.comma, ",", 10, 11⟩]
  have hsegment : IsSegment before [.leaf x] [] :=
    ⟨.inr ⟨[_, _, _], _, rfl, rfl⟩, .inl rfl, List.forall_mem_singleton.mpr rfl⟩
  have hnaming : Node.Naming (.leaf x) n (maxBehindAssignment (.leaf x))
      (maxBehindAssignment (.leaf n)) :=
    .wrapped rfl (Node.Naming.segment rfl rfl hsegment (.wrapped rfl .here))
  have hfresh : (maxBehindAssignment (.leaf x)).Avoids (· = "n") := by
    unfold Node.Avoids Node.AllLeaves
    decide +kernel
  have hbodies : ∀ function f, env.functions.find? function = some f →
      f.body.Avoids (· = "n") := by
    intro function f hf
    cases hf
  refine ⟨parse_maxBehindAssignment, assignmentFree_maxBehindAssignment x, hnaming, hfresh, rfl,
    hbodies, by decide, fun depth => ?_⟩
  have hx : (Node.leaf x).meaning = .name "x" := by
    rw [Node.meaning, if_neg (by decide)]
  have hlarger : larger 1 1 = 1 ∧ larger 1 5 = 5 := by decide +kernel
  have hseen : ∃ after, (Expr.call "max" [.assignment "x" (.name "+"), .name "x"]).eval
      (.framed depth) env = .ok (.scalar (larger 1 1)) after := by
    cases depth <;> exact ⟨_, rfl⟩
  have hnamed : ∃ after, (Expr.call "max" [.assignment "x" (.name "+"), .name "n"]).eval
      (.framed depth) (env.setVariable "n" (.scalar 5)) = .ok (.scalar (larger 1 5)) after := by
    cases depth <;> exact ⟨_, rfl⟩
  rw [hlarger.1] at hseen
  rw [hlarger.2] at hnamed
  simp only [evalWithin, meaning_maxBehindAssignment (rfl : x.kind = .name),
    meaning_maxBehindAssignment (rfl : n.kind = .name), hx]
  exact ⟨rfl, hseen, hnamed⟩

end Reckoner
