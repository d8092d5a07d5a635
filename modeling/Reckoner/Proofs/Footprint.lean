import Reckoner.Proofs.Copying
import Reckoner.Proofs.Frame

/-!
# What an evaluation can read

An evaluation reads variables and calls functions under names that it comes across: they are texts
of leaves, of its tree or of the body of a function that it calls. So names can be hidden from it.
Where the tree and the bodies of the functions avoid the hidden names, it comes to the same in two
environments that differ under hidden names only, whatever is bound to these
(`resultsRelate_of_avoids`).

Calls are dynamically scoped and may run any stored body, and an assignment of the tree may hide
what its caller sees. The comparison `outside` therefore asks of the functions of both environments what
it asks of the tree. What is defined on the way is part of a tree that avoids the hidden names.
-/

namespace Reckoner

/-! ## Environments afterwards -/

theorem ResultsRelate.after {α β : Type} {envs : Environment → Environment → Prop}
    {failures : Failure → Failure → Prop} {values : α → β → Prop} {m : Eval α} {m' : Eval β}
    {env env' : Environment} (h : ResultsRelate envs failures values (m env) (m' env')) :
    envs (m.after env) (m'.after env') := by
  rw [Eval.after, Eval.after]
  generalize m env = result at h
  generalize m' env' = result' at h
  cases h with
  | ok _ h => exact h
  | error _ h => exact h

/-- Related results are related in any other way in which the environments afterwards are. -/
theorem ResultsRelate.of_after {α β : Type} {envs others : Environment → Environment → Prop}
    {failures coarser : Failure → Failure → Prop} {values : α → β → Prop} {m : Eval α}
    {m' : Eval β} {env env' : Environment}
    (h : ResultsRelate envs failures values (m env) (m' env'))
    (hafter : others (m.after env) (m'.after env'))
    (hfailures : ∀ f f', failures f f' → coarser f f') :
    ResultsRelate others coarser values (m env) (m' env') := by
  rw [Eval.after, Eval.after] at hafter
  generalize m env = result at h hafter
  generalize m' env' = result' at h hafter
  cases h with
  | ok ha _ => exact .ok ha hafter
  | error hfailure _ => exact .error (hfailures _ _ hfailure) hafter

/-! ## Hidden names -/

/-- No leaf of the tree has a hidden name for its text. -/
def Node.Avoids (hidden : String → Prop) (tree : Node) : Prop :=
  tree.AllLeaves fun t => ¬hidden t.text

/-- Two scopes show the same under every name that is not hidden. -/
def Scope.AgreeBut {α : Type} (hidden : String → Prop) (s s' : Scope α) : Prop :=
  ∀ name, ¬hidden name → s.find? name = s'.find? name

/-- Two environments differ under hidden names only, and their other functions avoid these. -/
structure Environment.AgreeBut (hidden : String → Prop) (env env' : Environment) : Prop where
  mode : env.mode = env'.mode
  cap : env.cap = env'.cap
  vars : env.vars.AgreeBut hidden env'.vars
  functions : env.functions.AgreeBut hidden env'.functions
  bodies : ∀ name f, ¬hidden name → env.functions.find? name = some f → f.body.Avoids hidden

section Hidden

variable {hidden : String → Prop}

theorem Scope.AgreeBut.set {α : Type} {s s' : Scope α} (h : s.AgreeBut hidden s') (name : String)
    (a : α) : (s.set name a).AgreeBut hidden (s'.set name a) := by
  intro other hother
  by_cases heq : other = name
  · rw [heq, find?_set_self, find?_set_self]
  · rw [find?_set_of_ne heq, find?_set_of_ne heq, h other hother]

theorem Scope.AgreeBut.enter {α : Type} {s s' : Scope α} (h : s.AgreeBut hidden s') :
    s.enter.AgreeBut hidden s'.enter := by
  intro name hname
  rw [find?_enter, find?_enter, h name hname]

theorem Scope.ChangesOnly.agreeBut {α : Type} {names : String → Prop} {s s' : Scope α}
    (h : s.ChangesOnly names s') (hnames : ∀ name, names name → hidden name) :
    s.AgreeBut hidden s' :=
  fun _ hname => (h.find?_eq fun hn => hname (hnames _ hn)).symm

namespace Environment.AgreeBut

variable {env env' : Environment}

theorem setVariable (h : env.AgreeBut hidden env') (name : String) (v : Value) :
    (env.setVariable name v).AgreeBut hidden (env'.setVariable name v) :=
  { h with vars := h.vars.set name v }

theorem define (h : env.AgreeBut hidden env') (name : String) {f : Function}
    (hf : f.body.Avoids hidden) : (env.define name f).AgreeBut hidden (env'.define name f) where
  mode := h.mode
  cap := h.cap
  vars := h.vars
  functions := h.functions.set name f
  bodies other g hother hg := by
    rw [Environment.define] at hg
    by_cases heq : other = name
    · rw [heq, Scope.find?_set_self, Option.some.injEq] at hg
      exact hg ▸ hf
    · rw [Scope.find?_set_of_ne heq] at hg
      exact h.bodies other g hother hg

theorem frame (h : env.AgreeBut hidden env') : env.frame.AgreeBut hidden env'.frame where
  mode := h.mode
  cap := h.cap
  vars := h.vars.enter
  functions := h.functions.enter
  bodies name f hname hf := by
    rw [Environment.frame, Scope.find?_enter] at hf
    exact h.bodies name f hname hf

/-- Changes under hidden names are hidden. -/
theorem of_changesOnly {vars functions : String → Prop}
    (h : env.ChangesOnly vars functions env') (hvars : ∀ name, vars name → hidden name)
    (hfunctions : ∀ name, functions name → hidden name)
    (hbodies : ∀ name f, env.functions.find? name = some f → f.body.Avoids hidden) :
    env.AgreeBut hidden env' where
  mode := h.mode.symm
  cap := h.cap.symm
  vars := h.vars.agreeBut hvars
  functions := h.functions.agreeBut hfunctions
  bodies name f _ hf := hbodies name f hf

end Environment.AgreeBut

/-- The first function that is defined is the only one. -/
theorem eq_of_find?_define {name other : String} {f g : Function}
    (h : (Environment.standard.define name f).functions.find? other = some g) : g = f := by
  rw [Environment.define] at h
  by_cases hother : other = name
  · rw [hother, Scope.find?_set_self] at h
    exact (Option.some.inj h).symm
  · rw [Scope.find?_set_of_ne hother] at h
    cases h

/-! ## Evaluation -/

def Environment.surroundings (env : Environment) : Surroundings :=
  ⟨env.vars.outer, env.functions.outer⟩

/-- The comparison of environments that differ under hidden names only. The layers that they lie in
are their own. -/
def outside (hidden : String → Prop) : Comparison (Surroundings × Surroundings) where
  envs around env env' :=
    env.AgreeBut hidden env' ∧ env.surroundings = around.1 ∧ env'.surroundings = around.2
  values := (· = ·)
  failures := (· = ·)

theorem stores_outside (hidden : String → Prop) : (outside hidden).Stores :=
  have hcomputes : (outside hidden).Computes := Comparison.computes_of_eq rfl (fun _ => rfl)
    (fun _ => rfl) (fun henv => henv.1.mode) (fun henv => henv.1.cap)
  hcomputes.stores rfl fun henv name v => ⟨henv.1.setVariable name v, henv.2⟩

theorem Environment.leave_eq_of_surroundings {caller callee : Environment}
    (h : callee.surroundings = ⟨caller.vars.layers, caller.functions.layers⟩) :
    caller.leave callee = caller :=
  leave_eq_of_outer (congrArg Surroundings.vars h) (congrArg Surroundings.functions h)

theorem callsRelate_outside (hidden : String → Prop) (depth : Nat) :
    (outside hidden).CallsRelate (.framed depth) (.framed depth) := by
  rintro around caller caller' ⟨hagree, haround⟩
  rw [(framed_framed depth).enter, (framed_framed depth).leave]
  refine ⟨(caller.frame.surroundings, caller'.frame.surroundings), ⟨hagree.frame, rfl, rfl⟩, ?_⟩
  rintro callee callee' ⟨-, hcallee, hcallee'⟩
  rw [Environment.leave_eq_of_surroundings hcallee, Environment.leave_eq_of_surroundings hcallee']
  exact ⟨hagree, haround⟩

/-- What is equal on both sides is related. -/
theorem optionRel_of_eq {α : Type} {R : α → α → Prop} {a b : Option α} (h : a = b)
    (hR : ∀ x, a = some x → R x x) : Option.Rel R a b := by
  subst h
  cases a with
  | none => exact .none
  | some x => exact .some (hR x rfl)

theorem forall₂_map_same {α β : Type} {R : β → β → Prop} {f : α → β} {as : List α}
    (h : ∀ a ∈ as, R (f a) (f a)) : List.Forall₂ R (as.map f) (as.map f) :=
  List.forall₂_map_left_iff.mpr (List.forall₂_map_right_iff.mpr (List.forall₂_same.mpr h))

/-- A tree that avoids the hidden names is evaluated alike, if the bodies of functions that avoid
them are. -/
theorem like_of_avoids_of_run {depth : Nat}
    (hrun : ∀ body : Node, body.Avoids hidden →
      ∀ i, (outside hidden).Relate i (· = ·) ((Calls.framed depth).run body)
        ((Calls.framed depth).run body))
    {tree : Node} (h : tree.Avoids hidden) :
    (outside hidden).Like (.framed depth) (.framed depth) tree.meaning tree.meaning := by
  have hC := stores_outside hidden
  induction tree using Node.meaningInduction with
  | number t hk hm =>
    rw [hm]
    exact .number hC.toComputes t.text
  | name t hk hm =>
    rw [hm]
    exact .name hC.toComputes fun i env env' henv =>
      optionRel_of_eq (henv.1.vars t.text h.leaf) fun _ _ => rfl
  | literal children hlit hm ih =>
    rw [hm]
    refine .literal hC.toComputes (forall₂_map_same fun row hrow =>
      forall₂_map_same fun node hnode => ih row hrow node hnode ?_)
    exact h.of_mem (mem_of_mem_literalRows hrow hnode)
  | nothing hm =>
    rw [hm]
    exact .nothing hC.toComputes
  | wrapped child hlit hm ih =>
    rw [hm]
    exact ih (h.of_mem (by simp))
  | negation t right hk htext hm ih =>
    rw [hm]
    exact .negation hC.toComputes (ih (h.of_mem (by simp)))
  | unknownUnary t right hk hunary htext hm =>
    rw [hm]
    exact .report rfl (by rw [Expr.eval]) (by rw [Expr.eval])
  | call t right hk hm ih =>
    rw [hm]
    have hright : right.Avoids hidden := h.of_mem (by simp)
    have hname : ¬hidden t.text := (h.of_mem List.mem_cons_self).leaf
    refine .call hC (callsRelate_outside hidden depth) t.text
      (forall₂_map_same fun arg harg => ih arg harg (hright.of_mem_arguments harg)) ?_
    intro i env env' henv
    exact optionRel_of_eq (henv.1.functions t.text hname) fun f hf =>
      ⟨rfl, hrun f.body (henv.1.bodies t.text f hname hf)⟩
  | notApplicable left right hlit hunary hname hm =>
    rw [hm]
    exact .report rfl (by rw [Expr.eval]) (by rw [Expr.eval])
  | definition left op right named stored function params ha hs hm =>
    rw [hm]
    have hstored : stored.Avoids hidden := h.of_mem (Node.mem_of_assignment?_eq_some ha).2
    exact .definition hC.toComputes fun i env env' henv => ⟨henv.1.define function hstored, henv.2⟩
  | assignment left op right named stored target ha hs hn hm ih =>
    rw [hm]
    exact .assignment hC target (ih (h.of_mem (Node.mem_of_assignment?_eq_some ha).2))
  | misassignment left op right named stored ha hs hn hm ih =>
    rw [hm]
    exact .misassignment hC.toComputes (ih (h.of_mem (Node.mem_of_assignment?_eq_some ha).2))
  | operation left t right hlit hop hm ihl ihr =>
    rw [hm]
    exact .operation hC.toComputes t.text (ihl (h.of_mem (by simp))) (ihr (h.of_mem (by simp)))
  | malformed children hlit hlen hshape hm =>
    rw [hm]
    exact .report rfl (by rw [Expr.eval]) (by rw [Expr.eval])

theorem relate_run_of_avoids (depth : Nat) {body : Node} (h : body.Avoids hidden)
    (i : Surroundings × Surroundings) :
    (outside hidden).Relate i (· = ·) ((Calls.framed depth).run body)
      ((Calls.framed depth).run body) := by
  induction depth generalizing body i with
  | zero => exact .throw rfl
  | succ depth ih => exact like_of_avoids_of_run (fun _ hbody => ih hbody) h i

theorem like_of_avoids (depth : Nat) {tree : Node} (h : tree.Avoids hidden) :
    (outside hidden).Like (.framed depth) (.framed depth) tree.meaning tree.meaning :=
  like_of_avoids_of_run (fun _ hbody => relate_run_of_avoids depth hbody) h

/-- **An evaluation depends on nothing but the names that it comes across.** At any depth of calls,
a tree that avoids the hidden names comes to the same value or the same failure in environments
that differ under hidden names only, and leaves such environments behind. -/
theorem resultsRelate_of_avoids (depth : Nat) {tree : Node} (h : tree.Avoids hidden)
    {env env' : Environment} (henv : env.AgreeBut hidden env') :
    ResultsRelate (Environment.AgreeBut hidden) (· = ·) (· = ·) (evalWithin depth tree env)
      (evalWithin depth tree env') := by
  have hresult := like_of_avoids depth h (env.surroundings, env'.surroundings) env env'
    ⟨henv, rfl, rfl⟩
  exact hresult.mono (fun _ _ hafter => hafter.1) fun _ _ h => h

end Hidden

end Reckoner
