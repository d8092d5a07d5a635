import Reckoner.Proofs.Copying
import Reckoner.Proofs.Frame

/-!
# Functions that do not come back to themselves

Calls never end only if some function comes back to itself. Where names can be ranked so that every
function calls names of lower rank only, calls nest no deeper than the ranks go, and an evaluation
finishes (`evalWithin_finishes`), whatever the functions that it defines, hides or replaces on its
way: a function that becomes visible is one that ranks above what it calls.

Finishing is a comparison of an evaluation with itself, for one depth of calls and a greater one
(`deepening`). Its environments are the same on both sides and show ranked functions, and a failure
is related to itself unless it is running away. The tree is gone through by
`Comparison.Respected.like_of_alike`, and the induction is on the bound of the ranks that it calls.
-/

namespace Reckoner

/-! ## What a tree calls and defines -/

/-- The tree uses a name to call a function, perhaps in one of the pieces that it cuts an argument
into. -/
def Node.Calls (tree : Node) (callee : String) : Prop :=
  ∃ args, Expr.call callee args ∈ tree.meaning.parts

/-- The tree defines a function, or does so within the body of another one that it defines. -/
inductive Node.Holds : Node → String → Node → Prop
  | here {tree : Node} {function : String} {params : List String} {body : Node}
    (h : .definition function params body ∈ tree.meaning.parts) : Holds tree function body
  | inside {tree : Node} {outer : String} {params : List String} {body : Node} {function : String}
    {inner : Node} (h : .definition outer params body ∈ tree.meaning.parts)
    (hbody : Holds body function inner) : Holds tree function inner

/-- Every function that the tree defines ranks above what its body calls. -/
def Node.Ranked (rank : String → Nat) (tree : Node) : Prop :=
  ∀ function body, tree.Holds function body →
    ∀ callee, body.Calls callee → rank callee < rank function

/-- Every function that is visible ranks above what its body calls, and so does every function that
its body defines. -/
def Environment.Ranked (rank : String → Nat) (env : Environment) : Prop :=
  ∀ name f, env.functions.find? name = some f →
    (∀ callee, f.body.Calls callee → rank callee < rank name) ∧ f.body.Ranked rank

section Ranks

variable {rank : String → Nat}

theorem Node.Ranked.of_definition {tree : Node} (h : tree.Ranked rank) {function : String}
    {params : List String} {body : Node}
    (hmem : .definition function params body ∈ tree.meaning.parts) :
    (∀ callee, body.Calls callee → rank callee < rank function) ∧ body.Ranked rank :=
  ⟨h function body (.here hmem), fun inner body' hbody => h inner body' (.inside hmem hbody)⟩

theorem Node.ranked_of_no_definition {tree : Node}
    (h : ∀ function params body, .definition function params body ∉ tree.meaning.parts) :
    tree.Ranked rank := by
  intro function body hholds
  cases hholds with
  | here hmem | inside hmem => exact absurd hmem (h _ _ _)

theorem Environment.Ranked.define {env : Environment} (h : env.Ranked rank) {name : String}
    {f : Function} (hf : ∀ callee, f.body.Calls callee → rank callee < rank name)
    (hbody : f.body.Ranked rank) : (env.define name f).Ranked rank := by
  intro other g hg
  rw [Environment.define] at hg
  by_cases hother : other = name
  · subst hother
    rw [Scope.find?_set_self, Option.some.injEq] at hg
    exact hg ▸ ⟨hf, hbody⟩
  · rw [Scope.find?_set_of_ne hother] at hg
    exact h other g hg

theorem Environment.Ranked.frame {env : Environment} (h : env.Ranked rank) :
    env.frame.Ranked rank := by
  intro name f hf
  rw [Environment.frame, Scope.find?_enter] at hf
  exact h name f hf

/-- An expression has finitely many parts, so the ranks of what it calls are bounded. -/
theorem exists_bound (rank : String → Nat) (es : List Expr) :
    ∃ bound, ∀ callee args, Expr.call callee args ∈ es → rank callee < bound := by
  induction es with
  | nil => exact ⟨0, fun _ _ h => absurd h List.not_mem_nil⟩
  | cons e rest ih =>
    obtain ⟨bound, hbound⟩ := ih
    cases e with
    | call function fargs =>
      refine ⟨max (rank function + 1) bound, fun callee args h => ?_⟩
      rcases List.mem_cons.mp h with heq | hrest
      · obtain ⟨rfl, -⟩ := Expr.call.inj heq
        omega
      · have := hbound callee args hrest
        omega
    | _ =>
      refine ⟨bound, fun callee args h => ?_⟩
      rcases List.mem_cons.mp h with heq | hrest
      · cases heq
      · exact hbound callee args hrest

end Ranks

/-! ## An evaluation and a deeper one -/

/-- The same environment twice, in given layers and with ranked functions. -/
structure Twice (rank : String → Nat) (around : Surroundings) (env env' : Environment) : Prop where
  same : env = env'
  vars : env.vars.outer = around.vars
  functions : env.functions.outer = around.functions
  ranked : env.Ranked rank

/-- The comparison of an evaluation that does not run away with the same one at another depth. -/
def deepening (rank : String → Nat) : Comparison Surroundings :=
  ⟨Twice rank, (· = ·), fun failure failure' => failure = failure' ∧ failure ≠ .runaway⟩

theorem respected_deepening (rank : String → Nat) : (deepening rank).Respected :=
  Comparison.respected_of_eq rfl (fun _ => ⟨rfl, nofun⟩) (fun _ => ⟨rfl, nofun⟩)
    (fun h => congrArg _ h.same) (fun h => congrArg _ h.same) (fun h _ => h.same ▸ rfl)
    (fun h name v => ⟨congrArg (·.setVariable name v) h.same, h.vars, h.functions, h.ranked⟩)

theorem callsRelate_deepening (rank : String → Nat) (depth depth' : Nat) :
    (deepening rank).CallsRelate (.framed depth) (.framed depth') := by
  rintro around caller _ ⟨rfl, hvars, hfunctions, hranked⟩
  rw [(framed_framed depth).enter, (framed_framed depth).leave, (framed_framed depth').enter,
    (framed_framed depth').leave]
  refine ⟨⟨caller.vars.layers, caller.functions.layers⟩, ⟨rfl, rfl, rfl, hranked.frame⟩, ?_⟩
  rintro callee _ ⟨rfl, hcallee, hcallee', -⟩
  rw [Environment.leave_eq_of_outer hcallee hcallee']
  exact ⟨rfl, hvars, hfunctions, hranked⟩

/-! ## Evaluation -/

/-- A tree is evaluated alike at two depths if the functions that it calls run alike at them. -/
theorem like_of_runAlike {rank : String → Nat} {bound depth depth' : Nat} {tree : Node}
    (hbound : ∀ callee, tree.Calls callee → rank callee < bound) (htree : tree.Ranked rank)
    (hrun : ∀ name f, rank name < bound →
      (∀ callee, f.body.Calls callee → rank callee < rank name) → f.body.Ranked rank →
      (deepening rank).RunAlike (.framed depth) (.framed depth') f f) :
    (deepening rank).Like (.framed depth) (.framed depth') tree.meaning tree.meaning := by
  refine (respected_deepening rank).like_of_alike (callsRelate_deepening rank depth depth')
    (.refl (fun _ => ⟨rfl, nofun⟩) tree.meaning) fun part hpart => ?_
  cases part with
  | call function args =>
    rintro around env _ ⟨rfl, -, -, hranked⟩
    cases hfound : env.functions.find? function with
    | none => exact .none
    | some f =>
      obtain ⟨hcalls, hbody⟩ := hranked function f hfound
      exact .some (hrun function f (hbound function ⟨args, hpart⟩) hcalls hbody)
  | definition function params body =>
    rintro _ rfl around env _ ⟨rfl, hvars, hfunctions, hranked⟩
    obtain ⟨hcalls, hbody⟩ := htree.of_definition hpart
    exact ⟨rfl, hvars, hfunctions, hranked.define hcalls hbody⟩
  | _ => trivial

/-- **Calls nest no deeper than the ranks go.** Beyond the ranks of what a tree calls, more depth
makes no difference to its evaluation. -/
theorem like_deepening {rank : String → Nat} (bound more more' : Nat) {tree : Node}
    (hbound : ∀ callee, tree.Calls callee → rank callee < bound) (htree : tree.Ranked rank) :
    (deepening rank).Like (.framed (more + bound)) (.framed (more' + bound)) tree.meaning
      tree.meaning := by
  induction bound generalizing tree with
  | zero => exact like_of_runAlike hbound htree fun name f hname => absurd hname (Nat.not_lt_zero _)
  | succ bound ih =>
    refine like_of_runAlike hbound htree fun name f hname hcalls hbody => ⟨rfl, ?_⟩
    -- the body of the function calls what ranks below it, and is run one call further down
    have hbelow : ∀ callee, f.body.Calls callee → rank callee < bound := fun callee hcallee =>
      Nat.lt_of_lt_of_le (hcalls callee hcallee) (Nat.le_of_lt_succ hname)
    exact ih hbelow hbody

theorem Twice.result_eq {rank : String → Nat} {around : Surroundings}
    {result result' : EStateM.Result Failure Environment Value}
    (h : ResultsRelate (Twice rank around) (deepening rank).failures (· = ·) result result') :
    result = result' ∧ ∀ after, result ≠ .error .runaway after := by
  cases h with
  | ok hv henv => exact ⟨by rw [hv, henv.same], nofun⟩
  | error hfailure henv =>
    refine ⟨by rw [hfailure.1, henv.same], fun after h => hfailure.2 ?_⟩
    exact (EStateM.Result.error.inj h).1

/-- **Programs without recursive functions finish.** If the names can be ranked so that all
functions that are visible, or that get defined, rank above what their bodies call, then calls to
some depth are enough: with them a tree does not run away, and further calls would not change what
it comes to. That is a value or an error that is reported, provided that the numbers can be read. -/
theorem evalWithin_finishes {rank : String → Nat} {tree : Node} {env : Environment}
    (htree : tree.Ranked rank) (henv : env.Ranked rank) :
    ∃ enough result, (∀ depth, enough ≤ depth → evalWithin depth tree env = result) ∧
      (∀ after, result ≠ .error .runaway after) ∧
      (tree.Readable → env.Readable → ∃ after, (∃ v, result = .ok v after) ∨
        ∃ error, result = .error (.reported error) after) := by
  obtain ⟨bound, hcalls⟩ := exists_bound rank tree.meaning.parts
  have hbound : ∀ callee, tree.Calls callee → rank callee < bound := fun callee ⟨args, hmem⟩ =>
    hcalls callee args hmem
  have hdeeper : ∀ more, evalWithin (more + bound) tree env = evalWithin (0 + bound) tree env ∧
      ∀ after, evalWithin (more + bound) tree env ≠ .error .runaway after := fun more =>
    Twice.result_eq (like_deepening bound more 0 hbound htree ⟨env.vars.outer, env.functions.outer⟩
      env env ⟨rfl, rfl, rfl, henv⟩)
  have hfinished := (hdeeper 0).2
  refine ⟨bound, evalWithin (0 + bound) tree env, fun depth hdepth => ?_, hfinished,
    fun hread henvRead => ?_⟩
  · have hmore := (hdeeper (depth - bound)).1
    rwa [Nat.sub_add_cancel hdepth] at hmore
  · have hsafe := safe_evalWithin (0 + bound) hread env henvRead
    generalize evalWithin (0 + bound) tree env = result at hsafe hfinished
    cases result with
    | ok v after => exact ⟨after, .inl ⟨v, rfl⟩⟩
    | error failure after =>
      rcases hsafe.1 with rfl | ⟨error, rfl⟩
      · exact absurd rfl (hfinished after)
      · exact ⟨after, .inr ⟨error, rfl⟩⟩

/-- The call `quad(3)`, where `quad(y)` is `double(double(y))` and `double(x)` is `x * 2`. -/
theorem quad_finishes :
    let double := Node.leaf ⟨.name, "double", 0, 6⟩
    let doubled := Node.group [.leaf ⟨.name, "x", 0, 1⟩, .leaf ⟨.operator, "*", 2, 3⟩,
      .leaf ⟨.number, "2", 4, 5⟩]
    let quadrupled := Node.group [double, .group [.group [double,
      .group [.leaf ⟨.name, "y", 14, 15⟩]]]]
    let env := (Environment.standard.define "double" ⟨["x"], doubled⟩).define "quad"
      ⟨["y"], quadrupled⟩
    let tree := Node.group [.leaf ⟨.name, "quad", 0, 4⟩, .group [.leaf ⟨.number, "3", 5, 6⟩]]
    let rank := fun name => if name = "quad" then 1 else 0
    tree.Ranked rank ∧ env.Ranked rank ∧
      ∃ enough result, (∀ depth, enough ≤ depth → evalWithin depth tree env = result) ∧
        (∀ after, result ≠ .error .runaway after) ∧
        (tree.Readable → env.Readable → ∃ after, (∃ v, result = .ok v after) ∨
          ∃ error, result = .error (.reported error) after) := by
  intro double doubled quadrupled env tree rank
  have hdoubled : doubled.meaning.parts
      = [.operation "*" (.name "x") (.number "2"), .name "x", .number "2"] := by
    simp [doubled, Node.meaning, Node.isLiteral, Node.isLeafOf, assignmentOperators, Expr.parts]
  have hquadrupled : quadrupled.meaning.parts
      = [.call "double" [.call "double" [.name "y"]], .call "double" [.name "y"], .name "y"] := by
    simp [quadrupled, double, Node.meaning_call, Node.meaning,
      Node.isLiteral, Node.isLeafOf, Node.arguments, cutAt, Expr.parts, partsOfAll]
  have htree : tree.meaning.parts = [.call "quad" [.number "3"], .number "3"] := by
    simp [tree, Node.meaning_call, Node.meaning, Node.isLiteral,
      Node.isLeafOf, Node.arguments, cutAt, Expr.parts, partsOfAll]
  have hranked : tree.Ranked rank := Node.ranked_of_no_definition (by simp [htree])
  have hstandard : Environment.standard.Ranked rank := by
    intro name f hf
    cases hf
  have henv : env.Ranked rank := by
    refine (hstandard.define ?_ ?_).define ?_ ?_
    · rintro callee ⟨args, hargs⟩
      simp [hdoubled] at hargs
    · exact Node.ranked_of_no_definition (by simp [hdoubled])
    · rintro callee ⟨args, hargs⟩
      obtain rfl : callee = "double" := by
        rcases (by simpa [hquadrupled] using hargs) with h | h <;> exact h.1
      decide
    · exact Node.ranked_of_no_definition (by simp [hquadrupled])
  exact ⟨hranked, henv, evalWithin_finishes hranked henv⟩

end Reckoner
