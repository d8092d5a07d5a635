import Reckoner.Proofs.Agreement

/-!
# Frames and copies

A call in a frame shares the layers of its caller. It could as well have a copy of everything that
the caller sees, in one layer of its own, and be left by throwing the copy away: no evaluation can
tell the difference (`evalWithin_agrees_evalCopying`).

A frame and a copy that were made together have the same bindings from then on, because both only
write in their innermost layer. `InFrame` adds to this which layers the frame lies in: they are the
ones that leaving it gives back.
-/

namespace Reckoner

/-! ## Copies -/

/-- One layer with all visible bindings. -/
def Scope.copied {α : Type} (s : Scope α) : Scope α := .ofLayer s.sorted

def Environment.copied (env : Environment) : Environment :=
  { env with vars := env.vars.copied, functions := env.functions.copied }

/-- Calls in copies of the environment of their caller, nested at most `depth` deep. -/
def Calls.copying (depth : Nat) : Calls :=
  .nested Environment.copied (fun caller _ => caller) depth

def evalCopying (depth : Nat) (tree : Node) : Eval Value :=
  tree.meaning.eval (.copying depth)

/-- Names paired with what a scope binds them to are bound to that in a layer. -/
theorem Scope.find?_filterMap {α : Type} (s : Scope α) (names : List String) (name : String) :
    Layer.find? name (names.filterMap fun n => (s.find? n).map fun a => (n, a))
      = if name ∈ names then s.find? name else none := by
  induction names with
  | nil => rfl
  | cons first rest ih =>
    rw [List.filterMap_cons]
    by_cases hfirst : first = name
    · subst hfirst
      cases hbound : s.find? first with
      | none => simpa [hbound] using ih
      | some a => simp [Layer.find?]
    · have hmem : name ∈ first :: rest ↔ name ∈ rest := by simp [Ne.symm hfirst]
      cases hbound : s.find? first with
      | none => simpa [hmem] using ih
      | some a => simpa [hmem, Layer.find?, hfirst] using ih

@[simp] theorem Scope.find?_copied {α : Type} (s : Scope α) (name : String) :
    s.copied.find? name = s.find? name := by
  rw [copied, find?_ofLayer, sorted, find?_filterMap]
  split
  · rfl
  · next hname =>
    have hunbound : ∀ a, s.find? name ≠ some a := fun a ha =>
      hname (List.mem_mergeSort.mpr (mem_names_of_find? ha))
    exact (Option.eq_none_iff_forall_ne_some.mpr hunbound).symm

/-! ## Environments that show the same -/

/-- Two environments have the same settings and the same visible bindings. -/
structure Environment.SameBindings (env env' : Environment) : Prop where
  mode : env.mode = env'.mode
  cap : env.cap = env'.cap
  seed : env.seed = env'.seed
  vars : ∀ name, env.vars.find? name = env'.vars.find? name
  functions : ∀ name, env.functions.find? name = env'.functions.find? name

namespace Environment.SameBindings

variable {env env' env'' : Environment}

theorem refl (env : Environment) : env.SameBindings env :=
  ⟨rfl, rfl, rfl, fun _ => rfl, fun _ => rfl⟩

theorem trans (h : env.SameBindings env') (h' : env'.SameBindings env'') :
    env.SameBindings env'' where
  mode := h.mode.trans h'.mode
  cap := h.cap.trans h'.cap
  seed := h.seed.trans h'.seed
  vars name := (h.vars name).trans (h'.vars name)
  functions name := (h.functions name).trans (h'.functions name)

theorem frame (h : env.SameBindings env') : env.frame.SameBindings env' where
  mode := h.mode
  cap := h.cap
  seed := h.seed
  vars name := (Scope.find?_enter _ _).trans (h.vars name)
  functions name := (Scope.find?_enter _ _).trans (h.functions name)

end Environment.SameBindings

/-- The layers around the innermost ones of an environment. -/
structure Surroundings where
  vars : List (Layer Value)
  functions : List (Layer Function)

/-- The environment of a frame in given layers shows the same as another one. -/
structure InFrame (around : Surroundings) (env env' : Environment) : Prop where
  same : env.SameBindings env'
  vars : env.vars.outer = around.vars
  functions : env.functions.outer = around.functions

theorem indistinct_inFrame (around : Surroundings) :
    Environment.Indistinct (InFrame around) where
  mode h := h.same.mode
  cap h := h.same.cap
  vars h := h.same.vars
  functions h := h.same.functions
  setVariable h name v :=
    { h with same := { h.same with vars := Scope.find?_set_congr h.same.vars name v } }
  define h name f :=
    { h with same := { h.same with functions := Scope.find?_set_congr h.same.functions name f } }

theorem simulates_copying (depth : Nat) :
    (Calls.framed depth).Simulates InFrame (· = ·) (Calls.copying depth) := by
  refine simulates_nested (fun _ => rfl) indistinct_inFrame ?_ depth
  intro around caller caller' h
  have henter :
      InFrame ⟨caller.vars.layers, caller.functions.layers⟩ caller.frame caller'.copied := by
    refine ⟨⟨h.same.mode, h.same.cap, h.same.seed, fun name => ?_, fun name => ?_⟩, rfl, rfl⟩
    · simpa [Environment.frame, Environment.copied] using h.same.vars name
    · simpa [Environment.frame, Environment.copied] using h.same.functions name
  refine ⟨_, henter, fun callee callee' hcallee => ?_⟩
  rw [Environment.leave_eq_of_outer hcallee.vars hcallee.functions]
  exact h

/-- **Calls in frames and calls in copies agree.** At any depth of calls a tree has the same
value under both, or fails in the same way, and the bindings that are visible afterwards are the
same; it runs away at every depth under both or under none. -/
theorem evalWithin_agrees_evalCopying (tree : Node) (env : Environment) :
    (∀ depth, ResultsAgree Environment.SameBindings (· = ·) (evalWithin depth tree env)
      (evalCopying depth tree env)) ∧
    ((∀ depth, ∃ env', evalWithin depth tree env = .error .runaway env') ↔
      ∀ depth, ∃ env', evalCopying depth tree env = .error .runaway env') := by
  have hagree : ∀ depth, ResultsAgree Environment.SameBindings (· = ·) (evalWithin depth tree env)
      (evalCopying depth tree env) := by
    intro depth
    have hresult := agree_eval (simulates_copying depth) (.refl (fun _ => rfl) tree.meaning)
      ⟨env.vars.outer, env.functions.outer⟩ env env ⟨.refl env, rfl, rfl⟩
    exact hresult.mono fun _ _ h => h.same
  refine ⟨hagree, forall_congr' fun depth => ?_⟩
  refine (hagree depth).fails_iff fun f f' hf => ?_
  rw [hf]

end Reckoner
