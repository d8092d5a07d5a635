import Mathlib.Data.List.GetD
import Reckoner.Environment.Stack
import Reckoner.Proofs.Frame

/-!
# Stacks that share their layers

`Environment.step` takes the environments of a stack for separate values. They are not separate: a
frame is made of the layers that it was pushed on, and of the same seed. Here layers have places, an
environment names the places of its layers (`Handle`), and a step on the top one writes back all
that it can reach, the layers of others among them (`SharedStack.step`).

No step but a reset gets beyond the innermost layer of the top (`writesInside_act`), and that layer
came with the frame. So the layers that were there before a frame was pushed stay as they are until
it is dropped, whatever happens in between (`Guards.run_matched`), which is the first half of
`frames_isolated`. The other half is that sharing does not show: a stack that grew out of one
environment answers as one of separate environments does (`Separate.runSteps`).
-/

namespace Reckoner

open Environment (Step StepAnswer)

/-! ## Layers at places -/

/-- Where the layers of a scope are. -/
structure Chain where
  inner : Nat
  /-- The layers around it, from the inside out. -/
  outer : List Nat

namespace Chain

variable {α : Type}

def places (c : Chain) : List Nat := c.inner :: c.outer

def child (c : Chain) (place : Nat) : Chain := ⟨place, c.places⟩

def read (layers : List (Layer α)) (c : Chain) : Scope α :=
  ⟨layers.getD c.inner [], c.outer.map fun place => layers.getD place []⟩

def write (layers : List (Layer α)) (c : Chain) (s : Scope α) : List (Layer α) :=
  ((c.outer.zip s.outer).foldl (fun layers entry => layers.set entry.1 entry.2) layers).set
    c.inner s.inner

theorem set_getD_self (layers : List (Layer α)) (place : Nat) :
    layers.set place (layers.getD place []) = layers := by
  by_cases h : place < layers.length
  · rw [List.getD_eq_getElem _ _ h, List.set_getElem_self]
  · rw [List.set_eq_of_length_le (Nat.le_of_not_lt h)]

/-- Where the layers around the innermost one have not changed, writing them back does nothing. -/
theorem write_eq {layers : List (Layer α)} {c : Chain} {s : Scope α}
    (h : s.outer = (c.read layers).outer) : c.write layers s = layers.set c.inner s.inner := by
  have hsame : ∀ places : List Nat,
      (places.zip (places.map fun place => layers.getD place [])).foldl
        (fun layers entry => layers.set entry.1 entry.2) layers = layers := by
    intro places
    induction places with
    | nil => rfl
    | cons place rest ih =>
      rw [List.map_cons, List.zip_cons_cons, List.foldl_cons, set_getD_self]
      exact ih
  rw [write, h]
  exact congrArg (List.set · c.inner s.inner) (hsame c.outer)

theorem getD_of_prefix {layers more : List (Layer α)} (h : layers <+: more) {place : Nat}
    (hplace : place < layers.length) : more.getD place [] = layers.getD place [] := by
  obtain ⟨rest, rfl⟩ := h
  rw [List.getD_append _ _ _ _ hplace]

/-- A chain reads the same where there are only more layers. -/
theorem read_of_prefix {layers more : List (Layer α)} (h : layers <+: more) {c : Chain}
    (hplaces : ∀ place ∈ c.places, place < layers.length) : c.read more = c.read layers := by
  obtain ⟨hinner, houter⟩ := List.forall_mem_cons.mp hplaces
  rw [read, read, getD_of_prefix h hinner]
  exact congrArg _ (List.map_congr_left fun place hp => getD_of_prefix h (houter place hp))

theorem getD_set_of_ne {layers : List (Layer α)} {place other : Nat} (h : place ≠ other)
    (layer : Layer α) : (layers.set place layer).getD other [] = layers.getD other [] := by
  rw [List.getD_eq_getElem?_getD, List.getElem?_set_ne h, ← List.getD_eq_getElem?_getD]

/-- A chain reads the same where something else was written. -/
theorem read_set_of_not_mem {layers : List (Layer α)} {c : Chain} {place : Nat}
    (h : place ∉ c.places) (layer : Layer α) : c.read (layers.set place layer) = c.read layers := by
  obtain ⟨hinner, houter⟩ := List.forall_mem_cons.mp
    (show ∀ p ∈ c.inner :: c.outer, place ≠ p from fun p hp heq => h (heq ▸ hp))
  rw [read, read, getD_set_of_ne hinner]
  exact congrArg _ (List.map_congr_left fun p hp => getD_set_of_ne (houter p hp) layer)

/-- What is written to a chain is read from it. -/
theorem read_set_inner {layers : List (Layer α)} {c : Chain} {s : Scope α}
    (hinner : c.inner < layers.length) (hown : c.inner ∉ c.outer)
    (h : s.outer = (c.read layers).outer) : c.read (layers.set c.inner s.inner) = s := by
  have houter : (c.outer.map fun place => (layers.set c.inner s.inner).getD place [])
      = c.outer.map fun place => layers.getD place [] :=
    List.map_congr_left fun p hp =>
      getD_set_of_ne (fun heq : c.inner = p => hown (heq ▸ hp)) s.inner
  have hself : (layers.set c.inner s.inner).getD c.inner [] = s.inner := by
    rw [List.getD_eq_getElem?_getD, List.getElem?_set_self hinner, Option.getD_some]
  rw [read, hself, houter]
  show (⟨s.inner, (c.read layers).outer⟩ : Scope α) = s
  rw [← h]

/-- A layer that was not there before is empty inside of the others. -/
theorem read_child {layers : List (Layer α)} {c : Chain}
    (hplaces : ∀ place ∈ c.places, place < layers.length) :
    (c.child layers.length).read (layers ++ [[]]) = (c.read layers).enter := by
  have houter : (c.places.map fun place => (layers ++ [[]]).getD place [])
      = c.places.map fun place => layers.getD place [] :=
    List.map_congr_left fun p hp =>
      getD_of_prefix (List.prefix_append layers [[]]) (hplaces p hp)
  have hinner : (layers ++ [[]]).getD layers.length [] = [] := by
    rw [List.getD_append_right _ _ _ _ (Nat.le_refl _), Nat.sub_self]
    rfl
  rw [child, read, houter, hinner]
  rfl

end Chain

/-! ## Environments that name places -/

/-- All layers that there are. Seeds are among those of values. -/
structure Heap where
  values : List (Layer Value)
  functions : List (Layer Function)

/-- An environment by the places of its layers and of its seed. -/
structure Handle where
  vars : Chain
  functions : Chain
  seed : Nat
  mode : TrigMode
  cap : DigitCap

/-- The environment that a handle stands for. -/
def Heap.view (heap : Heap) (h : Handle) : Environment where
  vars := h.vars.read heap.values
  functions := h.functions.read heap.functions
  mode := h.mode
  cap := h.cap
  seed := heap.values.getD h.seed []

/-- Writes an environment to the places of a handle, the seed and the layers of others included. -/
def Heap.commit (heap : Heap) (h : Handle) (env : Environment) : Heap where
  values := h.vars.write (heap.values.set h.seed env.seed) env.vars
  functions := h.functions.write heap.functions env.functions

/-- The heap with two new layers behind the others. -/
def Heap.grow (heap : Heap) (values : Layer Value) (functions : Layer Function) : Heap :=
  ⟨heap.values ++ [values], heap.functions ++ [functions]⟩

/-- An environment whose innermost layers come next, in the layers of another one. -/
def Heap.frame (heap : Heap) (h : Handle) : Handle :=
  { h with
    vars := h.vars.child heap.values.length
    functions := h.functions.child heap.functions.length }

/-- An environment whose only layers come next. -/
def Heap.renewed (heap : Heap) (h : Handle) : Handle :=
  { h with vars := ⟨heap.values.length, []⟩, functions := ⟨heap.functions.length, []⟩ }

/-- A stack of environments that may share layers, the top one first. -/
structure SharedStack where
  heap : Heap
  handles : List Handle

namespace SharedStack

def environments (stack : SharedStack) : List Environment :=
  stack.handles.map stack.heap.view

/-- A step on a stack whose environments share layers. A frame is made of the layers of the top and
new innermost ones, a reset is given new layers for its environment alone, and any other step is
done in the layers as they are. -/
def step (stack : SharedStack) (s : Step) : Except Failure StepAnswer × SharedStack :=
  match stack.handles with
  | [] => (.error .noEnvironment, stack)
  | top :: rest =>
    match s with
    | .push =>
      (.ok (.count (rest.length + 2)),
        ⟨stack.heap.grow [] [], stack.heap.frame top :: top :: rest⟩)
    | .drop => (.ok (.count rest.length), ⟨stack.heap, rest⟩)
    | .reset =>
      let env := (stack.heap.view top).reset
      (.ok .nothing,
        ⟨stack.heap.grow env.vars.inner env.functions.inner, stack.heap.renewed top :: rest⟩)
    | other =>
      let (answer, env) := (stack.heap.view top).act other
      (answer, ⟨stack.heap.commit top env, { top with mode := env.mode, cap := env.cap } :: rest⟩)

end SharedStack

def runSteps {σ : Type} (step : σ → Step → Except Failure StepAnswer × σ) :
    σ → List Step → List (Except Failure StepAnswer) × σ
  | state, [] => ([], state)
  | state, s :: rest =>
    let (answer, next) := step state s
    let (answers, last) := runSteps step next rest
    (answer :: answers, last)

section Run

variable {σ : Type} (step : σ → Step → Except Failure StepAnswer × σ)

theorem runSteps_cons (state : σ) (s : Step) (steps : List Step) :
    (runSteps step state (s :: steps)).2 = (runSteps step (step state s).2 steps).2 := rfl

theorem runSteps_append (state : σ) (steps more : List Step) :
    (runSteps step state (steps ++ more)).2
      = (runSteps step (runSteps step state steps).2 more).2 := by
  induction steps generalizing state with
  | nil => rfl
  | cons s rest ih => exact ih (step state s).2

/-- Where no step changes anything, a run does not. -/
theorem runSteps_of_fixed {state : σ} (h : ∀ s, (step state s).2 = state) (steps : List Step) :
    (runSteps step state steps).2 = state := by
  induction steps with
  | nil => rfl
  | cons s rest ih => rw [runSteps_cons, h, ih]

end Run

/-- Steps in which every frame that is pushed is dropped, and no other. -/
inductive Matched : List Step → Prop
  | nil : Matched []
  | step {s : Step} {rest : List Step} (hpush : s ≠ .push) (hdrop : s ≠ .drop)
    (h : Matched rest) : Matched (s :: rest)
  | frame {steps rest : List Step} (hsteps : Matched steps) (h : Matched rest) :
    Matched (.push :: (steps ++ .drop :: rest))

/-! ## What a step can reach -/

/-- The layers around the innermost ones and the seed are the same as before. -/
structure Environment.WritesInside (before after : Environment) : Prop where
  vars : after.vars.outer = before.vars.outer
  functions : after.functions.outer = before.functions.outer
  seed : after.seed = before.seed

theorem Environment.WritesInside.refl (env : Environment) : env.WritesInside env :=
  ⟨rfl, rfl, rfl⟩

theorem writesInside_delete {name : String} {env env' : Environment}
    (h : env.delete name = .ok env') : env.WritesInside env' := by
  rw [Environment.delete] at h
  split at h
  · exact Except.ok.inj h ▸ ⟨rfl, rfl, rfl⟩
  · cases h

theorem writesInside_evalLine (line : String) (env : Environment) :
    env.WritesInside ((evalLine line).after env) := by
  rw [evalLine]
  cases parse line with
  | error bracket => exact .refl env
  | ok tree =>
    have h := keeps_eval (framed_framed callLimit) tree env
    exact ⟨h.vars.outer, h.functions.outer, h.seed⟩

/-- No step but a reset reaches beyond the innermost layers, whether it fails or not. -/
theorem writesInside_act {s : Step} (hreset : s ≠ .reset) (env : Environment) :
    env.WritesInside (env.act s).2 := by
  cases s with
  | set name data =>
    rw [Environment.act, Environment.store]
    cases data.toValue (Environment.placeOf name) with
    | error failure => exact .refl env
    | ok v => exact ⟨rfl, rfl, rfl⟩
  | delete name =>
    rw [Environment.act]
    cases h : env.delete name with
    | error failure => exact .refl env
    | ok env' => exact writesInside_delete h
  | take name =>
    rw [Environment.act]
    cases env.get name with
    | error failure => exact .refl env
    | ok v =>
      cases h : env.delete name with
      | error failure => simpa only [h] using Environment.WritesInside.refl env
      | ok env' => simpa only [h] using writesInside_delete h
  | define name params body =>
    rw [Environment.act]
    cases parse body with
    | error bracket => exact .refl env
    | ok tree => exact ⟨rfl, rfl, rfl⟩
  | find name =>
    rw [Environment.act]
    split <;> exact .refl env
  | eval line =>
    have hafter : (env.act (.eval line)).2 = (evalLine line).after env := by
      rw [Environment.act, Eval.after]
      cases evalLine line env <;> rfl
    rw [hafter]
    exact writesInside_evalLine line env
  | useMode mode =>
    rw [Environment.act]
    cases Environment.modeOf mode <;> exact ⟨rfl, rfl, rfl⟩
  | useDigits cap =>
    rw [Environment.act]
    cases cap.toDigitCap <;> exact ⟨rfl, rfl, rfl⟩
  | reset => exact absurd rfl hreset
  | get | has | size | depth | vars | functions | push | drop | settings => exact .refl env

theorem Heap.commit_eq {heap : Heap} {h : Handle} {env : Environment}
    (hwrites : (heap.view h).WritesInside env) :
    heap.commit h env = ⟨heap.values.set h.vars.inner env.vars.inner,
      heap.functions.set h.functions.inner env.functions.inner⟩ := by
  have hseed : heap.values.set h.seed env.seed = heap.values := by
    rw [hwrites.seed]
    exact Chain.set_getD_self heap.values h.seed
  rw [commit, hseed, Chain.write_eq hwrites.vars, Chain.write_eq hwrites.functions]

namespace SharedStack

theorem step_other {stack : SharedStack} {top : Handle} {rest : List Handle}
    (hhandles : stack.handles = top :: rest) {s : Step} (hpush : s ≠ .push) (hdrop : s ≠ .drop)
    (hreset : s ≠ .reset) :
    stack.step s = (((stack.heap.view top).act s).1,
      ⟨stack.heap.commit top ((stack.heap.view top).act s).2,
        { top with
          mode := ((stack.heap.view top).act s).2.mode
          cap := ((stack.heap.view top).act s).2.cap } :: rest⟩) := by
  rw [step, hhandles]
  cases s <;> first | rfl | contradiction

end SharedStack

/-! ## A frame and what is below it -/

/-- The layers of a heap are still there, and there may be more behind them. -/
structure Heap.Extends (base heap : Heap) : Prop where
  values : base.values <+: heap.values
  functions : base.functions <+: heap.functions

/-- The innermost layers of an environment are none of those of a heap. -/
structure Handle.Above (base : Heap) (h : Handle) : Prop where
  vars : base.values.length ≤ h.vars.inner
  functions : base.functions.length ≤ h.functions.inner

/-- Everything that an environment names is there. -/
structure Handle.Placed (heap : Heap) (h : Handle) : Prop where
  vars : ∀ place ∈ h.vars.places, place < heap.values.length
  functions : ∀ place ∈ h.functions.places, place < heap.functions.length
  seed : h.seed < heap.values.length

namespace Heap.Extends

variable {base heap : Heap}

theorem refl (heap : Heap) : heap.Extends heap := ⟨List.prefix_refl _, List.prefix_refl _⟩

theorem grow (h : base.Extends heap) (values : Layer Value) (functions : Layer Function) :
    base.Extends (heap.grow values functions) :=
  ⟨h.values.trans (List.prefix_append _ _), h.functions.trans (List.prefix_append _ _)⟩

theorem above_frame (h : base.Extends heap) (top : Handle) : (heap.frame top).Above base :=
  ⟨h.values.length_le, h.functions.length_le⟩

theorem above_renewed (h : base.Extends heap) (top : Handle) : (heap.renewed top).Above base :=
  ⟨h.values.length_le, h.functions.length_le⟩

theorem prefix_set {α : Type} {layers more : List α} (h : layers <+: more) {place : Nat}
    (hplace : layers.length ≤ place) (a : α) : layers <+: more.set place a := by
  obtain ⟨rest, rfl⟩ := h
  rw [List.set_append_right _ _ hplace]
  exact List.prefix_append _ _

/-- An environment above a heap writes nothing to it. -/
theorem commit (h : base.Extends heap) {top : Handle} (habove : top.Above base)
    {env : Environment} (hwrites : (heap.view top).WritesInside env) :
    base.Extends (heap.commit top env) := by
  rw [Heap.commit_eq hwrites]
  exact ⟨prefix_set h.values habove.vars _, prefix_set h.functions habove.functions _⟩

/-- What was there is seen as before. -/
theorem view_eq (h : base.Extends heap) {handle : Handle} (hplaced : handle.Placed base) :
    heap.view handle = base.view handle := by
  rw [view, view, Chain.read_of_prefix h.values hplaced.vars,
    Chain.read_of_prefix h.functions hplaced.functions, Chain.getD_of_prefix h.values hplaced.seed]

end Heap.Extends

namespace SharedStack

def run (stack : SharedStack) (steps : List Step) : SharedStack :=
  (runSteps step stack steps).2

theorem run_of_empty {stack : SharedStack} (h : stack.handles = []) (steps : List Step) :
    stack.run steps = stack :=
  runSteps_of_fixed step (fun s => by rw [step, h]) steps

/-- The layers of a heap are untouched, and the top environment, which is above it, lies on given
ones. -/
structure Guards (base : Heap) (below : List Handle) (stack : SharedStack) : Prop where
  kept : base.Extends stack.heap
  top : ∃ top, stack.handles = top :: below ∧ top.Above base

section Guards

variable {base : Heap} {below : List Handle} {stack : SharedStack}

theorem guards_push (hkept : base.Extends stack.heap) {top : Handle}
    (hhandles : stack.handles = top :: below) :
    Guards base (top :: below) (stack.step .push).2 := by
  rw [step, hhandles]
  exact ⟨hkept.grow _ _, _, rfl, hkept.above_frame top⟩

theorem Guards.drop {top : Handle} (h : Guards base (top :: below) stack) :
    (stack.step .drop).2.handles = top :: below ∧ base.Extends (stack.step .drop).2.heap := by
  obtain ⟨hkept, frame, hhandles, -⟩ := h
  rw [step, hhandles]
  exact ⟨rfl, hkept⟩

/-- A step that neither pushes nor drops keeps to the layers above. -/
theorem Guards.step (h : Guards base below stack) {s : Step} (hpush : s ≠ .push)
    (hdrop : s ≠ .drop) : Guards base below (stack.step s).2 := by
  obtain ⟨hkept, top, hhandles, habove⟩ := h
  by_cases hreset : s = .reset
  · rw [hreset, SharedStack.step, hhandles]
    exact ⟨hkept.grow _ _, _, rfl, hkept.above_renewed top⟩
  · rw [step_other hhandles hpush hdrop hreset]
    exact ⟨hkept.commit habove (writesInside_act hreset _), _, rfl, habove.vars, habove.functions⟩

/-- Steps in which frames are dropped again keep to the layers above. -/
theorem Guards.run_matched {steps : List Step} (hsteps : Matched steps)
    (h : Guards base below stack) : Guards base below (stack.run steps) := by
  induction hsteps generalizing stack below with
  | nil => exact h
  | step hpush hdrop _ ih => exact ih (h.step hpush hdrop)
  | frame _ _ ihsteps ih =>
    obtain ⟨hkept, top, hhandles, habove⟩ := h
    obtain ⟨hdropped, hkept'⟩ := (ihsteps (guards_push hkept hhandles)).drop
    rw [run, runSteps_cons, runSteps_append]
    exact ih ⟨hkept', top, hdropped, habove⟩

end Guards

/-- Environments that are still there are seen as before. -/
theorem environments_eq {stack after : SharedStack}
    (hplaced : ∀ h ∈ stack.handles, h.Placed stack.heap) (hhandles : after.handles = stack.handles)
    (hkept : stack.heap.Extends after.heap) : after.environments = stack.environments := by
  rw [environments, environments, hhandles]
  exact List.map_congr_left fun h hh => hkept.view_eq (hplaced h hh)

/-- Between a frame that is pushed and the drop that goes with it nothing happens to the
environments that were there. -/
theorem run_frame {stack : SharedStack} (hplaced : ∀ h ∈ stack.handles, h.Placed stack.heap)
    {steps : List Step} (hsteps : Matched steps) :
    (stack.run (.push :: (steps ++ [.drop]))).handles = stack.handles ∧
      (stack.run (.push :: (steps ++ [.drop]))).environments = stack.environments := by
  cases hhandles : stack.handles with
  | nil =>
    rw [run_of_empty hhandles]
    exact ⟨hhandles, rfl⟩
  | cons top rest =>
    have hpushed := guards_push (.refl stack.heap) hhandles
    obtain ⟨hdropped, hkept⟩ := (hpushed.run_matched hsteps).drop
    rw [run, runSteps_cons, runSteps_append]
    exact ⟨hdropped, environments_eq hplaced (hdropped.trans hhandles.symm) hkept⟩

end SharedStack

/-! ## Stacks that share and stacks that do not -/

/-- The innermost layers of an environment are neither its seed nor among those around them. -/
structure Handle.Distinct (h : Handle) : Prop where
  vars : h.vars.inner ∉ h.vars.outer
  functions : h.functions.inner ∉ h.functions.outer
  seed : h.vars.inner ≠ h.seed

/-- The innermost layers of one environment are nothing to another one. -/
structure Handle.Spares (upper lower : Handle) : Prop where
  vars : upper.vars.inner ∉ lower.vars.places
  functions : upper.functions.inner ∉ lower.functions.places
  seed : upper.vars.inner ≠ lower.seed

/-- The innermost layers of an environment come next, and everything else that it names is there. -/
structure Handle.New (heap : Heap) (h : Handle) : Prop where
  vars : h.vars.inner = heap.values.length
  functions : h.functions.inner = heap.functions.length
  outerVars : ∀ place ∈ h.vars.outer, place < heap.values.length
  outerFunctions : ∀ place ∈ h.functions.outer, place < heap.functions.length
  seed : h.seed < heap.values.length

namespace Handle

variable {heap : Heap} {h lower : Handle}

theorem Placed.grow (hplaced : h.Placed heap) (values : Layer Value)
    (functions : Layer Function) : h.Placed (heap.grow values functions) := by
  have hvalues := (List.prefix_append heap.values [values]).length_le
  have hfunctions := (List.prefix_append heap.functions [functions]).length_le
  exact ⟨fun place hp => Nat.lt_of_lt_of_le (hplaced.vars place hp) hvalues,
    fun place hp => Nat.lt_of_lt_of_le (hplaced.functions place hp) hfunctions,
    Nat.lt_of_lt_of_le hplaced.seed hvalues⟩

theorem Placed.new_frame (hplaced : h.Placed heap) : (heap.frame h).New heap :=
  ⟨rfl, rfl, hplaced.vars, hplaced.functions, hplaced.seed⟩

theorem Placed.new_renewed (hplaced : h.Placed heap) : (heap.renewed h).New heap :=
  ⟨rfl, rfl, List.forall_mem_nil _, List.forall_mem_nil _, hplaced.seed⟩

theorem New.placed (hnew : h.New heap) (values : Layer Value) (functions : Layer Function) :
    h.Placed (heap.grow values functions) := by
  have hvalues : heap.values.length < (heap.grow values functions).values.length := by
    simp [Heap.grow]
  have hfunctions : heap.functions.length < (heap.grow values functions).functions.length := by
    simp [Heap.grow]
  refine ⟨List.forall_mem_cons.mpr ⟨hnew.vars ▸ hvalues, fun place hp => ?_⟩,
    List.forall_mem_cons.mpr ⟨hnew.functions ▸ hfunctions, fun place hp => ?_⟩,
    Nat.lt_trans hnew.seed hvalues⟩
  · exact Nat.lt_trans (hnew.outerVars place hp) hvalues
  · exact Nat.lt_trans (hnew.outerFunctions place hp) hfunctions

theorem New.distinct (hnew : h.New heap) : h.Distinct where
  vars hmem := Nat.ne_of_lt (hnew.outerVars _ hmem) hnew.vars
  functions hmem := Nat.ne_of_lt (hnew.outerFunctions _ hmem) hnew.functions
  seed heq := Nat.ne_of_lt hnew.seed (heq.symm.trans hnew.vars)

theorem New.spares (hnew : h.New heap) (hlower : lower.Placed heap) : h.Spares lower where
  vars hmem := Nat.ne_of_lt (hlower.vars _ hmem) hnew.vars
  functions hmem := Nat.ne_of_lt (hlower.functions _ hmem) hnew.functions
  seed heq := Nat.ne_of_lt hlower.seed (heq.symm.trans hnew.vars)

theorem Placed.commit (hplaced : h.Placed heap) {top : Handle} {env : Environment}
    (hwrites : (heap.view top).WritesInside env) : h.Placed (heap.commit top env) := by
  rw [Heap.commit_eq hwrites]
  exact ⟨by simpa using hplaced.vars, by simpa using hplaced.functions,
    by simpa using hplaced.seed⟩

end Handle

namespace Heap

variable {heap : Heap} {top lower : Handle} {env : Environment}

theorem view_grow (h : top.Placed heap) (values : Layer Value) (functions : Layer Function) :
    (heap.grow values functions).view top = heap.view top :=
  ((Extends.refl heap).grow values functions).view_eq h

theorem view_frame (h : top.Placed heap) :
    (heap.grow [] []).view (heap.frame top) = (heap.view top).frame := by
  have hseed := Chain.getD_of_prefix (List.prefix_append heap.values [[]]) h.seed
  show Environment.mk _ _ _ _ _ = Environment.mk _ _ _ _ _
  congr 1
  · exact Chain.read_child h.vars
  · exact Chain.read_child h.functions

theorem view_renewed (h : top.Placed heap) :
    (heap.grow (heap.view top).reset.vars.inner (heap.view top).reset.functions.inner).view
      (heap.renewed top) = (heap.view top).reset := by
  have hlast : ∀ {α : Type} (layers : List (Layer α)) (layer : Layer α),
      (layers ++ [layer]).getD layers.length [] = layer := by
    intro α layers layer
    rw [List.getD_append_right _ _ _ _ (Nat.le_refl _), Nat.sub_self]
    rfl
  show Environment.mk _ _ _ _ _ = Environment.mk _ _ _ _ _
  congr 1
  · exact congrArg (Scope.mk · []) (hlast _ _)
  · exact congrArg (Scope.mk · []) (hlast _ _)
  · exact Chain.getD_of_prefix (List.prefix_append _ _) h.seed

/-- What is written back is seen. -/
theorem view_commit_self (hplaced : top.Placed heap) (hdistinct : top.Distinct)
    (hwrites : (heap.view top).WritesInside env) :
    (heap.commit top env).view { top with mode := env.mode, cap := env.cap } = env := by
  rw [commit_eq hwrites]
  have hvars := Chain.read_set_inner (hplaced.vars _ List.mem_cons_self) hdistinct.vars hwrites.vars
  have hfunctions := Chain.read_set_inner (hplaced.functions _ List.mem_cons_self)
    hdistinct.functions hwrites.functions
  have hseed : (heap.values.set top.vars.inner env.vars.inner).getD top.seed []
      = heap.values.getD top.seed [] := Chain.getD_set_of_ne hdistinct.seed env.vars.inner
  rw [view, hvars, hfunctions, hseed]
  exact congrArg (Environment.mk _ _ _ _) hwrites.seed.symm

/-- What is written back is not seen from where it is nothing to. -/
theorem view_commit_of_spares (hspares : top.Spares lower)
    (hwrites : (heap.view top).WritesInside env) :
    (heap.commit top env).view lower = heap.view lower := by
  rw [commit_eq hwrites, view, view, Chain.read_set_of_not_mem hspares.vars,
    Chain.read_set_of_not_mem hspares.functions, Chain.getD_set_of_ne hspares.seed]

end Heap

namespace SharedStack

/-- No environment of a stack has its innermost layers in common with one below it. -/
structure Separate (stack : SharedStack) : Prop where
  placed : ∀ h ∈ stack.handles, h.Placed stack.heap
  distinct : ∀ h ∈ stack.handles, h.Distinct
  spares : stack.handles.Pairwise Handle.Spares

theorem separate_grow {heap : Heap} {new : Handle} {below : List Handle} (hnew : new.New heap)
    (h : Separate ⟨heap, below⟩) (values : Layer Value) (functions : Layer Function) :
    Separate ⟨heap.grow values functions, new :: below⟩ where
  placed := List.forall_mem_cons.mpr
    ⟨hnew.placed values functions, fun lower hl => (h.placed lower hl).grow values functions⟩
  distinct := List.forall_mem_cons.mpr ⟨hnew.distinct, h.distinct⟩
  spares := List.pairwise_cons.mpr ⟨fun lower hl => hnew.spares (h.placed lower hl), h.spares⟩

theorem separate_commit {heap : Heap} {top : Handle} {below : List Handle}
    (h : Separate ⟨heap, top :: below⟩) {env : Environment}
    (hwrites : (heap.view top).WritesInside env) :
    Separate ⟨heap.commit top env, { top with mode := env.mode, cap := env.cap } :: below⟩ := by
  obtain ⟨hplaced, hplacedBelow⟩ := List.forall_mem_cons.mp h.placed
  obtain ⟨hdistinct, hdistinctBelow⟩ := List.forall_mem_cons.mp h.distinct
  obtain ⟨hspares, hsparesBelow⟩ := List.pairwise_cons.mp h.spares
  have htop := hplaced.commit hwrites
  refine ⟨List.forall_mem_cons.mpr ⟨⟨htop.vars, htop.functions, htop.seed⟩, ?_⟩,
    List.forall_mem_cons.mpr ⟨⟨hdistinct.vars, hdistinct.functions, hdistinct.seed⟩,
      hdistinctBelow⟩,
    List.pairwise_cons.mpr ⟨?_, hsparesBelow⟩⟩
  · exact fun lower hl => (hplacedBelow lower hl).commit hwrites
  · intro lower hl
    obtain ⟨hvars, hfunctions, hseed⟩ := hspares lower hl
    exact ⟨hvars, hfunctions, hseed⟩

/-- **Sharing does not show.** A step on a stack whose environments share layers answers what the
step answers on separate environments, and what is seen afterwards is the same. -/
theorem Separate.step {stack : SharedStack} (h : stack.Separate) (s : Step) :
    (stack.step s).1 = (Environment.step stack.environments s).1 ∧
      (stack.step s).2.environments = (Environment.step stack.environments s).2 ∧
      (stack.step s).2.Separate := by
  obtain ⟨heap, handles⟩ := stack
  cases handles with
  | nil => exact ⟨rfl, rfl, h⟩
  | cons top rest =>
    obtain ⟨hplaced, hplacedRest⟩ := List.forall_mem_cons.mp h.placed
    obtain ⟨hdistinct, hdistinctRest⟩ := List.forall_mem_cons.mp h.distinct
    obtain ⟨hspares, hsparesRest⟩ := List.pairwise_cons.mp h.spares
    have hrest : Separate ⟨heap, rest⟩ := ⟨hplacedRest, hdistinctRest, hsparesRest⟩
    have hgrown : ∀ values functions (below : List Handle),
        (∀ lower ∈ below, lower.Placed heap) →
          below.map (heap.grow values functions).view = below.map heap.view :=
      fun values functions below hbelow =>
        List.map_congr_left fun lower hl => Heap.view_grow (hbelow lower hl) values functions
    by_cases hpush : s = .push
    · subst hpush
      refine ⟨by simp [SharedStack.step, Environment.step, environments], ?_,
        separate_grow hplaced.new_frame h [] []⟩
      exact congrArg₂ List.cons (Heap.view_frame hplaced) (hgrown [] [] (top :: rest) h.placed)
    by_cases hdrop : s = .drop
    · subst hdrop
      exact ⟨by simp [SharedStack.step, Environment.step, environments], rfl, hrest⟩
    by_cases hreset : s = .reset
    · subst hreset
      refine ⟨rfl, ?_, separate_grow hplaced.new_renewed hrest _ _⟩
      exact congrArg₂ List.cons (Heap.view_renewed hplaced) (hgrown _ _ rest hplacedRest)
    · have hact : Environment.step (environments ⟨heap, top :: rest⟩) s
          = (((heap.view top).act s).1, ((heap.view top).act s).2 :: rest.map heap.view) := by
        cases s <;> first | rfl | contradiction
      have hwrites := writesInside_act hreset (heap.view top)
      rw [step_other rfl hpush hdrop hreset, hact]
      refine ⟨rfl, congrArg₂ List.cons (Heap.view_commit_self hplaced hdistinct hwrites) ?_,
        separate_commit h hwrites⟩
      exact List.map_congr_left fun lower hl => Heap.view_commit_of_spares (hspares lower hl) hwrites

def ofEnvironment (env : Environment) : SharedStack where
  heap := ⟨env.vars.layers ++ [env.seed], env.functions.layers⟩
  handles :=
    [{ vars := ⟨0, List.range' 1 env.vars.outer.length⟩
       functions := ⟨0, List.range' 1 env.functions.outer.length⟩
       seed := env.vars.layers.length
       mode := env.mode
       cap := env.cap }]

theorem read_layers {α : Type} (s : Scope α) (more : List (Layer α)) :
    (⟨0, List.range' 1 s.outer.length⟩ : Chain).read (s.layers ++ more) = s := by
  have houter : (List.range' 1 s.outer.length).map (fun place => (s.layers ++ more).getD place [])
      = s.outer := by
    refine List.ext_getElem (by simp) fun i h h' => ?_
    have hi : i < (s.outer ++ more).length := by simp; omega
    simp [Scope.layers, Nat.add_comm 1 i, List.getElem?_eq_getElem hi, List.getElem_append_left h']
  rw [Chain.read, houter]
  rfl

theorem environments_ofEnvironment (env : Environment) :
    (ofEnvironment env).environments = [env] := by
  have hseed : (env.vars.layers ++ [env.seed]).getD env.vars.layers.length [] = env.seed := by
    rw [List.getD_append_right _ _ _ _ (Nat.le_refl _), Nat.sub_self]
    rfl
  have hfunctions := read_layers env.functions []
  rw [List.append_nil] at hfunctions
  simp only [environments, ofEnvironment, List.map_cons, List.map_nil, Heap.view,
    read_layers env.vars, hfunctions, hseed]

theorem separate_ofEnvironment (env : Environment) : (ofEnvironment env).Separate where
  placed := by
    refine List.forall_mem_singleton.mpr ⟨?_, ?_, ?_⟩ <;>
      simp [ofEnvironment, Chain.places, Scope.layers] <;> omega
  distinct := by
    refine List.forall_mem_singleton.mpr ⟨?_, ?_, ?_⟩ <;>
      simp [Scope.layers]
  spares := List.pairwise_singleton _ _

/-- A stack that grew out of one environment answers as one of separate environments does. -/
theorem Separate.runSteps {stack : SharedStack} (h : stack.Separate) (steps : List Step) :
    (runSteps SharedStack.step stack steps).1
        = (runSteps Environment.step stack.environments steps).1 ∧
      (runSteps SharedStack.step stack steps).2.environments
        = (runSteps Environment.step stack.environments steps).2 := by
  induction steps generalizing stack with
  | nil => exact ⟨rfl, rfl⟩
  | cons s rest ih =>
    obtain ⟨hanswer, hseen, hnext⟩ := h.step s
    obtain ⟨hanswers, hlast⟩ := ih hnext
    rw [hseen] at hanswers hlast
    exact ⟨congrArg₂ List.cons hanswer hanswers, hlast⟩

end SharedStack

/-- Separate environments below a frame stay as they are while steps on the frame go on. -/
theorem runSteps_matched {steps : List Step} (hsteps : Matched steps) (top : Environment)
    (below : List Environment) :
    ∃ top', (runSteps Environment.step (top :: below) steps).2 = top' :: below := by
  induction hsteps generalizing top below with
  | nil => exact ⟨top, rfl⟩
  | @step s rest hpush hdrop _ ih =>
    have hact : (Environment.step (top :: below) s).2 = (top.act s).2 :: below := by
      cases s <;> first | rfl | contradiction
    rw [runSteps_cons, hact]
    exact ih _ below
  | frame _ _ ihsteps ih =>
    obtain ⟨callee, hcallee⟩ := ihsteps top.frame (top :: below)
    have hdropped : (Environment.step (callee :: top :: below) .drop).2 = top :: below := rfl
    rw [runSteps_cons, runSteps_append]
    show ∃ top', (runSteps Environment.step
      (runSteps Environment.step (top.frame :: top :: below) _).2 _).2 = top' :: below
    rw [hcallee, runSteps_cons, hdropped]
    exact ih top below

/-- **Frames are isolated.** Whatever is done between pushing a frame and dropping it, with success
or without, the environments below are afterwards the very ones that were there, with their
variables, functions and settings and with the seed that a reset goes back to. It makes no
difference which layers and seeds the environments of the stack share. The shared stack that grows
out of one environment answers and shows all that separate environments do. -/
theorem frames_isolated {steps : List Step} (hsteps : Matched steps) :
    (∀ stack : SharedStack, (∀ h ∈ stack.handles, h.Placed stack.heap) →
      (stack.run (.push :: (steps ++ [.drop]))).handles = stack.handles ∧
        (stack.run (.push :: (steps ++ [.drop]))).environments = stack.environments) ∧
    (∀ stack : List Environment,
      (runSteps Environment.step stack (.push :: (steps ++ [.drop]))).2 = stack) ∧
    ∀ (env : Environment) (before : List Step),
      (runSteps SharedStack.step (.ofEnvironment env) before).1
          = (runSteps Environment.step [env] before).1 ∧
        (runSteps SharedStack.step (.ofEnvironment env) before).2.environments
          = (runSteps Environment.step [env] before).2 := by
  refine ⟨fun stack hplaced => SharedStack.run_frame hplaced hsteps, fun stack => ?_,
    fun env before => ?_⟩
  · cases stack with
    | nil => exact runSteps_of_fixed Environment.step (fun s => rfl) _
    | cons top below =>
      obtain ⟨callee, hcallee⟩ := runSteps_matched hsteps top.frame (top :: below)
      rw [runSteps_cons, runSteps_append]
      show (Environment.step (runSteps Environment.step (top.frame :: top :: below) steps).2
        .drop).2 = top :: below
      rw [hcallee]
      rfl
  · have h := (SharedStack.separate_ofEnvironment env).runSteps before
    rwa [SharedStack.environments_ofEnvironment] at h

/-- A frame in which variables of the caller are set and deleted, functions defined and called,
settings changed, another frame pushed and everything reset is isolated. -/
theorem busy_frame_isolated :
    let steps : List Step :=
      [.set "pi" (.integer 3), .delete "pi", .delete "pi", .eval "f(x)=x+y", .eval "f(2)",
        .push, .eval "ans=7", .useMode (.text "rad"), .reset, .drop, .take "ans", .reset, .eval "1+"]
    Matched steps ∧
      ((SharedStack.ofEnvironment .standard).run (.push :: (steps ++ [.drop]))).environments
        = [.standard] := by
  intro steps
  have hinner : Matched [.eval "ans=7", .useMode (.text "rad"), .reset] :=
    .step nofun nofun (.step nofun nofun (.step nofun nofun .nil))
  have hsteps : Matched steps :=
    .step nofun nofun (.step nofun nofun (.step nofun nofun (.step nofun nofun
      (.step nofun nofun (.frame hinner (.step nofun nofun (.step nofun nofun
        (.step nofun nofun .nil))))))))
  have hplaced := (SharedStack.separate_ofEnvironment .standard).placed
  refine ⟨hsteps, ?_⟩
  rw [((frames_isolated hsteps).1 _ hplaced).2, SharedStack.environments_ofEnvironment]

end Reckoner
