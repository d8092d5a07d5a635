import Reckoner.Proofs.Bindings
import Reckoner.Proofs.Outcomes
import Reckoner.Proofs.Sharing

/-!
# Environments are layered mappings

Reading goes through all layers of an environment, while setting and deleting see the innermost one
only, so the two have different ideas of what a name is bound to. The laws that hold nevertheless
are those of `Environment.Layered` for what an environment shows, and of `SharedStack.Obeys` for
what the steps on the top of a stack do. They need layers that bind every name at most once, and
there are no others: a step that evaluates nothing does one of few things (`Environment.Acts`), or
is refused and then does nothing, and each of these keeps an environment as it should be
(`Environment.Sound`).

The environments of the stack share their layers (`SharedStack`), so what a step leaves alone is
left alone for the environments below too. The main statement is `layered_mapping`.
-/

namespace Reckoner

open Environment (Step StepAnswer)

/-! ## Data that can be stored -/

namespace Datum

/-- The value that a piece of data stands for: calculator values, real numbers and grids of rank at
most two stand for one, and truth values, texts, nothing, lists and records do not. -/
inductive StandsFor : Datum → Value → Prop
  | value (v : Value) : StandsFor (.value v) v
  | tensor {t : Tensor} {v : Value} (h : t.toValue? = some v) : StandsFor (.tensor t) v
  | integer {n : Int} {x : Float} (h : floatOfInt? n = some x) : StandsFor (.integer n) (.scalar x)
  | number (x : Float) : StandsFor (.number x) (.scalar x)

theorem toValue_eq_ok_iff {place : String} {d : Datum} {v : Value} :
    d.toValue place = .ok v ↔ d.StandsFor v := by
  constructor
  · intro h
    cases d with
    | value w => exact Except.ok.inj h ▸ .value w
    | tensor t =>
      rw [toValue, ofTensor] at h
      split at h
      · next hvalue => exact Except.ok.inj h ▸ .tensor hvalue
      · cases h
    | integer n =>
      rw [toValue] at h
      split at h
      · next hfloat => exact Except.ok.inj h ▸ .integer hfloat
      · cases h
    | number x => exact Except.ok.inj h ▸ .number x
    | _ => cases h
  · intro h
    cases h with
    | value | number => rfl
    | tensor h => simp only [toValue, ofTensor, h]
    | integer h => simp only [toValue, h]

/-- A cap is a whole number in range. -/
theorem toDigitCap_cases (d : Datum) :
    (∃ cap : DigitCap, d = .integer cap.val ∧ d.toDigitCap = .ok cap) ∨
    ((∀ n : Int, d = .integer n → n < 0 ∨ maxPlaces < n) ∧
      d.toDigitCap = .error (.badDigitCap d.quoted)) := by
  cases d with
  | integer n =>
    rw [toDigitCap]
    by_cases hrange : 0 ≤ n ∧ n ≤ maxPlaces
    · rw [DigitCap.ofInt?, dif_pos hrange]
      exact .inl ⟨_, congrArg integer (Int.toNat_of_nonneg hrange.1).symm, rfl⟩
    · rw [DigitCap.ofInt?, dif_neg hrange]
      refine .inr ⟨fun m hm => ?_, rfl⟩
      cases hm
      omega
  | _ =>
    refine .inr ⟨fun n hn => ?_, rfl⟩
    cases hn

theorem eq_of_toDigitCap {d : Datum} {cap : DigitCap} (h : d.toDigitCap = .ok cap) :
    d = .integer cap.val := by
  rcases d.toDigitCap_cases with ⟨cap', hd, hcap⟩ | ⟨-, hcap⟩ <;> rw [hcap] at h
  · cases h
    exact hd
  · cases h

end Datum

/-! ## What a step does -/

def Environment.Step.EvaluatesNothing (s : Step) : Prop := ∀ line, s ≠ .eval line

/-- What a step answers and what becomes of the environment, if the step evaluates nothing. -/
inductive Environment.Acts (env : Environment) :
    Step → Except Failure StepAnswer → Environment → Prop
  | refused {s : Step} (failure : Failure) : Acts env s (.error failure) env
  | looked {s : Step} (answer : StepAnswer) : Acts env s (.ok answer) env
  | set {name : String} {d : Datum} {v : Value} (h : d.StandsFor v) :
    Acts env (.set name d) (.ok .nothing) (env.setVariable name v)
  | erased {s : Step} (name : String) (answer : StepAnswer) :
    Acts env s (.ok answer) { env with vars := env.vars.erase name }
  | defined {s : Step} (name : String) (f : Function) :
    Acts env s (.ok (.function f)) (env.define name f)
  | useMode {s : Step} (mode : TrigMode) : Acts env s (.ok (.mode mode)) { env with mode := mode }
  | useDigits {cap : DigitCap} :
    Acts env (.useDigits (.integer cap.val)) (.ok (.cap cap)) { env with cap := cap }
  | reset : Acts env .reset (.ok .nothing) env.reset

theorem Environment.delete_cases (env : Environment) (name : String) :
    (name ∈ env.vars.inner.names ∧
      env.delete name = .ok { env with vars := env.vars.erase name }) ∨
    (name ∉ env.vars.inner.names ∧ env.delete name = .error (.notInnermost name)) := by
  rw [delete]
  cases h : env.vars.inner.find? name with
  | some v => exact .inl ⟨Layer.mem_names_iff.mpr ⟨v, h⟩, rfl⟩
  | none => exact .inr ⟨Layer.find?_eq_none_iff.mp h, rfl⟩

theorem Environment.acts_act {s : Step} (hs : s.EvaluatesNothing) (env : Environment) :
    env.Acts s (env.act s).1 (env.act s).2 := by
  cases s with
  | get name =>
    rw [act]
    cases env.get name
    · exact .refused _
    · exact .looked _
  | set name data =>
    rw [act, store]
    cases h : data.toValue (placeOf name) with
    | error failure => exact .refused failure
    | ok v => exact .set (Datum.toValue_eq_ok_iff.mp h)
  | delete name =>
    rw [act]
    rcases env.delete_cases name with ⟨-, h⟩ | ⟨-, h⟩ <;> rw [h]
    · exact .erased name _
    · exact .refused _
  | take name =>
    rw [act]
    cases env.get name with
    | error failure => exact .refused failure
    | ok v =>
      rcases env.delete_cases name with ⟨-, h⟩ | ⟨-, h⟩ <;> simp only [h]
      · exact .erased name _
      · exact .refused _
  | define name params body =>
    rw [act]
    cases parse body with
    | error bracket => exact .refused _
    | ok tree => exact .defined name _
  | find name =>
    rw [act]
    split <;> exact .looked _
  | eval line => exact absurd rfl (hs line)
  | useMode mode =>
    rw [act]
    cases modeOf mode with
    | error failure => exact .refused failure
    | ok m => exact .useMode m
  | useDigits data =>
    rw [act]
    cases h : data.toDigitCap with
    | error failure => exact .refused failure
    | ok cap =>
      rw [Datum.eq_of_toDigitCap h]
      exact .useDigits
  | reset => exact .reset
  | has | size | depth | vars | functions | push | drop | settings => exact .looked _

/-! ## What every environment of a run is like -/

/-- The layers of an environment bind every name at most once, its variables have values of a given
kind wherever they are, and its cap is of a given kind. -/
structure Environment.Sound (stored : String → Value → Prop) (usable : DigitCap → Prop)
    (env : Environment) : Prop where
  vars : ∀ layer ∈ env.vars.layers, layer.names.Nodup
  functions : ∀ layer ∈ env.functions.layers, layer.names.Nodup
  values : ∀ layer ∈ env.vars.layers, ∀ binding ∈ layer, stored binding.1 binding.2
  seed : ∀ binding ∈ env.seed, stored binding.1 binding.2
  cap : usable env.cap

/-- A step sets variables and the cap only to what is allowed. -/
structure Environment.Step.Within (stored : String → Value → Prop) (usable : DigitCap → Prop)
    (s : Step) : Prop where
  set : ∀ name d v, s = .set name d → d.StandsFor v → stored name v
  cap : ∀ cap : DigitCap, s = .useDigits (.integer cap.val) → usable cap

namespace Environment

variable {stored : String → Value → Prop} {usable : DigitCap → Prop} {env env' : Environment}

section Start

variable (hinitial : ∀ binding ∈ initialVariables, stored binding.1 binding.2)
include hinitial

/-- A seed goes over the variables to begin with, one binding after the other. -/
theorem sound_startOf {seed : Layer Value}
    (hseed : ∀ binding ∈ seed, stored binding.1 binding.2) :
    (startOf seed).names.Nodup ∧ ∀ binding ∈ startOf seed, stored binding.1 binding.2 := by
  refine List.foldlRecOn
    (motive := fun layer : Layer Value =>
      layer.names.Nodup ∧ ∀ binding ∈ layer, stored binding.1 binding.2)
    seed _ ⟨by decide +kernel, hinitial⟩ fun layer ⟨hnames, hvalues⟩ next hnext => ?_
  refine ⟨Layer.nodup_names_set hnames, fun binding hb => ?_⟩
  rcases Layer.mem_or_eq_of_mem_set hb with hb | rfl
  · exact hvalues binding hb
  · exact hseed next hnext

theorem sound_fresh {seed : Layer Value} (hseed : ∀ binding ∈ seed, stored binding.1 binding.2)
    (mode : TrigMode) {cap : DigitCap} (hcap : usable cap) :
    (fresh seed mode cap).Sound stored usable := by
  obtain ⟨hnames, hvalues⟩ := sound_startOf hinitial hseed
  exact ⟨List.forall_mem_singleton.mpr hnames, List.forall_mem_singleton.mpr List.nodup_nil,
    List.forall_mem_singleton.mpr hvalues, hseed, hcap⟩

end Start

namespace Sound

variable (h : env.Sound stored usable)
include h

theorem frame : env.frame.Sound stored usable where
  vars := List.forall_mem_cons.mpr ⟨List.nodup_nil, h.vars⟩
  functions := List.forall_mem_cons.mpr ⟨List.nodup_nil, h.functions⟩
  values := List.forall_mem_cons.mpr ⟨List.forall_mem_nil _, h.values⟩
  seed := h.seed
  cap := h.cap

theorem setVariable {name : String} {v : Value} (hv : stored name v) :
    (env.setVariable name v).Sound stored usable := by
  obtain ⟨hinner, houter⟩ := List.forall_mem_cons.mp h.vars
  obtain ⟨hvalues, hvaluesOuter⟩ := List.forall_mem_cons.mp h.values
  refine ⟨List.forall_mem_cons.mpr ⟨Layer.nodup_names_set hinner, houter⟩, h.functions,
    List.forall_mem_cons.mpr ⟨fun binding hb => ?_, hvaluesOuter⟩, h.seed, h.cap⟩
  rcases Layer.mem_or_eq_of_mem_set hb with hb | rfl
  · exact hvalues binding hb
  · exact hv

theorem erase (name : String) :
    { env with vars := env.vars.erase name }.Sound stored usable := by
  obtain ⟨hinner, houter⟩ := List.forall_mem_cons.mp h.vars
  obtain ⟨hvalues, hvaluesOuter⟩ := List.forall_mem_cons.mp h.values
  exact ⟨List.forall_mem_cons.mpr ⟨Layer.nodup_names_erase hinner, houter⟩, h.functions,
    List.forall_mem_cons.mpr ⟨fun binding hb => hvalues binding (List.mem_of_mem_filter hb),
      hvaluesOuter⟩, h.seed, h.cap⟩

theorem define (name : String) (f : Function) : (env.define name f).Sound stored usable := by
  obtain ⟨hinner, houter⟩ := List.forall_mem_cons.mp h.functions
  exact ⟨h.vars, List.forall_mem_cons.mpr ⟨Layer.nodup_names_set hinner, houter⟩, h.values,
    h.seed, h.cap⟩

/-- A step that evaluates nothing and sets nothing to what is not allowed keeps an environment as it
should be. -/
theorem of_acts (hinitial : ∀ binding ∈ initialVariables, stored binding.1 binding.2) {s : Step}
    (hs : s.Within stored usable) {answer : Except Failure StepAnswer}
    (hacts : env.Acts s answer env') : env'.Sound stored usable := by
  cases hacts with
  | refused | looked => exact h
  | set hv => exact h.setVariable (hs.set _ _ _ rfl hv)
  | erased name => exact h.erase name
  | defined name f => exact h.define name f
  | useMode mode => exact ⟨h.vars, h.functions, h.values, h.seed, h.cap⟩
  | useDigits => exact ⟨h.vars, h.functions, h.values, h.seed, hs.cap _ rfl⟩
  | reset => exact sound_fresh hinitial h.seed env.mode h.cap

end Sound

/-- On top of a stack, a step that is no push and no drop does what it does to an environment. -/
theorem step_top {s : Step} (hpush : s ≠ .push) (hdrop : s ≠ .drop) (top : Environment)
    (below : List Environment) :
    step (top :: below) s = ((top.act s).1, (top.act s).2 :: below) := by
  cases s <;> first | rfl | contradiction

/-- What one step keeps. -/
theorem sound_step (hinitial : ∀ binding ∈ initialVariables, stored binding.1 binding.2)
    {stack : List Environment} (hstack : ∀ env ∈ stack, env.Sound stored usable) {s : Step}
    (hnothing : s.EvaluatesNothing) (hs : s.Within stored usable) :
    ∀ env ∈ (step stack s).2, env.Sound stored usable := by
  cases stack with
  | nil => exact hstack
  | cons top below =>
    obtain ⟨htop, hbelow⟩ := List.forall_mem_cons.mp hstack
    by_cases hpush : s = .push
    · rw [hpush]
      exact List.forall_mem_cons.mpr ⟨htop.frame, hstack⟩
    by_cases hdrop : s = .drop
    · rw [hdrop]
      exact hbelow
    · rw [step_top hpush hdrop]
      exact List.forall_mem_cons.mpr
        ⟨htop.of_acts hinitial hs (acts_act hnothing top), hbelow⟩

/-- What a run keeps. -/
theorem sound_runSteps (hinitial : ∀ binding ∈ initialVariables, stored binding.1 binding.2)
    {stack : List Environment} (hstack : ∀ env ∈ stack, env.Sound stored usable) {steps : List Step}
    (hsteps : ∀ s ∈ steps, s.EvaluatesNothing ∧ s.Within stored usable) :
    ∀ env ∈ (runSteps step stack steps).2, env.Sound stored usable := by
  induction steps generalizing stack with
  | nil => exact hstack
  | cons s rest ih =>
    obtain ⟨⟨hnothing, hs⟩, hrest⟩ := List.forall_mem_cons.mp hsteps
    exact ih (sound_step hinitial hstack hnothing hs) hrest

/-! ## Where bindings come from -/

/-- A computation in two parts succeeds if both of them do. -/
theorem exists_of_bind_eq_ok {α β : Type} {x : Except Failure α} {f : α → Except Failure β} {b : β}
    (h : x >>= f = .ok b) : ∃ a, x = .ok a ∧ f a = .ok b := by
  cases x with
  | error failure => cases h
  | ok a => exact ⟨a, rfl, h⟩

/-- A variable may have this value after some steps over a seed: it has it to begin with, or was
given a piece of data that stands for it. -/
def Stored (data : List (String × Datum)) (steps : List Step) (name : String) (v : Value) : Prop :=
  (name, v) ∈ initialVariables ∨
    ∃ d : Datum, d.StandsFor v ∧ ((name, d) ∈ data ∨ .set name d ∈ steps)

/-- This cap may be in force after some steps: it is the usual one, or a whole number that was
given. -/
def Usable (given : Option Datum) (steps : List Step) (cap : DigitCap) : Prop :=
  cap = .standard ∨ given = some (.integer cap.val) ∨ .useDigits (.integer cap.val) ∈ steps

theorem exists_of_mem_seedOf {data : List (String × Datum)} {seed : Layer Value}
    (h : seedOf data = .ok seed) {binding : String × Value} (hbinding : binding ∈ seed) :
    ∃ d : Datum, d.StandsFor binding.2 ∧ (binding.1, d) ∈ data := by
  induction data generalizing seed with
  | nil =>
    cases h
    cases hbinding
  | cons first rest ih =>
    obtain ⟨name, d⟩ := first
    obtain ⟨v, hv, h⟩ := exists_of_bind_eq_ok h
    obtain ⟨values, hvalues, h⟩ := exists_of_bind_eq_ok h
    cases h
    rcases List.mem_cons.mp hbinding with rfl | hbinding
    · exact ⟨d, Datum.toValue_eq_ok_iff.mp hv, List.mem_cons_self⟩
    · obtain ⟨d', hstands, hmem⟩ := ih hvalues hbinding
      exact ⟨d', hstands, List.mem_cons_of_mem _ hmem⟩

/-- An environment is built of what it was given. -/
theorem sound_build {data : List (String × Datum)} {mode given : Option Datum}
    {start : Environment} (h : build data mode given = .ok start) (steps : List Step) :
    start.Sound (Stored data steps) (Usable given steps) := by
  obtain ⟨m, -, h⟩ := exists_of_bind_eq_ok h
  obtain ⟨cap, hcap, h⟩ := exists_of_bind_eq_ok h
  obtain ⟨seed, hseed, h⟩ := exists_of_bind_eq_ok h
  cases h
  refine sound_fresh (fun _ => .inl) (fun binding hb => ?_) m ?_
  · obtain ⟨d, hstands, hmem⟩ := exists_of_mem_seedOf hseed hb
    exact .inr ⟨d, hstands, .inl hmem⟩
  · cases given with
    | none => exact .inl (Except.ok.inj hcap).symm
    | some d => exact .inr (.inl (congrArg some (Datum.eq_of_toDigitCap hcap)))

/-! ## The laws -/

/-- What an environment shows is what its layers say: the first of them that binds a name decides on
its value, and iteration comes to every name that has one exactly once, however many layers bind
it. -/
structure Layered (env : Environment) : Prop where
  get : ∀ name v, env.get name = .ok v ↔ Binds env.vars.layers name v
  unknown : ∀ name, env.get name = .error (.missingName name) ↔
    ∀ layer ∈ env.vars.layers, name ∉ layer.names
  function : ∀ name f, env.functions.find? name = some f ↔ Binds env.functions.layers name f
  once : env.vars.inOrder.Nodup
  visible : ∀ name, name ∈ env.vars.inOrder ↔ ∃ v, env.get name = .ok v
  size : env.vars.size = env.vars.inOrder.length

theorem get_eq_ok_iff {env : Environment} {name : String} {v : Value} :
    env.get name = .ok v ↔ env.vars.find? name = some v := by
  rw [get]
  cases env.vars.find? name <;> simp

theorem get_eq_error_iff {env : Environment} {name : String} :
    env.get name = .error (.missingName name) ↔ env.vars.find? name = none := by
  rw [get]
  cases env.vars.find? name <;> simp

theorem Sound.layered {stored : String → Value → Prop} {usable : DigitCap → Prop}
    {env : Environment} (h : env.Sound stored usable) : env.Layered where
  get _ _ := get_eq_ok_iff.trans (findSome?_eq_some_iff h.vars)
  unknown _ := get_eq_error_iff.trans findSome?_eq_none_iff
  function _ _ := findSome?_eq_some_iff h.functions
  once := nodup_eraseDups _
  visible name := by
    have hfound : (∃ v, env.get name = .ok v) ↔
        ¬∀ layer ∈ env.vars.layers, name ∉ layer.names := by
      simp only [get_eq_ok_iff, ← Option.ne_none_iff_exists', ne_eq, Scope.find?,
        findSome?_eq_none_iff]
    rw [hfound, Scope.mem_inOrder]
    simp
  size := env.vars.size_eq

section Names

variable {env : Environment} {name : String}

theorem act_set {d : Datum} {v : Value} (h : d.StandsFor v) :
    env.act (.set name d) = (.ok .nothing, env.setVariable name v) := by
  rw [act, store, Datum.toValue_eq_ok_iff.mpr h]
  rfl

theorem exists_act_set_failed {d : Datum} (h : ∀ v, ¬d.StandsFor v) :
    ∃ failure, env.act (.set name d) = (.error failure, env) := by
  cases hvalue : d.toValue (placeOf name) with
  | ok v => exact absurd (Datum.toValue_eq_ok_iff.mp hvalue) (h v)
  | error failure =>
    refine ⟨failure, ?_⟩
    rw [act, store, hvalue]
    rfl

theorem act_delete (h : name ∈ env.vars.inner.names) :
    env.act (.delete name) = (.ok .nothing, { env with vars := env.vars.erase name }) := by
  rw [act, ((env.delete_cases name).resolve_right fun hnot => hnot.1 h).2]

theorem act_delete_failed (h : name ∉ env.vars.inner.names) :
    env.act (.delete name) = (.error (.notInnermost name), env) := by
  rw [act, ((env.delete_cases name).resolve_left fun hbound => h hbound.1).2]

theorem act_take {v : Value} (hget : env.get name = .ok v) (h : name ∈ env.vars.inner.names) :
    env.act (.take name) = (.ok (.value v), { env with vars := env.vars.erase name }) := by
  simp only [act, hget, ((env.delete_cases name).resolve_right fun hnot => hnot.1 h).2]

theorem act_take_failed {v : Value} (hget : env.get name = .ok v)
    (h : name ∉ env.vars.inner.names) :
    env.act (.take name) = (.error (.notInnermost name), env) := by
  simp only [act, hget, ((env.delete_cases name).resolve_left fun hbound => h hbound.1).2]

theorem act_take_unknown (hget : env.get name = .error (.missingName name)) :
    env.act (.take name) = (.error (.missingName name), env) := by
  simp only [act, hget]

end Names

end Environment

namespace SharedStack

/-- What a step answers, and what is seen of the stack afterwards. -/
def outcome (stack : SharedStack) (s : Step) : Except Failure StepAnswer × List Environment :=
  ((stack.step s).1, (stack.step s).2.environments)

/-- How the top environment of a stack obeys its steps. Nothing that they do is seen in the layers
around the innermost one, or in the environments below. -/
structure Obeys (stack : SharedStack) (top : Environment) (below : List Environment) : Prop where
  get : ∀ name, stack.outcome (.get name) = ((top.get name).map .value, top :: below)
  size : stack.outcome .size = (.ok (.count top.vars.inOrder.length), top :: below)
  /-- A value that is set is visible. -/
  set : ∀ name d v, d.StandsFor v → ∃ vars,
    stack.outcome (.set name d) = (.ok .nothing, { top with vars := vars } :: below) ∧
      top.vars.SameBut name vars ∧ { top with vars := vars }.get name = .ok v
  /-- What stands for no value is not stored. -/
  refuse : ∀ name d, (∀ v, ¬d.StandsFor v) → ∃ failure,
    stack.outcome (.set name d) = (.error failure, top :: below)
  /-- Where the innermost binding of a name is deleted, the next one is visible, and the name is
  unknown if there is none. -/
  delete : ∀ name, name ∈ top.vars.inner.names → ∃ vars,
    stack.outcome (.delete name) = (.ok .nothing, { top with vars := vars } :: below) ∧
      top.vars.SameBut name vars ∧
      (∀ v, { top with vars := vars }.get name = .ok v ↔ Binds top.vars.outer name v) ∧
      ({ top with vars := vars }.get name = .error (.missingName name) ↔
        ∀ layer ∈ top.vars.outer, name ∉ layer.names)
  /-- A name is taken with the value that is visible. -/
  take : ∀ name, name ∈ top.vars.inner.names → ∃ v, Binds top.vars.layers name v ∧
    stack.outcome (.take name) = (.ok (.value v), (stack.outcome (.delete name)).2)
  /-- Bindings further out cannot be deleted. -/
  deleteOuter : ∀ name, name ∉ top.vars.inner.names →
    stack.outcome (.delete name) = (.error (.notInnermost name), top :: below)
  takeOuter : ∀ name v, name ∉ top.vars.inner.names → Binds top.vars.layers name v →
    stack.outcome (.take name) = (.error (.notInnermost name), top :: below)
  takeUnknown : ∀ name, (∀ layer ∈ top.vars.layers, name ∉ layer.names) →
    stack.outcome (.take name) = (.error (.missingName name), top :: below)
  /-- A cap is a whole number in range, which no truth value is. -/
  digits : ∀ d,
    (∃ cap : DigitCap, d = .integer cap.val ∧
      stack.outcome (.useDigits d) = (.ok (.cap cap), { top with cap := cap } :: below)) ∨
    ((∀ n : Int, d = .integer n → n < 0 ∨ maxPlaces < n) ∧
      stack.outcome (.useDigits d) = (.error (.badDigitCap d.quoted), top :: below))

variable {stack : SharedStack}

theorem Separate.run (h : stack.Separate) (steps : List Step) : (stack.run steps).Separate := by
  induction steps generalizing stack with
  | nil => exact h
  | cons s rest ih => exact ih (h.step s).2.2

theorem Separate.outcome_eq (h : stack.Separate) (s : Step) :
    stack.outcome s = Environment.step stack.environments s :=
  Prod.ext (h.step s).1 (h.step s).2.1

section Top

variable {top : Environment} {below : List Environment} (h : stack.Separate)
  (hstack : stack.environments = top :: below)
include h hstack

theorem Separate.outcome_of_act {s : Step} {answer : Except Failure StepAnswer}
    {after : Environment} (hact : top.act s = (answer, after)) (hpush : s ≠ .push)
    (hdrop : s ≠ .drop) : stack.outcome s = (answer, after :: below) := by
  rw [h.outcome_eq, hstack, Environment.step_top hpush hdrop, hact]

theorem Separate.obeys {stored : String → Value → Prop} {usable : DigitCap → Prop}
    (htop : top.Sound stored usable) : stack.Obeys top below where
  get name := h.outcome_of_act hstack rfl nofun nofun
  size := h.outcome_of_act hstack (htop.layered.size ▸ rfl) nofun nofun
  set name d v hv := ⟨top.vars.set name v,
    h.outcome_of_act hstack (Environment.act_set hv) nofun nofun,
    Scope.sameBut_set (htop.vars _ List.mem_cons_self) name v,
    Environment.get_eq_ok_iff.mpr (top.vars.find?_set_self name v)⟩
  refuse name d hd := by
    obtain ⟨failure, hact⟩ := Environment.exists_act_set_failed hd
    exact ⟨failure, h.outcome_of_act hstack hact nofun nofun⟩
  delete name hname := by
    obtain ⟨hinner, houter⟩ := List.forall_mem_cons.mp htop.vars
    refine ⟨top.vars.erase name,
      h.outcome_of_act hstack (Environment.act_delete hname) nofun nofun,
      Scope.sameBut_erase hinner name, fun v => ?_, ?_⟩
    · rw [Environment.get_eq_ok_iff, Scope.find?_erase_self]
      exact findSome?_eq_some_iff houter
    · rw [Environment.get_eq_error_iff, Scope.find?_erase_self]
      exact findSome?_eq_none_iff
  take name hname := by
    obtain ⟨v, hv⟩ := Layer.mem_names_iff.mp hname
    have hbinds : Binds top.vars.layers name v := binds_of_mem (Layer.mem_of_find? hv)
    have hget := (htop.layered.get name v).mpr hbinds
    refine ⟨v, hbinds, ?_⟩
    rw [h.outcome_of_act hstack (Environment.act_take hget hname) nofun nofun,
      h.outcome_of_act hstack (Environment.act_delete hname) nofun nofun]
  deleteOuter name hname :=
    h.outcome_of_act hstack (Environment.act_delete_failed hname) nofun nofun
  takeOuter name v hname hv :=
    have hget := (htop.layered.get name v).mpr hv
    h.outcome_of_act hstack (Environment.act_take_failed hget hname) nofun nofun
  takeUnknown name hname :=
    have hget := (htop.layered.unknown name).mpr hname
    h.outcome_of_act hstack (Environment.act_take_unknown hget) nofun nofun
  digits d := by
    rcases d.toDigitCap_cases with ⟨cap, hd, hcap⟩ | ⟨hrange, hcap⟩
    · refine .inl ⟨cap, hd, h.outcome_of_act hstack ?_ nofun nofun⟩
      rw [Environment.act, hcap]
    · refine .inr ⟨hrange, h.outcome_of_act hstack ?_ nofun nofun⟩
      rw [Environment.act, hcap]

end Top

/-- A step that evaluates nothing changes nothing where it fails. -/
theorem Separate.environments_of_failed (h : stack.Separate) {s : Step}
    (hs : s.EvaluatesNothing) {failure : Failure}
    (hfailed : (stack.outcome s).1 = .error failure) :
    (stack.outcome s).2 = stack.environments := by
  rw [h.outcome_eq] at hfailed ⊢
  cases hstack : stack.environments with
  | nil => rfl
  | cons top below =>
    rw [hstack] at hfailed
    by_cases hpush : s = .push
    · rw [hpush] at hfailed
      cases hfailed
    by_cases hdrop : s = .drop
    · rw [hdrop] at hfailed
      cases hfailed
    · rw [Environment.step_top hpush hdrop] at hfailed ⊢
      have hacts := Environment.acts_act hs top
      rw [show (top.act s).1 = .error failure from hfailed] at hacts
      generalize (top.act s).2 = after at hacts
      cases hacts
      rfl

end SharedStack

/-- **Environments are layered mappings with atomic failures.** Whatever has been set, deleted,
taken, defined, pushed, dropped, reset and switched since an environment was built, the environments
of the stack show what their layers say, every name once and with its innermost binding, and the top
one obeys its steps: setting hides a binding further out and deleting shows it again, only the
innermost layer can be deleted from, and none of this touches the layers around it or the
environments below. A step that fails leaves everything as it was. All variables have values that
they had to begin with or were given, and so has the cap. Separate environments answer and show the
same as environments that share their layers. -/
theorem layered_mapping {data : List (String × Datum)} {mode given : Option Datum}
    {start : Environment} (hstart : Environment.build data mode given = .ok start)
    {steps : List Step} (hsteps : ∀ s ∈ steps, s.EvaluatesNothing) :
    let stack := (SharedStack.ofEnvironment start).run steps
    (∀ env ∈ stack.environments, env.Layered ∧
      (∀ layer ∈ env.vars.layers, ∀ binding ∈ layer,
        Environment.Stored data steps binding.1 binding.2) ∧
      Environment.Usable given steps env.cap) ∧
    (∀ top below, stack.environments = top :: below → stack.Obeys top below) ∧
    (∀ (s : Step) (failure : Failure), s.EvaluatesNothing →
      (stack.outcome s).1 = .error failure → (stack.outcome s).2 = stack.environments) ∧
    stack.environments = (runSteps Environment.step [start] steps).2 ∧
    ∀ s, stack.outcome s = Environment.step stack.environments s := by
  intro stack
  have hseparate : stack.Separate := (SharedStack.separate_ofEnvironment start).run steps
  have hrun : stack.environments = (runSteps Environment.step [start] steps).2 := by
    have h := ((SharedStack.separate_ofEnvironment start).runSteps steps).2
    rwa [SharedStack.environments_ofEnvironment] at h
  have hsound : ∀ env ∈ stack.environments,
      env.Sound (Environment.Stored data steps) (Environment.Usable given steps) := by
    rw [hrun]
    refine Environment.sound_runSteps (fun _ => .inl)
      (List.forall_mem_singleton.mpr (Environment.sound_build hstart steps))
      fun s hs => ⟨hsteps s hs, fun name d v heq hv => ?_, fun cap heq => ?_⟩
    · exact .inr ⟨d, hv, .inr (heq ▸ hs)⟩
    · exact .inr (.inr (heq ▸ hs))
  refine ⟨fun env henv => ?_, fun top below hstack => ?_, fun s failure hs => ?_, hrun,
    hseparate.outcome_eq⟩
  · exact ⟨(hsound env henv).layered, (hsound env henv).values, (hsound env henv).cap⟩
  · exact hseparate.obeys hstack (hsound top (hstack ▸ List.mem_cons_self))
  · exact hseparate.environments_of_failed hs

/-- A variable is set in an environment and in a frame on top of it, and a constant of the
environment cannot be deleted from the frame; there the variable is deleted again, which shows the
value that it has further out. -/
theorem layered_mapping_of_frame :
    let steps : List Step := [.set "x" (.number 1), .useDigits (.integer 18), .push,
      .set "x" (.number 2), .delete "pi", .take "y", .useDigits (.boolean true)]
    let stack := (SharedStack.ofEnvironment .standard).run steps
    Environment.build [] none none = .ok .standard ∧ (∀ s ∈ steps, s.EvaluatesNothing) ∧
      ∃ top below, stack.environments = top :: below ∧ stack.Obeys top below ∧
        top.get "x" = .ok (.scalar 2) ∧
        ∃ vars, (stack.outcome (.delete "x")).2 = { top with vars := vars } :: below ∧
          { top with vars := vars }.get "x" = .ok (.scalar 1) := by
  intro steps stack
  have hbuild : Environment.build [] none none = .ok .standard := rfl
  have hsteps : ∀ s ∈ steps, s.EvaluatesNothing := by
    simp [steps, Environment.Step.EvaluatesNothing]
  obtain ⟨-, hobeys, -⟩ := layered_mapping hbuild hsteps
  obtain ⟨top, below, hstack, hinner, hbinds, hget⟩ : ∃ top below,
      stack.environments = top :: below ∧ "x" ∈ top.vars.inner.names ∧
        Binds top.vars.outer "x" (.scalar 1) ∧ top.get "x" = .ok (.scalar 2) :=
    ⟨_, _, rfl, Layer.mem_names_iff.mpr ⟨.scalar 2, rfl⟩, binds_of_mem (Layer.mem_of_find? rfl),
      rfl⟩
  obtain ⟨vars, houtcome, -, hvisible, -⟩ := (hobeys top below hstack).delete "x" hinner
  exact ⟨hbuild, hsteps, top, below, hstack, hobeys top below hstack, hget, vars,
    congrArg Prod.snd houtcome, (hvisible (.scalar 1)).mpr hbinds⟩

end Reckoner
