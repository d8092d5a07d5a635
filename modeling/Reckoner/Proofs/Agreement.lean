import Reckoner.Proofs.Comparison
import Reckoner.Proofs.Failures

/-!
# Evaluations that agree

Two ways to make calls are compared through what can be seen of their environments: the settings,
and what a name is bound to. `Eval.Agree` says that two computations cannot be told apart that way,
and `Calls.Simulates` asks it of the bodies of functions, where a call may have environments
related in another manner than its caller and has to restore that of the caller when it is left.
This is the comparison in which values are related if they are equal (`respected_of_eq`), so that
`agree_eval` goes over the expressions, and `simulates_nested` over the depth of calls.

The expressions on the two sides need not be the same either: those of `Expr.Alike` differ in the
nodes that their errors show and in nothing else.
-/

namespace Reckoner

/-- Two results agree: equal values, or failures that are alike, and related environments
in both cases. -/
inductive ResultsAgree (related : Environment → Environment → Prop)
    (alike : Failure → Failure → Prop) {α : Type} :
    EStateM.Result Failure Environment α → EStateM.Result Failure Environment α → Prop
  | ok {a : α} {env env' : Environment} (h : related env env') :
    ResultsAgree related alike (.ok a env) (.ok a env')
  | error {failure failure' : Failure} {env env' : Environment} (h : related env env')
    (hfailure : alike failure failure') :
    ResultsAgree related alike (.error failure env) (.error failure' env')

theorem resultsAgree_iff {α : Type} {related : Environment → Environment → Prop}
    {alike : Failure → Failure → Prop} {result result' : EStateM.Result Failure Environment α} :
    ResultsAgree related alike result result'
      ↔ ResultsRelate related alike (· = ·) result result' := by
  constructor
  · intro h
    cases h with
    | ok h => exact .ok rfl h
    | error h hfailure => exact .error hfailure h
  · intro h
    cases h with
    | ok ha h => exact ha ▸ .ok h
    | error hfailure h => exact .error h hfailure

namespace ResultsAgree

variable {α : Type} {related weaker : Environment → Environment → Prop}
  {alike : Failure → Failure → Prop} {result result' : EStateM.Result Failure Environment α}

theorem mono (hle : ∀ env env', related env env' → weaker env env')
    (h : ResultsAgree related alike result result') : ResultsAgree weaker alike result result' := by
  cases h with
  | ok h => exact .ok (hle _ _ h)
  | error h hfailure => exact .error (hle _ _ h) hfailure

/-- A failure that is only like itself happens on both sides or on none. -/
theorem fails_iff {failure : Failure}
    (hfailure : ∀ f f', alike f f' → (f = failure ↔ f' = failure))
    (h : ResultsAgree related alike result result') :
    (∃ env, result = .error failure env) ↔ ∃ env, result' = .error failure env :=
  (resultsAgree_iff.mp h).fails_iff hfailure

end ResultsAgree

/-- Two computations end in results that agree when they start from related environments. -/
def Eval.Agree (related : Environment → Environment → Prop) (alike : Failure → Failure → Prop)
    {α : Type} (m m' : Eval α) : Prop :=
  ∀ env env', related env env' → ResultsAgree related alike (m env) (m' env')

/-- Evaluation cannot tell related environments apart, and its writes keep them related. -/
structure Environment.Indistinct (related : Environment → Environment → Prop) : Prop where
  mode : ∀ {env env'}, related env env' → env.mode = env'.mode
  cap : ∀ {env env'}, related env env' → env.cap = env'.cap
  vars : ∀ {env env'}, related env env' → ∀ name, env.vars.find? name = env'.vars.find? name
  functions : ∀ {env env'}, related env env' →
    ∀ name, env.functions.find? name = env'.functions.find? name
  setVariable : ∀ {env env'}, related env env' →
    ∀ name v, related (env.setVariable name v) (env'.setVariable name v)
  define : ∀ {env env'}, related env env' →
    ∀ name f, related (env.define name f) (env'.define name f)

/-! ## Equal values -/

/-- What is refused with a reported error is refused alike on both sides. -/
theorem OutcomesRelate.of_answers {failures : Failure → Failure → Prop}
    (hreported : ∀ error, failures (.reported error) (.reported error)) {fits : Prop}
    {x : Except Failure Value} (h : Answers fits x) :
    OutcomesRelate failures (· = ·) x x := by
  rcases h with ⟨error, rfl⟩ | ⟨⟨v, rfl⟩, -⟩
  · exact .error (hreported error)
  · exact .ok rfl

/-- The rules for values respect equality, if it is respected where an element of a list has to be
a number. -/
theorem Comparison.computes_of_element {ι : Type} {C : Comparison ι} (hvalues : C.values = (· = ·))
    (hreported : ∀ error, C.failures (.reported error) (.reported error))
    (hnotNumeral : ∀ text, C.failures (.notNumeral text) (.notNumeral text))
    (hmode : ∀ {i env env'}, C.envs i env env' → env.mode = env'.mode)
    (helement : ∀ i v, C.Relate i (· = ·) (elementOf v) (elementOf v)) : C.Computes := by
  have hnumbers : C.numbers = (· = ·) := by
    funext x y
    simp [numbers, hvalues]
  exact {
    reported := hreported
    notNumeral := hnotNumeral
    number := fun x => by rw [numbers, hvalues]
    element := fun i v v' hv => by
      rw [hvalues] at hv
      rw [hnumbers, hv]
      exact helement i v'
    literal := fun {columns columns'} h => by
      obtain rfl : columns = columns' := by
        simpa [Comparison.columns, hnumbers, List.forall₂_eq_eq_eq] using h
      rw [hvalues]
      exact .of_answers hreported (answers_valueOfColumns columns)
    operate := fun operator {l l' r r'} hl hr => by
      rw [hvalues] at hl hr
      subst hl hr
      rw [hvalues]
      exact .of_answers hreported (answers_operate operator l r)
    builtin := fun {i env env'} henv name args args' hargs => by
      obtain rfl : args = args' := by simpa [hvalues, List.forall₂_eq_eq_eq] using hargs
      rw [hmode henv, hvalues]
      exact .of_answers hreported (answers_callBuiltin name args env'.mode) }

/-- The rules for values respect equality in environments of the same settings. -/
theorem Comparison.computes_of_eq {ι : Type} {C : Comparison ι} (hvalues : C.values = (· = ·))
    (hreported : ∀ error, C.failures (.reported error) (.reported error))
    (hnotNumeral : ∀ text, C.failures (.notNumeral text) (.notNumeral text))
    (hmode : ∀ {i env env'}, C.envs i env env' → env.mode = env'.mode)
    (hcap : ∀ {i env env'}, C.envs i env env' → env.cap = env'.cap) : C.Computes := by
  refine computes_of_element hvalues hreported hnotNumeral hmode fun i v => ?_
  cases v with
  | scalar x => exact .pure rfl
  | vector | matrix =>
    refine .get_bind fun env env' henv => ?_
    rw [hcap henv]
    exact .throw (hreported _)

/-- What is equal on both sides can be given to a variable. -/
theorem Comparison.Computes.stores {ι : Type} {C : Comparison ι} (hC : C.Computes)
    (hvalues : C.values = (· = ·))
    (hset : ∀ {i env env'}, C.envs i env env' →
      ∀ name v, C.envs i (env.setVariable name v) (env'.setVariable name v)) : C.Stores where
  toComputes := hC
  setVariable henv name _ _ hv := by
    rw [hvalues] at hv
    exact hv ▸ hset henv name _

/-- Evaluation respects equality in environments that show the same variables. -/
theorem Comparison.Computes.respected {ι : Type} {C : Comparison ι} (hC : C.Computes)
    (hvalues : C.values = (· = ·))
    (hvars : ∀ {i env env'}, C.envs i env env' →
      ∀ name, env.vars.find? name = env'.vars.find? name)
    (hset : ∀ {i env env'}, C.envs i env env' →
      ∀ name v, C.envs i (env.setVariable name v) (env'.setVariable name v)) : C.Respected where
  toStores := hC.stores hvalues hset
  bound {i env env'} henv name := by
    rw [hvars henv, hvalues]
    cases env'.vars.find? name with
    | none => exact .none
    | some v => exact .some rfl

/-- A comparison of environments that show the same respects equal values. -/
theorem Comparison.respected_of_eq {ι : Type} {C : Comparison ι} (hvalues : C.values = (· = ·))
    (hreported : ∀ error, C.failures (.reported error) (.reported error))
    (hnotNumeral : ∀ text, C.failures (.notNumeral text) (.notNumeral text))
    (hmode : ∀ {i env env'}, C.envs i env env' → env.mode = env'.mode)
    (hcap : ∀ {i env env'}, C.envs i env env' → env.cap = env'.cap)
    (hvars : ∀ {i env env'}, C.envs i env env' →
      ∀ name, env.vars.find? name = env'.vars.find? name)
    (hset : ∀ {i env env'}, C.envs i env env' →
      ∀ name v, C.envs i (env.setVariable name v) (env'.setVariable name v)) :
    C.Respected :=
  (computes_of_eq hvalues hreported hnotNumeral hmode hcap).respected hvalues hvars hset

/-! ## Evaluation -/

/-- Two ways to make calls keep their environments related. A call may be in environments that are
related in another manner, as long as leaving it restores the manner of the caller. -/
structure Calls.Simulates {ι : Type} (related : ι → Environment → Environment → Prop)
    (alike : Failure → Failure → Prop) (calls calls' : Calls) : Prop where
  refl : ∀ failure, alike failure failure
  indistinct : ∀ i, Environment.Indistinct (related i)
  enter : ∀ i caller caller', related i caller caller' →
    ∃ j, related j (calls.enter caller) (calls'.enter caller') ∧
      ∀ callee callee', related j callee callee' →
        related i (calls.leave caller callee) (calls'.leave caller' callee')
  run : ∀ i body, Eval.Agree (related i) alike (calls.run body) (calls'.run body)

section Evaluation

variable {ι : Type} {related : ι → Environment → Environment → Prop}
  {alike : Failure → Failure → Prop}

theorem respected_of_indistinct (hrefl : ∀ failure, alike failure failure)
    (hindistinct : ∀ i, Environment.Indistinct (related i)) :
    (⟨related, (· = ·), alike⟩ : Comparison ι).Respected :=
  Comparison.respected_of_eq rfl (fun _ => hrefl _) (fun _ => hrefl _) (hindistinct _).mode
    (hindistinct _).cap (hindistinct _).vars (hindistinct _).setVariable

/-- Calls that simulate each other do so in the comparison by equal values. -/
theorem Calls.Simulates.comparison {calls calls' : Calls}
    (h : calls.Simulates related alike calls') :
    (⟨related, (· = ·), alike⟩ : Comparison ι).Simulates calls calls' where
  respected := respected_of_indistinct h.refl h.indistinct
  enter := h.enter
  functions := (h.indistinct _).functions
  define := (h.indistinct _).define
  run i body env env' henv := resultsAgree_iff.mp (h.run i body env env' henv)

/-- **Alike expressions evaluate alike.** What an expression computes depends on the environment and
on the way to make calls only through what the relations keep. -/
theorem agree_eval {calls calls' : Calls} (h : calls.Simulates related alike calls')
    {e e' : Expr} (he : e.Alike (· = ·) alike e') (i : ι) :
    Eval.Agree (related i) alike (e.eval calls) (e'.eval calls') :=
  fun env env' henv => resultsAgree_iff.mpr (h.comparison.like_of_alike he i env env' henv)

/-- Two ways to enter and leave calls that keep environments related do so at any depth. -/
theorem simulates_nested (hrefl : ∀ failure, alike failure failure)
    (hindistinct : ∀ i, Environment.Indistinct (related i))
    {enter enter' : Environment → Environment}
    {leave leave' : Environment → Environment → Environment}
    (henter : ∀ i caller caller', related i caller caller' →
      ∃ j, related j (enter caller) (enter' caller') ∧
        ∀ callee callee', related j callee callee' →
          related i (leave caller callee) (leave' caller' callee'))
    (depth : Nat) :
    (Calls.nested enter leave depth).Simulates related alike
      (Calls.nested enter' leave' depth) := by
  have hsimulates := Comparison.simulates_nested (respected_of_indistinct hrefl hindistinct)
    (hrefl _) henter (hindistinct _).functions (hindistinct _).define depth
  exact ⟨hrefl, hindistinct, hsimulates.enter,
    fun i body env env' h => resultsAgree_iff.mpr (hsimulates.run i body env env' h)⟩

end Evaluation

end Reckoner
