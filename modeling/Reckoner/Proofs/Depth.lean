import Reckoner.Evaluation

/-!
# More calls

How deep calls may nest only matters to an evaluation that runs away. What comes to an end at some
depth comes to the same end at every greater one (`evalWithin_of_le`), so an evaluation either
finishes from some depth on, always alike, or runs away at every depth (`runs_away_of_le`).

Two computations are compared of which the first one is the same as the second unless it runs away
(`Eval.Below`). A computation that runs away is the end of whatever it is a part of, so this goes
through the steps that evaluation is made of.
-/

namespace Reckoner

/-- A computation runs away, or it comes to what another one comes to. -/
def Eval.Below {α : Type} (m m' : Eval α) : Prop :=
  ∀ env, (∃ after, m env = .error .runaway after) ∨ m' env = m env

namespace Eval.Below

variable {α β : Type}

protected theorem refl (m : Eval α) : m.Below m :=
  fun _ => .inr rfl

theorem of_runaway (m : Eval α) : Below (throw .runaway) m :=
  fun env => .inl ⟨env, rfl⟩

protected theorem bind {m m' : Eval α} {f f' : α → Eval β} (hm : m.Below m')
    (hf : ∀ a, (f a).Below (f' a)) : (m >>= f).Below (m' >>= f') := by
  intro env
  rcases hm env with ⟨after, h⟩ | hsame
  · exact .inl ⟨after, bind_of_error h⟩
  · cases h : m env with
    | ok a env₁ =>
      rw [bind_of_ok h, bind_of_ok (hsame.trans h)]
      exact hf a env₁
    | error failure env₁ =>
      rw [bind_of_error h, bind_of_error (hsame.trans h)]
      exact .inr rfl

end Eval.Below

/-- Two ways to make calls differ in nothing but bodies that run away in the first one. -/
structure Calls.Below (calls calls' : Calls) : Prop where
  enter : calls.enter = calls'.enter
  leave : calls.leave = calls'.leave
  run : ∀ body, (calls.run body).Below (calls'.run body)

section Expressions

variable {calls calls' : Calls}

theorem below_inside {α : Type} (hcalls : calls.Below calls') {m m' : Eval α} (hm : m.Below m') :
    (inside calls m).Below (inside calls' m') := by
  intro env
  rw [inside, inside, ← hcalls.enter, ← hcalls.leave]
  rcases hm (calls.enter env) with ⟨after, h⟩ | hsame
  · exact .inl ⟨calls.leave env after, by rw [h]⟩
  · exact .inr (by rw [hsame])

theorem below_applyFunction (hcalls : calls.Below calls') (name : String)
    (function? : Option Function) (args : List Value) :
    (applyFunction calls name function? args).Below
      (applyFunction calls' name function? args) := by
  cases function? with
  | none => exact .refl _
  | some f =>
    rw [applyFunction, applyFunction]
    split
    · exact .refl _
    · exact .bind (.refl _) fun _ => hcalls.run f.body

mutual

theorem below_eval (hcalls : calls.Below calls') (e : Expr) :
    (e.eval calls).Below (e.eval calls') := by
  cases e with
  | number | name | nothing | unknownUnary | definition | notApplicable | malformed =>
    rw [Expr.eval, Expr.eval]
    exact .refl _
  | literal rows =>
    rw [Expr.eval, Expr.eval]
    exact .bind (below_evalRows hcalls rows []) fun _ => .refl _
  | negation operand =>
    rw [Expr.eval, Expr.eval]
    exact .bind (below_eval hcalls operand) fun _ => .refl _
  | call function args =>
    rw [Expr.eval, Expr.eval]
    refine .bind (.refl _) fun caller => below_inside hcalls
      (.bind (below_evalAll hcalls args) fun values => .bind (.refl _) fun callee => ?_)
    rw [hcalls.leave]
    exact below_applyFunction hcalls _ _ _
  | assignment target value =>
    rw [Expr.eval, Expr.eval]
    exact .bind (below_eval hcalls value) fun _ => .refl _
  | misassignment value =>
    rw [Expr.eval, Expr.eval]
    exact .bind (below_eval hcalls value) fun _ => .refl _
  | operation operator left right =>
    rw [Expr.eval, Expr.eval]
    exact .bind (below_eval hcalls left) fun _ => .bind (below_eval hcalls right) fun _ => .refl _

theorem below_evalAll (hcalls : calls.Below calls') (es : List Expr) :
    (evalAll calls es).Below (evalAll calls' es) := by
  cases es with
  | nil => exact .refl _
  | cons e rest =>
    exact .bind (below_eval hcalls e) fun _ => .bind (below_evalAll hcalls rest) fun _ => .refl _

theorem below_evalRow (hcalls : calls.Below calls') (row : List Expr)
    (columns : List (List Float)) (index : Nat) :
    (evalRow calls columns index row).Below (evalRow calls' columns index row) := by
  cases row with
  | nil => exact .refl _
  | cons e rest =>
    exact .bind (below_eval hcalls e) fun _ => .bind (.refl _) fun _ =>
      below_evalRow hcalls rest _ _

theorem below_evalRows (hcalls : calls.Below calls') (rows : List (List Expr))
    (columns : List (List Float)) :
    (evalRows calls columns rows).Below (evalRows calls' columns rows) := by
  cases rows with
  | nil => exact .refl _
  | cons row rest =>
    exact .bind (below_evalRow hcalls row columns 0) fun _ => below_evalRows hcalls rest _

end

end Expressions

/-! ## Calls nested deeper -/

theorem below_framed {depth depth' : Nat} (h : depth ≤ depth') :
    (Calls.framed depth).Below (.framed depth') := by
  induction depth generalizing depth' with
  | zero => cases depth' <;> exact ⟨rfl, rfl, fun _ => .of_runaway _⟩
  | succ depth ih =>
    cases depth' with
    | zero => exact absurd h (Nat.not_succ_le_zero _)
    | succ depth' =>
      exact ⟨rfl, rfl, fun body => below_eval (ih (Nat.le_of_succ_le_succ h)) body.meaning⟩

section Depths

variable {depth depth' : Nat} {tree : Node} {env : Environment}

/-- **What comes to an end does so alike at every greater depth.** -/
theorem evalWithin_of_le (h : depth ≤ depth')
    (hend : ∀ after, evalWithin depth tree env ≠ .error .runaway after) :
    evalWithin depth' tree env = evalWithin depth tree env :=
  (below_eval (below_framed h) tree.meaning env).resolve_left fun ⟨after, haway⟩ =>
    hend after haway

/-- What runs away at some depth runs away at every smaller one. -/
theorem runs_away_of_le (h : depth ≤ depth')
    (haway : ∃ after, evalWithin depth' tree env = .error .runaway after) :
    ∃ after, evalWithin depth tree env = .error .runaway after := by
  rcases below_eval (below_framed h) tree.meaning env with haway' | hsame
  · exact haway'
  · obtain ⟨after, hafter⟩ := haway
    exact ⟨after, hsame.symm.trans hafter⟩

end Depths

end Reckoner
