import Reckoner.Proofs.Leaves
import Reckoner.Proofs.Operations
import Reckoner.Proofs.Shapes
import Reckoner.Evaluation

/-!
# How an evaluation can fail

An evaluation fails with an error that a session reports, or because calls never end. The other
failures are kept off by what stands before them: columns are compared before they are a matrix,
shapes before they are combined, and the leaves that count as numbers can be read.

The last of these is not a matter of the tree alone, because a call evaluates a body that came with
an earlier line. `Eval.Safe` therefore carries along that all stored bodies are readable, which a
failure must not spoil either: a session goes on after it.
-/

namespace Reckoner

/-- A failure that a session answers, or calls that do not end. -/
def Failure.IsExpected (failure : Failure) : Prop :=
  failure = .runaway ∨ ∃ error, failure = .reported error

/-- All numbers of the tree can be read. -/
def Node.Readable (tree : Node) : Prop :=
  tree.AllLeaves fun t => t.kind = .number → (Numeral.read? t.text).isSome

/-- The bodies of all functions, hidden ones too, are readable. -/
def Environment.Readable (env : Environment) : Prop :=
  ∀ layer ∈ env.functions.layers, ∀ binding ∈ layer, binding.2.body.Readable

/-! ## Stored bodies -/

namespace Environment.Readable

variable {env : Environment}

theorem frame (h : env.Readable) : env.frame.Readable := by
  intro layer hlayer
  rcases List.mem_cons.mp hlayer with rfl | hlayer
  · exact List.forall_mem_nil _
  · exact h layer hlayer

theorem leave (caller : Environment) (h : env.Readable) : (caller.leave env).Readable := by
  intro layer hlayer
  refine h layer ?_
  change layer ∈ env.functions.leave.layers at hlayer
  rw [Scope.leave] at hlayer
  split at hlayer
  · exact hlayer
  · next next rest houter =>
    rw [Scope.layers, houter]
    exact List.mem_cons_of_mem _ hlayer

theorem setVariables (h : env.Readable) (bindings : List (String × Value)) :
    (env.setVariables bindings).Readable := by
  induction bindings generalizing env with
  | nil => exact h
  | cons binding rest ih => exact ih h

theorem define (h : env.Readable) (name : String) {f : Function} (hf : f.body.Readable) :
    (env.define name f).Readable := by
  intro layer hlayer binding hbinding
  rcases List.mem_cons.mp hlayer with rfl | hlayer
  · rcases Layer.mem_set hbinding with hold | hnew
    · exact h _ List.mem_cons_self binding hold
    · rw [hnew]
      exact hf
  · exact h layer (List.mem_cons_of_mem _ hlayer) binding hbinding

theorem body (h : env.Readable) {name : String} {f : Function}
    (hf : env.functions.find? name = some f) : f.body.Readable := by
  obtain ⟨layer, hlayer, hfound⟩ := List.exists_of_findSome?_eq_some hf
  exact h layer hlayer _ (Layer.mem_of_find? hfound)

end Environment.Readable

/-! ## Computations -/

/-- A computation keeps stored bodies readable, and only fails in expected ways. -/
def Eval.Safe {α : Type} (m : Eval α) : Prop :=
  ∀ env : Environment, env.Readable →
    match m env with
    | .ok _ env' => env'.Readable
    | .error failure env' => failure.IsExpected ∧ env'.Readable

namespace Eval.Safe

variable {α β : Type}

protected theorem pure (a : α) : Safe (Pure.pure a) := fun _ henv => henv

protected theorem report (error : CalcError) : Safe (report error : Eval α) :=
  fun _ henv => ⟨.inr ⟨error, rfl⟩, henv⟩

protected theorem runaway : Safe (throw .runaway : Eval α) :=
  fun _ henv => ⟨.inl rfl, henv⟩

protected theorem ofExcept {x : Except Failure α}
    (h : ∀ failure, x = .error failure → failure.IsExpected) : Safe (ofExcept x : Eval α) := by
  cases x with
  | ok a => exact .pure a
  | error failure => exact fun _ henv => ⟨h failure rfl, henv⟩

protected theorem modify {f : Environment → Environment}
    (h : ∀ env : Environment, env.Readable → (f env).Readable) :
    Safe (modify f : Eval PUnit) := h

protected theorem bind {m : Eval α} {f : α → Eval β} (hm : Safe m) (hf : ∀ a, Safe (f a)) :
    Safe (m >>= f) := by
  intro env henv
  have hfirst := hm env henv
  cases h : m env with
  | ok a env' =>
    rw [h] at hfirst
    rw [Eval.bind_of_ok h]
    exact hf a env' hfirst
  | error failure env' =>
    rw [h] at hfirst
    rw [Eval.bind_of_error h]
    exact hfirst

/-- What depends on the environment may rely on readable bodies in it. -/
theorem get_bind {f : Environment → Eval β}
    (hf : ∀ env : Environment, env.Readable → Safe (f env)) : Safe (get >>= f) :=
  fun env henv => hf env henv env henv

end Eval.Safe

/-! ## Values and arguments -/

theorem isExpected_of_answers {fits : Prop} {result : Except Failure Value}
    (h : Answers fits result) (failure : Failure) (hfailure : result = .error failure) :
    failure.IsExpected := by
  rcases h with ⟨error, herror⟩ | ⟨⟨v, hv⟩, -⟩
  · exact .inr ⟨error, Except.error.inj (hfailure.symm.trans herror)⟩
  · cases hfailure.symm.trans hv

/-- Columns of unequal height are reported before a matrix is made of them. -/
theorem answers_valueOfColumns (columns : List (List Float)) :
    Answers (∀ column ∈ columns, column.length = heightOf columns) (valueOfColumns columns) := by
  unfold valueOfColumns
  split
  · exact .inl ⟨_, rfl⟩
  · next hequal =>
    have hrectangular : ∀ column ∈ columns, column.length = heightOf columns := by
      simpa using hequal
    refine .inr ⟨?_, hrectangular⟩
    split
    · exact ⟨_, rfl⟩
    · exact ⟨_, rfl⟩
    · exact ⟨_, by rw [Value.ofColumns, Matrix.ofColumns?, dif_pos hrectangular]⟩

theorem scalarArguments_cases (function : String) (args : List Value) :
    (∃ error, scalarArguments function args = .error (.reported error))
      ∨ (∃ xs, scalarArguments function args = .ok xs) ∧ ∀ v ∈ args, v.shape = [] := by
  fun_induction scalarArguments function args with
  | case1 => exact .inr ⟨⟨_, rfl⟩, List.forall_mem_nil _⟩
  | case2 x rest ih =>
    rcases ih with ⟨error, herror⟩ | ⟨⟨xs, hxs⟩, hshapes⟩
    · exact .inl ⟨error, by rw [herror]; rfl⟩
    · exact .inr ⟨⟨x :: xs, by rw [hxs]; rfl⟩, List.forall_mem_cons.mpr ⟨rfl, hshapes⟩⟩
  | case3 v rest hv => exact .inl ⟨_, rfl⟩

/-- Built-in functions compute on numbers only. -/
theorem answers_callBuiltin (name : String) (args : List Value) (mode : TrigMode) :
    Answers (∀ v ∈ args, v.shape = []) (callBuiltin name args mode) := by
  unfold callBuiltin
  split
  · exact .inl ⟨_, rfl⟩
  · split
    · rcases scalarArguments_cases name args with ⟨error, herror⟩ | ⟨⟨xs, hxs⟩, hshapes⟩
      · exact .inl ⟨error, by rw [herror]; rfl⟩
      · exact .inr ⟨⟨_, by rw [hxs]; rfl⟩, hshapes⟩
    · exact .inl ⟨_, rfl⟩

/-! ## Evaluation -/

/-- Entering and leaving a call keeps bodies readable, and running a readable one is safe. -/
structure Calls.Secure (calls : Calls) : Prop where
  enter : ∀ env : Environment, env.Readable → (calls.enter env).Readable
  leave : ∀ caller callee : Environment, callee.Readable → (calls.leave caller callee).Readable
  run : ∀ body : Node, body.Readable → (calls.run body).Safe

section Steps

variable {calls : Calls}

theorem safe_elementOf (v : Value) : (elementOf v).Safe := by
  cases v with
  | scalar x => exact .pure x
  | vector | matrix => exact .get_bind fun _ _ => .report _

theorem safe_lookUp (name : String) : (lookUp name).Safe := by
  refine .get_bind fun env _ => ?_
  split
  · exact .pure _
  · exact .report _

theorem safe_inside {α : Type} (hcalls : calls.Secure) {m : Eval α} (hm : m.Safe) :
    (inside calls m).Safe := by
  intro env henv
  have hframe := hm _ (hcalls.enter env henv)
  rw [inside]
  cases h : m (calls.enter env) with
  | ok a callee =>
    rw [h] at hframe
    exact hcalls.leave env callee hframe
  | error failure callee =>
    rw [h] at hframe
    exact ⟨hframe.1, hcalls.leave env callee hframe.2⟩

theorem safe_applyFunction (hcalls : calls.Secure) (name : String) {function? : Option Function}
    (hbody : ∀ f, function? = some f → f.body.Readable) (args : List Value) :
    (applyFunction calls name function? args).Safe := by
  cases function? with
  | none =>
    exact .get_bind fun env _ =>
      .ofExcept (isExpected_of_answers (answers_callBuiltin _ _ _))
  | some f =>
    rw [applyFunction]
    split
    · exact .report _
    · exact .bind (.modify fun env henv => henv.setVariables _)
        fun _ => hcalls.run _ (hbody f rfl)

theorem safe_evalAll {nodes : List Node} (h : ∀ node ∈ nodes, (node.meaning.eval calls).Safe) :
    (evalAll calls (nodes.map Node.meaning)).Safe := by
  induction nodes with
  | nil => exact .pure _
  | cons node rest ih =>
    obtain ⟨hnode, hrest⟩ := List.forall_mem_cons.mp h
    exact .bind hnode fun v => .bind (ih hrest) fun vs => .pure _

theorem safe_evalRow {nodes : List Node} (h : ∀ node ∈ nodes, (node.meaning.eval calls).Safe)
    (columns : List (List Float)) (index : Nat) :
    (evalRow calls columns index (nodes.map Node.meaning)).Safe := by
  induction nodes generalizing columns index with
  | nil => exact .pure _
  | cons node rest ih =>
    obtain ⟨hnode, hrest⟩ := List.forall_mem_cons.mp h
    exact .bind hnode fun v => .bind (safe_elementOf v) fun x => ih hrest _ _

theorem safe_evalRows {rows : List (List Node)}
    (h : ∀ row ∈ rows, ∀ node ∈ row, (node.meaning.eval calls).Safe)
    (columns : List (List Float)) :
    (evalRows calls columns (rows.map fun row => row.map Node.meaning)).Safe := by
  induction rows generalizing columns with
  | nil => exact .pure _
  | cons row rest ih =>
    obtain ⟨hrow, hrest⟩ := List.forall_mem_cons.mp h
    exact .bind (safe_evalRow hrow columns 0) fun _ => ih hrest _

end Steps

/-- Evaluating a readable tree is safe. -/
theorem safe_eval {calls : Calls} (hcalls : calls.Secure) {tree : Node} (hread : tree.Readable) :
    (tree.meaning.eval calls).Safe := by
  induction tree using Node.meaningInduction with
  | number t hk hm =>
    obtain ⟨n, hn⟩ := Option.isSome_iff_exists.mp (hread.leaf hk)
    rw [hm, Expr.eval, hn]
    exact .pure _
  | name t hk hm =>
    rw [hm, Expr.eval]
    exact safe_lookUp _
  | literal children hlit hm ih =>
    rw [hm, Expr.eval]
    refine .bind (safe_evalRows (fun row hr node hn => ?_) []) fun columns =>
      .ofExcept (isExpected_of_answers (answers_valueOfColumns columns))
    exact ih row hr node hn (hread.of_mem (mem_of_mem_literalRows hr hn))
  | nothing hm =>
    rw [hm, Expr.eval]
    exact .pure _
  | wrapped child hlit hm ih =>
    rw [hm]
    exact ih (hread.of_mem (List.mem_singleton_self child))
  | negation t right hk htext hm ih =>
    rw [hm, Expr.eval]
    exact .bind (ih (hread.of_mem (by simp))) fun v =>
      .ofExcept (isExpected_of_answers (answers_operate _ _ _))
  | unknownUnary t right hk hunary htext hm =>
    rw [hm, Expr.eval]
    exact .report _
  | call t right hk hm ih =>
    rw [hm, Expr.eval]
    have hargs : ∀ arg ∈ right.arguments, (arg.meaning.eval calls).Safe := fun arg harg =>
      ih arg harg ((hread.of_mem (by simp)).of_mem_arguments harg)
    refine .get_bind fun caller _ => safe_inside hcalls (.bind (safe_evalAll hargs) fun values => ?_)
    exact .get_bind fun callee hcallee =>
      safe_applyFunction hcalls _ (fun f hf => (hcalls.leave caller callee hcallee).body hf) _
  | notApplicable left right hlit hunary hname hm =>
    rw [hm, Expr.eval]
    exact .report _
  | definition left op right named stored function params ha hs hm =>
    rw [hm, Expr.eval]
    have hstored : stored.Readable := hread.of_mem (Node.mem_of_assignment?_eq_some ha).2
    exact .bind (.modify fun env henv => henv.define function hstored) fun _ => .pure _
  | assignment left op right named stored target ha hs hn hm ih =>
    rw [hm, Expr.eval]
    refine .bind (ih (hread.of_mem (Node.mem_of_assignment?_eq_some ha).2)) fun v => ?_
    exact .bind (.modify fun env henv => henv) fun _ => .pure _
  | misassignment left op right named stored ha hs hn hm ih =>
    rw [hm, Expr.eval]
    exact .bind (ih (hread.of_mem (Node.mem_of_assignment?_eq_some ha).2)) fun v => .report _
  | operation left t right hlit hop hm ihl ihr =>
    rw [hm, Expr.eval]
    exact .bind (ihl (hread.of_mem (by simp))) fun l => .bind (ihr (hread.of_mem (by simp))) fun r =>
      .ofExcept (isExpected_of_answers (answers_operate _ _ _))
  | malformed children hlit hlen hshape hm =>
    rw [hm, Expr.eval]
    exact .report _

theorem secure_framed (depth : Nat) : (Calls.framed depth).Secure := by
  induction depth with
  | zero => exact ⟨fun _ h => h.frame, fun _ _ h => h.leave _, fun body _ => .runaway⟩
  | succ depth ih =>
    exact ⟨fun _ h => h.frame, fun _ _ h => h.leave _, fun body hbody => safe_eval ih hbody⟩

/-- A tree whose numbers can be read only fails in expected ways. -/
theorem safe_evalWithin (depth : Nat) {tree : Node} (hread : tree.Readable) :
    (evalWithin depth tree).Safe :=
  safe_eval (secure_framed depth) hread

theorem readable_of_buildTree {line : String} {tree : Node}
    (h : buildTree (scan line) = .ok tree) : tree.Readable :=
  fun t ht => (lexed_of_buildTree h t ht).read?_isSome

end Reckoner
