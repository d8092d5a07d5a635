import Reckoner.Evaluation
import Reckoner.Proofs.Shapes

/-!
# Lists are the grids that they write

The rows of a list in square brackets are written one after the other, and evaluation spreads each
of them over columns that grow downwards. After every row the columns are those of the rows so far:
the `j`-th column has the `j`-th number of every row that is long enough for one (`Transposes`). So
a column is as high as the first one, which has a number of every row, exactly if no row ends in
front of it, and comparing heights finds out whether rows have different lengths.

`evalWithin_list` is what a list comes to, whatever its separators are. Its rows are looked at only
when all of its elements have a value, so the first element that is no scalar is reported ahead of
rows of different lengths, and elements behind it are not evaluated.
-/

namespace Reckoner

/-! ## Columns -/

/-- The columns after a row of numbers has been added to them from an index on. -/
def addRow (columns : List (List Float)) (index : Nat) : List Float → List (List Float)
  | [] => columns
  | x :: rest => addRow (addElement columns index x) (index + 1) rest

/-- The columns are those of the rows. -/
structure Transposes (rows columns : List (List Float)) : Prop where
  /-- A column has the numbers at its index, from top to bottom. -/
  column : ∀ j : Nat, columns[j]?.getD [] = rows.filterMap (·[j]?)
  /-- There are as many columns as the longest row has numbers. -/
  width : ∀ j : Nat, columns.length ≤ j ↔ ∀ row ∈ rows, row.length ≤ j

section Columns

variable {columns : List (List Float)} {index : Nat}

theorem column_addElement (h : index ≤ columns.length) (x : Float) (j : Nat) :
    (addElement columns index x)[j]?.getD []
      = columns[j]?.getD [] ++ if j = index then [x] else [] := by
  rw [addElement]
  split
  · next hindex =>
    rw [List.getElem?_modify]
    by_cases hj : j = index
    · simp [hj, hindex]
    · simp [hj, Ne.symm hj]
  · have hindex : index = columns.length := by omega
    rw [List.getElem?_append]
    split
    · simp [show j ≠ index by omega]
    · have hbeyond : columns[j]? = none := List.getElem?_eq_none (by omega)
      have hlast : j - columns.length = 0 ↔ j = index := by omega
      rw [hbeyond, List.getElem?_singleton]
      simp only [hlast]
      split <;> rfl

theorem length_addElement (h : index ≤ columns.length) (x : Float) :
    (addElement columns index x).length = max columns.length (index + 1) := by
  rw [addElement]
  split
  · rw [List.length_modify]
    omega
  · rw [List.length_append, List.length_singleton]
    omega

theorem length_addRow (h : index ≤ columns.length) (row : List Float) :
    (addRow columns index row).length = max columns.length (index + row.length) := by
  induction row generalizing columns index with
  | nil =>
    rw [addRow, List.length_nil]
    omega
  | cons x rest ih =>
    have hlength := length_addElement h x
    rw [addRow, ih (by omega), List.length_cons]
    omega

theorem column_addRow (h : index ≤ columns.length) (row : List Float) (j : Nat) :
    (addRow columns index row)[j]?.getD []
      = columns[j]?.getD [] ++ if index ≤ j then row[j - index]?.toList else [] := by
  induction row generalizing columns index with
  | nil => simp [addRow]
  | cons x rest ih =>
    have hlength := length_addElement h x
    rw [addRow, ih (by omega), column_addElement h, List.append_assoc]
    congr 1
    rcases Nat.lt_trichotomy j index with hj | rfl | hj
    · simp [show j ≠ index by omega, show ¬index ≤ j by omega, show ¬index + 1 ≤ j by omega]
    · simp [show ¬j + 1 ≤ j by omega]
    · obtain ⟨k, hk⟩ : ∃ k, j - index = k + 1 := ⟨j - index - 1, by omega⟩
      simp [hk, show j ≠ index by omega, show index + 1 ≤ j by omega, show index ≤ j by omega,
        show j - (index + 1) = k by omega]

end Columns

namespace Transposes

variable {rows columns : List (List Float)}

theorem nil : Transposes [] [] :=
  ⟨fun _ => rfl, fun _ => by simp⟩

/-- A row that is added to columns is one more row of them. -/
theorem addRow (h : Transposes rows columns) (row : List Float) :
    Transposes (rows ++ [row]) (addRow columns 0 row) where
  column j := by
    rw [column_addRow (Nat.zero_le _), h.column, List.filterMap_append, if_pos (Nat.zero_le j)]
    cases hx : row[j]? <;> simp [hx]
  width j := by
    rw [length_addRow (Nat.zero_le _), Nat.max_le, h.width]
    simp [or_imp, forall_and]

/-- The first column has a number of every row. -/
theorem heightOf_eq (h : Transposes rows columns) (hfilled : ∀ row ∈ rows, row ≠ []) :
    heightOf columns = rows.length := by
  have hfirst : heightOf columns = (columns[0]?.getD []).length := by
    cases columns <;> rfl
  rw [hfirst, h.column, List.filterMap_length_eq_length]
  intro row hrow
  simpa using List.length_pos_iff.mpr (hfilled row hrow)

/-- Any column has a number of every row if none ends in front of it. -/
theorem length_column_iff (h : Transposes rows columns) {j : Nat} (hj : j < columns.length) :
    columns[j].length = rows.length ↔ ∀ row ∈ rows, j < row.length := by
  have hcolumn := h.column j
  rw [List.getElem?_eq_getElem hj, Option.getD_some] at hcolumn
  simp [hcolumn, List.filterMap_length_eq_length]

/-- The column at the end of a row that is shorter than another one has no number of it. -/
theorem exists_ragged (h : Transposes rows columns) (hfilled : ∀ row ∈ rows, row ≠ [])
    {row row' : List Float} (hrow : row ∈ rows) (hrow' : row' ∈ rows)
    (hlt : row.length < row'.length) : ∃ column ∈ columns, column.length ≠ heightOf columns := by
  have hj : row.length < columns.length := by
    rw [← Nat.not_le, h.width]
    exact fun hall => Nat.not_le_of_lt hlt (hall row' hrow')
  refine ⟨columns[row.length], List.getElem_mem hj, ?_⟩
  rw [h.heightOf_eq hfilled, ne_eq, h.length_column_iff hj]
  exact fun hall => Nat.lt_irrefl _ (hall row hrow)

section Rectangular

variable {width : Nat} (hequal : ∀ row ∈ rows, row.length = width)
include hequal

theorem length_eq (h : Transposes rows columns) (hrows : rows ≠ []) : columns.length = width := by
  obtain ⟨row, hrow⟩ := List.exists_mem_of_ne_nil rows hrows
  refine Nat.le_antisymm ((h.width width).mpr fun row hrow => Nat.le_of_eq (hequal row hrow)) ?_
  rw [← hequal row hrow]
  exact (h.width columns.length).mp (Nat.le_refl _) row hrow

theorem rectangular (h : Transposes rows columns) (hfilled : ∀ row ∈ rows, row ≠ []) :
    ∀ column ∈ columns, column.length = heightOf columns := by
  intro column hcolumn
  obtain ⟨j, hj, rfl⟩ := List.mem_iff_getElem.mp hcolumn
  rw [h.heightOf_eq hfilled, h.length_column_iff hj]
  intro row hrow
  rw [← Nat.not_le, h.width] at hj
  rw [hequal row hrow, ← Nat.not_le]
  exact fun hle => hj fun row' hrow' => (hequal row' hrow').symm ▸ hle

/-- The numbers are where they were written. -/
theorem getElem?_column (h : Transposes rows columns) (i j : Nat) :
    columns[j]?.bind (·[i]?) = rows[i]?.bind (·[j]?) := by
  have hbind : columns[j]?.bind (·[i]?) = (columns[j]?.getD [])[i]? := by
    cases columns[j]? <;> rfl
  rw [hbind, h.column]
  clear h hbind
  induction rows generalizing i with
  | nil => rfl
  | cons row rest ih =>
    obtain ⟨hrow, hrest⟩ := List.forall_mem_cons.mp hequal
    by_cases hj : j < width
    · have hfirst : row[j]? = some row[j] := List.getElem?_eq_getElem (hrow ▸ hj)
      cases i with
      | zero => simp [hfirst]
      | succ i => simpa [hfirst] using ih hrest i
    · have hnone : ∀ r ∈ row :: rest, r[j]? = none := fun r hr =>
        List.getElem?_eq_none (by rw [hequal r hr]; omega)
      rw [List.filterMap_eq_nil_iff.mpr hnone]
      cases hr : (row :: rest)[i]? with
      | none => rfl
      | some r => exact (hnone r (List.mem_of_getElem? hr)).symm

end Rectangular

/-- Rows of one number each make a single column. -/
theorem column_zero (h : Transposes rows columns) (hone : ∀ row ∈ rows, row.length = 1) :
    columns[0]?.getD [] = rows.flatten := by
  rw [h.column]
  clear h
  induction rows with
  | nil => rfl
  | cons row rest ih =>
    obtain ⟨hrow, hrest⟩ := List.forall_mem_cons.mp hone
    obtain ⟨x, rfl⟩ := List.length_eq_one_iff.mp hrow
    simp [ih hrest]

end Transposes

/-! ## The value of some columns -/

theorem valueOfColumns_of_ragged {columns : List (List Float)} {column : List Float}
    (hmem : column ∈ columns) (hne : column.length ≠ heightOf columns) :
    valueOfColumns columns = .error (.reported .unequalRowLengths) := by
  have hany : (columns.any fun column => column.length ≠ heightOf columns) = true :=
    List.any_eq_true.mpr ⟨column, hmem, by simpa using hne⟩
  unfold valueOfColumns
  rw [if_pos hany]

theorem valueOfColumns_singleton (column : List Float) :
    valueOfColumns [column] = .ok (.vector column) := by
  simp [valueOfColumns, heightOf]

theorem valueOfColumns_of_rectangular {columns : List (List Float)}
    (h : ∀ column ∈ columns, column.length = heightOf columns) (hwidth : 2 ≤ columns.length) :
    valueOfColumns columns = .ok (.matrix ⟨columns, h⟩) := by
  have hany : (columns.any fun column => column.length ≠ heightOf columns) ≠ true := by
    simpa using h
  unfold valueOfColumns
  rw [if_neg hany]
  match columns with
  | [] | [_] => simp at hwidth
  | _ :: _ :: _ => rw [Value.ofColumns, Matrix.ofColumns?, dif_pos h]

/-- What a list of these rows of numbers, of which none is empty, comes to in an environment. -/
structure GridOutcome (rows : List (List Float)) (env : Environment)
    (outcome : EStateM.Result Failure Environment Value) : Prop where
  ragged : ∀ row ∈ rows, ∀ row' ∈ rows, row.length ≠ row'.length →
    outcome = .error (.reported .unequalRowLengths) env
  empty : rows = [] → outcome = .ok (.vector []) env
  /-- Rows of one number each make a vector. -/
  items : (∀ row ∈ rows, row.length = 1) → outcome = .ok (.vector rows.flatten) env
  /-- Longer rows make a matrix, also if there is only one. -/
  grid : ∀ width, 2 ≤ width → rows ≠ [] → (∀ row ∈ rows, row.length = width) →
    ∃ m : Matrix, outcome = .ok (.matrix m) env ∧ m.width = width ∧ m.height = rows.length ∧
      ∀ i j : Nat, m.columns[j]?.bind (·[i]?) = rows[i]?.bind (·[j]?)

theorem gridOutcome_of_transposes {rows columns : List (List Float)} (h : Transposes rows columns)
    (hfilled : ∀ row ∈ rows, row ≠ []) (env : Environment) :
    GridOutcome rows env ((ofExcept (valueOfColumns columns) : Eval Value) env) := by
  have hitems : (∀ row ∈ rows, row.length = 1) →
      valueOfColumns columns = .ok (.vector rows.flatten) := by
    intro hone
    have hfirst := h.column_zero hone
    have hsingle : columns.length ≤ 1 :=
      (h.width 1).mpr fun row hrow => Nat.le_of_eq (hone row hrow)
    match columns with
    | [] => rw [← hfirst]; rfl
    | [column] => rw [← hfirst, valueOfColumns_singleton]; rfl
    | _ :: _ :: _ => simp at hsingle
  constructor
  case ragged =>
    intro row hrow row' hrow' hne
    obtain ⟨column, hcolumn, hheight⟩ : ∃ column ∈ columns, column.length ≠ heightOf columns := by
      rcases Nat.lt_or_gt_of_ne hne with hlt | hgt
      · exact h.exists_ragged hfilled hrow hrow' hlt
      · exact h.exists_ragged hfilled hrow' hrow hgt
    rw [valueOfColumns_of_ragged hcolumn hheight]
    rfl
  case empty =>
    rintro rfl
    rw [hitems (List.forall_mem_nil _)]
    rfl
  case items =>
    intro hone
    rw [hitems hone]
    rfl
  case grid =>
    intro width hwidth hrows hequal
    have hcount := h.length_eq hequal hrows
    refine ⟨⟨columns, h.rectangular hequal hfilled⟩, ?_, hcount, h.heightOf_eq hfilled,
      h.getElem?_column hequal⟩
    rw [valueOfColumns_of_rectangular (h.rectangular hequal hfilled) (hcount ▸ hwidth)]
    rfl

/-! ## Elements -/

/-- The nodes come to these numbers, evaluated from left to right. -/
inductive Scalars (depth : Nat) :
    Environment → List Node → List Float → Environment → Prop
  | nil {env} : Scalars depth env [] [] env
  | cons {env env₁ env' node nodes x xs} : evalWithin depth node env = .ok (.scalar x) env₁ →
      Scalars depth env₁ nodes xs env' → Scalars depth env (node :: nodes) (x :: xs) env'

/-- The elements of a list: what is behind the bracket, without the separators. -/
def elementsOf (children : List Node) : List Node :=
  (children.drop 1).filter fun node => !node.isLeafOf .comma && !node.isLeafOf .semicolon

def filledRows (children : List Node) : List (List Node) :=
  (literalRows children).filter fun row => !row.isEmpty

theorem flatten_cutAt (kind : TokenKind) (nodes : List Node) :
    (cutAt kind nodes).flatten = nodes.filter fun node => !node.isLeafOf kind := by
  induction nodes with
  | nil => rfl
  | cons node rest ih =>
    rw [cutAt]
    split
    · next hcut => simpa [hcut] using ih
    · next hkeep =>
      split
      · next piece pieces heq => simpa [hkeep, heq] using ih
      · next heq => simpa [hkeep, heq] using ih

theorem flatten_literalRows (children : List Node) :
    (literalRows children).flatten = elementsOf children := by
  have hfilter : ∀ pieces : List (List Node),
      (pieces.map fun row => row.filter fun node => !node.isLeafOf .comma).flatten
        = pieces.flatten.filter fun node => !node.isLeafOf .comma := by
    intro pieces
    rw [List.filter_flatten]
  rw [literalRows, hfilter, flatten_cutAt, List.filter_filter, elementsOf]

namespace Scalars

variable {depth : Nat} {env env' : Environment} {nodes more : List Node} {xs : List Float}

theorem length_eq (h : Scalars depth env nodes xs env') : xs.length = nodes.length := by
  induction h with
  | nil => rfl
  | cons _ _ ih => rw [List.length_cons, List.length_cons, ih]

theorem split (h : Scalars depth env (nodes ++ more) xs env') : ∃ xs₁ xs₂ env₁, xs = xs₁ ++ xs₂ ∧
    Scalars depth env nodes xs₁ env₁ ∧ Scalars depth env₁ more xs₂ env' := by
  induction nodes generalizing env xs with
  | nil => exact ⟨[], xs, env, rfl, .nil, h⟩
  | cons node rest ih =>
    cases h with
    | cons hnode hrest =>
      obtain ⟨xs₁, xs₂, env₁, rfl, hfirst, hsecond⟩ := ih hrest
      exact ⟨_ :: xs₁, xs₂, env₁, rfl, .cons hnode hfirst, hsecond⟩

end Scalars

/-! ## Rows -/

section Rows

variable {depth : Nat} {columns : List (List Float)} {index : Nat} {env env₁ env₂ : Environment}

theorem evalRow_append {nodes more : List Node} {xs : List Float}
    (h : Scalars depth env nodes xs env₁) :
    evalRow (.framed depth) columns index ((nodes ++ more).map Node.meaning) env
      = evalRow (.framed depth) (addRow columns index xs) (index + xs.length)
          (more.map Node.meaning) env₁ := by
  induction h generalizing columns index with
  | nil => rfl
  | @cons env env₁ env' node nodes x xs hnode _ ih =>
    have hlength : index + (x :: xs).length = index + 1 + xs.length := by
      rw [List.length_cons]
      omega
    have hstep : evalRow (.framed depth) columns index ((node :: nodes ++ more).map Node.meaning)
        env = evalRow (.framed depth) (addElement columns index x) (index + 1)
            ((nodes ++ more).map Node.meaning) env₁ := by
      rw [List.cons_append, List.map_cons, evalRow]
      exact Eval.bind_of_ok hnode
    rw [hstep, ih, addRow, hlength]

theorem evalRow_eq_ok {nodes : List Node} {xs : List Float} (h : Scalars depth env nodes xs env₁) :
    evalRow (.framed depth) columns index (nodes.map Node.meaning) env
      = .ok (addRow columns index xs) env₁ := by
  have happend := @evalRow_append _ columns index _ _ _ [] _ h
  rwa [List.append_nil] at happend

/-- Rows of elements with a value are added to the columns, those without elements apart. -/
theorem exists_of_evalRows {rows : List (List Node)} {before : List (List Float)}
    (hbefore : Transposes before columns) {xs : List Float} {env' : Environment}
    (h : Scalars depth env rows.flatten xs env') :
    ∃ grid columns', grid.flatten = xs ∧
      grid.map List.length = (rows.filter fun row => !row.isEmpty).map List.length ∧
      evalRows (.framed depth) columns (rows.map (·.map Node.meaning)) env = .ok columns' env' ∧
      Transposes (before ++ grid) columns' := by
  induction rows generalizing before columns env xs with
  | nil =>
    cases h
    exact ⟨[], columns, rfl, rfl, rfl, by rwa [List.append_nil]⟩
  | cons row rest ih =>
    obtain ⟨xs₁, xs₂, env₁, rfl, hrow, hrest⟩ := h.split
    rw [List.map_cons, evalRows, Eval.bind_of_ok (evalRow_eq_ok hrow)]
    cases row with
    | nil =>
      cases hrow
      exact ih hbefore hrest
    | cons node nodes =>
      obtain ⟨grid, columns', hflatten, hlengths, heval, htransposes⟩ :=
        ih (hbefore.addRow xs₁) hrest
      refine ⟨xs₁ :: grid, columns', ?_, ?_, heval, ?_⟩
      · rw [List.flatten_cons, hflatten]
      · simp [hlengths, hrow.length_eq]
      · rwa [List.append_assoc] at htransposes

/-- The first element that comes to no number is what the rows come to. -/
theorem evalRows_eq_error {rows : List (List Node)} {before behind : List Node} {e : Node}
    {xs : List Float} {failure : Failure} (hrows : rows.flatten = before ++ e :: behind)
    (hbefore : Scalars depth env before xs env₁)
    (he : (evalWithin depth e >>= elementOf) env₁ = .error failure env₂) :
    evalRows (.framed depth) columns (rows.map (·.map Node.meaning)) env = .error failure env₂ := by
  induction rows generalizing before columns env xs with
  | nil => simp at hrows
  | cons row rest ih =>
    have hlater : ∀ {nodes}, before = row ++ nodes → rest.flatten = nodes ++ e :: behind →
        evalRows (.framed depth) columns ((row :: rest).map (·.map Node.meaning)) env
          = .error failure env₂ := by
      rintro nodes rfl hflatten
      obtain ⟨xs₁, xs₂, env', rfl, hrow, hnodes⟩ := hbefore.split
      rw [List.map_cons, evalRows, Eval.bind_of_ok (evalRow_eq_ok hrow)]
      exact ih hflatten hnodes
    rcases List.append_eq_append_iff.mp hrows with ⟨nodes, hnodes, hflatten⟩ | ⟨nodes, hrow, hnodes⟩
    · exact hlater hnodes hflatten
    · cases nodes with
      | nil =>
        rw [List.append_nil] at hrow
        exact @hlater [] (by rw [hrow, List.append_nil]) hnodes.symm
      | cons node nodes =>
        obtain ⟨rfl, -⟩ := List.cons.inj hnodes
        have hstop : evalRow (.framed depth) columns 0 (row.map Node.meaning) env
            = .error failure env₂ := by
          rw [hrow, evalRow_append hbefore, List.map_cons, evalRow, ← bind_assoc]
          exact Eval.bind_of_error he
        rw [List.map_cons, evalRows]
        exact Eval.bind_of_error hstop

end Rows

/-! ## Lists -/

/-- **A list is the grid that it writes.** If the elements of a list come to numbers, from left to
right, the list comes to what its rows of numbers make, rows without elements apart. Otherwise the
first element that does not come to a number decides: it is reported if it has a value, or else
its own failure is that of the list, and nothing behind it is evaluated. -/
theorem evalWithin_list {children : List Node} (hlit : Node.isLiteral children = true)
    (depth : Nat) (env : Environment) :
    (∀ xs env', Scalars depth env (elementsOf children) xs env' →
      ∃ grid, grid.flatten = xs ∧
        grid.map List.length = (filledRows children).map List.length ∧
        GridOutcome grid env' (evalWithin depth (.group children) env)) ∧
    (∀ before e behind xs env₁, elementsOf children = before ++ e :: behind →
      Scalars depth env before xs env₁ →
        (∀ v env₂, evalWithin depth e env₁ = .ok v env₂ → (∀ x, v ≠ .scalar x) →
          evalWithin depth (.group children) env
            = .error (.reported (.invalidVectorContents (v.display env₂.cap))) env₂) ∧
        ∀ failure env₂, evalWithin depth e env₁ = .error failure env₂ →
          evalWithin depth (.group children) env = .error failure env₂) := by
  have hlist : evalWithin depth (.group children) env
      = (evalRows (.framed depth) [] ((literalRows children).map (·.map Node.meaning)) >>=
          fun columns => ofExcept (valueOfColumns columns)) env := by
    rw [evalWithin, Node.meaning_literal hlit, Expr.eval]
  simp only [← flatten_literalRows, hlist]
  constructor
  · intro xs env' hxs
    obtain ⟨grid, columns, hflatten, hlengths, heval, htransposes⟩ :=
      exists_of_evalRows .nil hxs
    refine ⟨grid, hflatten, hlengths, ?_⟩
    rw [Eval.bind_of_ok heval]
    refine gridOutcome_of_transposes htransposes (fun row hrow => ?_) env'
    have hlength := hlengths ▸ List.mem_map_of_mem (f := List.length) hrow
    obtain ⟨nodes, hnodes, hequal⟩ := List.mem_map.mp hlength
    rintro rfl
    rw [List.length_nil, List.length_eq_zero_iff] at hequal
    simp [hequal] at hnodes
  · intro before e behind xs env₁ hrows hbefore
    constructor
    · intro v env₂ he hv
      refine Eval.bind_of_error (evalRows_eq_error hrows hbefore ?_)
      rw [Eval.bind_of_ok he]
      cases v with
      | scalar x => exact absurd rfl (hv x)
      | vector | matrix => rfl
    · intro failure env₂ he
      exact Eval.bind_of_error (evalRows_eq_error hrows hbefore (Eval.bind_of_error he))

/-- The rows of `[;pi,e;;pi]` have different lengths. In `[pi,[];pi,e]` the empty list is reported
instead: it is an element that is no scalar. -/
theorem evalWithin_list_of_constants :
    let leaf := fun (kind : TokenKind) (text : String) => Node.leaf ⟨kind, text, 0, 0⟩
    let opener := leaf .leftBracket "["
    let comma := leaf .comma ","
    let semicolon := leaf .semicolon ";"
    let ragged := [opener, semicolon, leaf .name "pi", comma, leaf .name "e", semicolon, semicolon,
      leaf .name "pi"]
    let nested := [opener, leaf .name "pi", comma, .group [opener], semicolon, leaf .name "pi",
      comma, leaf .name "e"]
    evalWithin 0 (.group ragged) .standard = .error (.reported .unequalRowLengths) .standard ∧
      evalWithin 0 (.group nested) .standard
        = .error (.reported (.invalidVectorContents "[]")) .standard := by
  intro leaf opener comma semicolon ragged nested
  have hpi : evalWithin 0 (leaf .name "pi") .standard = .ok (.scalar pi) .standard := by
    rw [evalWithin, Node.meaning, if_neg (by decide)]
    rfl
  have he : evalWithin 0 (leaf .name "e") .standard = .ok (.scalar euler) .standard := by
    rw [evalWithin, Node.meaning, if_neg (by decide)]
    rfl
  have hnone : evalWithin 0 (.group [opener]) .standard = .ok (.vector []) .standard := by
    rw [evalWithin, Node.meaning_literal rfl]
    rfl
  constructor
  · obtain ⟨grid, -, hlengths, houtcome⟩ := (@evalWithin_list ragged rfl 0 .standard).1
      [pi, euler, pi] .standard (.cons hpi (.cons he (.cons hpi .nil)))
    have hlengths : grid.map List.length = [2, 1] := hlengths
    have hrow : ∀ n ∈ [2, 1], ∃ row ∈ grid, row.length = n := by
      intro n hn
      exact List.mem_map.mp (hlengths ▸ hn)
    obtain ⟨row, hmem, hlength⟩ := hrow 2 (by simp)
    obtain ⟨row', hmem', hlength'⟩ := hrow 1 (by simp)
    exact houtcome.ragged row hmem row' hmem' (by omega)
  · have hstop := (@evalWithin_list nested rfl 0 .standard).2 [leaf .name "pi"] (.group [opener])
      [leaf .name "pi", leaf .name "e"] [pi] .standard rfl (.cons hpi .nil)
    exact hstop.1 _ _ hnone fun x => by simp

end Reckoner
