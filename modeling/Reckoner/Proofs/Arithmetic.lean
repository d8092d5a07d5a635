import Reckoner.Operation

/-!
# The table of arithmetic

What the operators compute is listed by the kinds and the sizes of their operands (`Entrywise`,
`Product`), down to every entry of a result. This is the whole table: an operator has a value
exactly where it has a line, and everything else is refused (`operate_table`). Nothing but a scalar
is ever stretched, since a line for vectors or matrices asks for sizes that fit.

The operators compute on rows written one after the other, whereas a matrix is kept by columns.
Both are read here from a function of row and column: `gridOf` is the rows of a grid, a matrix is
made from the grid of its columns (`Matrix.build`), and `Tensor.ofGrid` is the tensor of a grid. The
operations on tensors are then operations on such functions, whatever the sizes, zero included.
-/

namespace Reckoner

/-! ## Grids -/

/-- The rows of a grid with these entries by row and column. -/
def gridOf (height width : Nat) (entry : Nat → Nat → Float) : List (List Float) :=
  (List.range height).map fun i => (List.range width).map (entry i)

section Grids

variable {height width : Nat} {entry : Nat → Nat → Float}

theorem length_of_mem_gridOf {row : List Float} (h : row ∈ gridOf height width entry) :
    row.length = width := by
  obtain ⟨i, -, rfl⟩ := List.mem_map.mp h
  rw [List.length_map, List.length_range]

@[simp] theorem length_gridOf : (gridOf height width entry).length = height := by
  rw [gridOf, List.length_map, List.length_range]

/-- The columns of a grid are the rows of the grid with row and column exchanged. -/
theorem transposed_gridOf :
    transposed width (gridOf height width entry) = gridOf width height fun j i => entry i j := by
  refine List.map_congr_left fun j hj => ?_
  have hj := List.mem_range.mp hj
  rw [gridOf, List.map_map]
  refine List.map_congr_left fun i _ => ?_
  simp [hj]

theorem splitRows_succ (entries : List Float) :
    splitRows (height + 1) width entries
      = entries.take width :: splitRows height width (entries.drop width) := by
  simp only [splitRows, List.range_succ_eq_map, List.map_cons, Nat.zero_mul, List.drop_zero,
    List.map_map, List.drop_drop]
  congr 1
  refine List.map_congr_left fun i _ => ?_
  rw [Function.comp_apply, Nat.succ_mul, Nat.add_comm]

/-- Rows of one length are found again when they have been written one after the other. -/
theorem splitRows_flatten {rows : List (List Float)} (h : ∀ row ∈ rows, row.length = width) :
    splitRows rows.length width rows.flatten = rows := by
  induction rows with
  | nil => rfl
  | cons row rest ih =>
    obtain ⟨rfl, hrest⟩ := List.forall_mem_cons.mp h
    rw [List.length_cons, List.flatten_cons, splitRows_succ, List.take_left, List.drop_left,
      ih hrest]

theorem splitRows_gridOf :
    splitRows height width (gridOf height width entry).flatten = gridOf height width entry := by
  have hsplit := splitRows_flatten fun row => @length_of_mem_gridOf height width entry row
  rwa [length_gridOf] at hsplit

theorem map_flatten_gridOf (g : Float → Float) :
    (gridOf height width entry).flatten.map g
      = (gridOf height width fun i j => g (entry i j)).flatten := by
  rw [List.map_flatten, gridOf, gridOf, List.map_map]
  congr 1
  refine List.map_congr_left fun i _ => ?_
  rw [Function.comp_apply, List.map_map]
  rfl

theorem zipWith_flatten_gridOf (f : Float → Float → Float) {entry' : Nat → Nat → Float} :
    List.zipWith f (gridOf height width entry).flatten (gridOf height width entry').flatten
      = (gridOf height width fun i j => f (entry i j) (entry' i j)).flatten := by
  unfold gridOf
  induction List.range height with
  | nil => rfl
  | cons i rest ih =>
    simp only [List.map_cons, List.flatten_cons]
    rw [List.zipWith_append (by simp), ih, List.zipWith_map, List.zipWith_self]

end Grids

/-- The values of a function on a list are its values at the places of the list. -/
theorem map_eq_map_range {α β : Type} (f : α → β) (xs : List α) (default : α) :
    xs.map f = (List.range xs.length).map fun i => f (xs.getD i default) := by
  refine List.ext_getElem (by simp) fun i hi hi' => ?_
  have hlt : i < xs.length := by simpa using hi
  simp [hlt]

/-! ## Matrices and tensors -/

namespace Matrix

def entryAt (m : Matrix) (i j : Nat) : Float :=
  (m.columns.getD j []).getD i 0

def build (height width : Nat) (entry : Nat → Nat → Float) : Matrix where
  columns := gridOf width height fun j i => entry i j
  rectangular := rectangular_of_length_eq fun _ => length_of_mem_gridOf

theorem rows_eq (m : Matrix) : m.rows = gridOf m.height m.width m.entryAt :=
  List.map_congr_left fun i _ => map_eq_map_range (·.getD i 0) m.columns []

end Matrix

namespace Tensor

def ofGrid (height width : Nat) (entry : Nat → Nat → Float) : Tensor where
  shape := [height, width]
  entries := (gridOf height width entry).flatten
  length_entries := by
    rw [length_flatten_of_length_eq fun _ => length_of_mem_gridOf, length_gridOf]
    simp [entryCount]

variable {height inner width : Nat} {entry entry' : Nat → Nat → Float}

theorem eq_of_entries {a b : Tensor} (hshape : a.shape = b.shape) (h : a.entries = b.entries) :
    a = b := by
  cases a
  cases b
  simp_all

theorem toTensor_matrix (m : Matrix) :
    (Value.matrix m).toTensor = ofGrid m.height m.width m.entryAt := by
  refine eq_of_entries ?_ (congrArg List.flatten m.rows_eq)
  show [m.rows.length, m.width] = [m.height, m.width]
  rw [m.length_rows]

theorem splitRows_ofGrid :
    splitRows height width (ofGrid height width entry).entries = gridOf height width entry :=
  splitRows_gridOf

theorem toValue?_ofItems (items : List Float) : (ofItems items).toValue? = some (.vector items) :=
  rfl

theorem toValue?_ofGrid :
    (ofGrid height width entry).toValue? = some (.matrix (.build height width entry)) := by
  simp only [toValue?, ofGrid, splitRows_gridOf, transposed_gridOf, Matrix.build]

theorem map_ofGrid (g : Float → Float) :
    (ofGrid height width entry).map g = ofGrid height width fun i j => g (entry i j) := by
  simp only [map, ofGrid, map_flatten_gridOf]

theorem pointwise_ofGrid (f : Float → Float → Float) :
    pointwise f (ofGrid height width entry) (ofGrid height width entry')
      = .ok (ofGrid height width fun i j => f (entry i j) (entry' i j)) := by
  simp [pointwise, ofGrid, zipWith_flatten_gridOf]

theorem total_map_range (term : Nat → Float) :
    total ((List.range inner).map term)
      = if inner = 1 then term 0 else (List.range inner).foldl (fun sum t => sum + term t) 0 := by
  split
  · next hone => rw [hone]; rfl
  · next hmany =>
    rw [← List.foldl_map]
    unfold total
    split
    · next hsingle => exact absurd (by simpa using congrArg List.length hsingle) hmany
    · rfl

/-- The sum of the products of numbers at the same places. -/
theorem dot_map_range (a b : Nat → Float) :
    dot ((List.range inner).map a) ((List.range inner).map b)
      = if inner = 1 then a 0 * b 0
        else (List.range inner).foldl (fun sum t => sum + a t * b t) 0 := by
  rw [dot, List.zipWith_map, List.zipWith_self, total_map_range]

theorem product_ofItems {ys : List Float} (h : width = ys.length) :
    product (ofGrid height width entry) (ofItems ys)
      = .ok (ofItems ((List.range height).map fun i =>
          if width = 1 then entry i 0 * ys.getD 0 0
          else (List.range width).foldl (fun sum t => sum + entry i t * ys.getD t 0) 0)) := by
  subst h
  have hitems : ys = (List.range ys.length).map (ys.getD · 0) := by
    simpa using map_eq_map_range id ys 0
  have hrow : ∀ i, dot ((List.range ys.length).map (entry i)) ys
      = if ys.length = 1 then entry i 0 * ys.getD 0 0
        else (List.range ys.length).foldl (fun sum t => sum + entry i t * ys.getD t 0) 0 := by
    intro i
    rw [← dot_map_range (entry i) (ys.getD · 0), ← hitems]
  refine (if_pos rfl).trans (congrArg (fun items => Except.ok (ofItems items)) ?_)
  rw [splitRows_ofGrid, gridOf, List.map_map]
  exact List.map_congr_left fun i _ => hrow i

theorem product_ofGrid :
    product (ofGrid height inner entry) (ofGrid inner width entry')
      = .ok (ofGrid height width fun i j =>
          if inner = 1 then entry i 0 * entry' 0 j
          else (List.range inner).foldl (fun sum t => sum + entry i t * entry' t j) 0) := by
  have hrows : ((splitRows height inner (ofGrid height inner entry).entries).map fun row =>
      (transposed width (splitRows inner width (ofGrid inner width entry').entries)).map (dot row))
      = gridOf height width fun i j =>
          if inner = 1 then entry i 0 * entry' 0 j
          else (List.range inner).foldl (fun sum t => sum + entry i t * entry' t j) 0 := by
    rw [splitRows_ofGrid, splitRows_ofGrid, transposed_gridOf]
    simp only [gridOf, List.map_map, Function.comp_def, dot_map_range]
  refine (if_pos rfl).trans (congrArg Except.ok (eq_of_entries ?_ (congrArg List.flatten hrows)))
  show [List.length _, width] = [height, width]
  rw [hrows, length_gridOf]

end Tensor

/-! ## Combinations of values -/

def Value.map (g : Float → Float) : Value → Value
  | .scalar x => .scalar (g x)
  | .vector items => .vector (items.map g)
  | .matrix m => .matrix (.build m.height m.width fun i j => g (m.entryAt i j))

/-- Two values of one kind and one size, combined number by number. -/
inductive Entrywise (f : Float → Float → Float) : Value → Value → Value → Prop
  | scalars (x y : Float) : Entrywise f (.scalar x) (.scalar y) (.scalar (f x y))
  | vectors {xs ys : List Float} : xs.length = ys.length →
      Entrywise f (.vector xs) (.vector ys) (.vector (List.zipWith f xs ys))
  | matrices {m n : Matrix} : m.width = n.width → m.height = n.height →
      Entrywise f (.matrix m) (.matrix n)
        (.matrix (.build m.height m.width fun i j => f (m.entryAt i j) (n.entryAt i j)))

/-- The products of values: a scalar scales anything, and a matrix is applied to a vector of as many
items as it has columns, or to the columns of a matrix that is as high as it is wide. An entry of
the result is the sum of its products from left to right, from zero on; one product alone is not
added to anything, so that a negative zero keeps its sign. -/
inductive Product : Value → Value → Value → Prop
  | ofScalar (x : Float) (r : Value) : Product (.scalar x) r (r.map (x * ·))
  | byScalar (l : Value) (y : Float) : Product l (.scalar y) (l.map (· * y))
  | vector {m : Matrix} {ys : List Float} : m.width = ys.length →
      Product (.matrix m) (.vector ys) (.vector ((List.range m.height).map fun i =>
        if m.width = 1 then m.entryAt i 0 * ys.getD 0 0
        else (List.range m.width).foldl (fun sum t => sum + m.entryAt i t * ys.getD t 0) 0))
  | matrix {m n : Matrix} : m.width = n.height →
      Product (.matrix m) (.matrix n) (.matrix (.build m.height n.width fun i j =>
        if m.width = 1 then m.entryAt i 0 * n.entryAt 0 j
        else (List.range m.width).foldl (fun sum t => sum + m.entryAt i t * n.entryAt t j) 0))

theorem onTensors_eq_ok {f : Tensor → Tensor → Except ShapeMismatch Tensor} {l r v : Value}
    {t : Tensor} (ht : f l.toTensor r.toTensor = .ok t) (hv : t.toValue? = some v) :
    onTensors f l r = .ok v := by
  simp only [onTensors, ht, hv]

section Tensors

variable (f : Float → Float → Float)

theorem onTensors_ofScalar (x : Float) (r : Value) :
    onTensors (Tensor.pointwise f) (.scalar x) r = .ok (r.map (f x ·)) := by
  cases r with
  | scalar y => rfl
  | vector ys => rfl
  | matrix n =>
    refine onTensors_eq_ok ?_ Tensor.toValue?_ofGrid
    rw [Tensor.toTensor_matrix]
    exact congrArg Except.ok (Tensor.map_ofGrid (f x))

theorem onTensors_byScalar (l : Value) (y : Float) :
    onTensors (Tensor.pointwise f) l (.scalar y) = .ok (l.map (f · y)) := by
  cases l with
  | scalar x => rfl
  | vector xs => rfl
  | matrix m =>
    refine onTensors_eq_ok ?_ Tensor.toValue?_ofGrid
    rw [Tensor.toTensor_matrix]
    exact congrArg Except.ok (Tensor.map_ofGrid (f · y))

theorem onTensors_vectors {xs ys : List Float} (h : xs.length = ys.length) :
    onTensors (Tensor.pointwise f) (.vector xs) (.vector ys)
      = .ok (.vector (List.zipWith f xs ys)) := by
  have hpointwise : Tensor.pointwise f (.ofItems xs) (.ofItems ys)
      = .ok (.ofItems (List.zipWith f xs ys)) := by
    have hshape : (Tensor.ofItems xs).shape = (Tensor.ofItems ys).shape :=
      congrArg (fun n => [n]) h
    rw [Tensor.pointwise, dif_pos hshape]
    refine congrArg Except.ok (Tensor.eq_of_entries ?_ rfl)
    simp [Tensor.ofItems, h]
  exact onTensors_eq_ok hpointwise (Tensor.toValue?_ofItems _)

theorem onTensors_matrices {m n : Matrix} (hwidth : m.width = n.width)
    (hheight : m.height = n.height) :
    onTensors (Tensor.pointwise f) (.matrix m) (.matrix n)
      = .ok (.matrix (.build m.height m.width fun i j => f (m.entryAt i j) (n.entryAt i j))) := by
  refine onTensors_eq_ok ?_ Tensor.toValue?_ofGrid
  rw [Tensor.toTensor_matrix, Tensor.toTensor_matrix, ← hwidth, ← hheight]
  exact Tensor.pointwise_ofGrid f

end Tensors

/-! ## The table -/

/-- A result that a line of the table gives, or a refusal if there is none. -/
structure Tabulated (line : Value → Prop) (result : Except Failure Value) : Prop where
  value : ∀ v, result = .ok v ↔ line v
  refused : (∃ v, result = .ok v) ∨
    ∃ reason, result = .error (.reported (.invalidOperation reason))

theorem Tabulated.ok {line : Value → Prop} {result : Except Failure Value} {v : Value}
    (h : result = .ok v) (hline : line v) (hunique : ∀ w, line w → w = v) :
    Tabulated line result where
  value w := by
    rw [h]
    exact ⟨fun heq => Except.ok.inj heq ▸ hline, fun hw => congrArg Except.ok (hunique w hw).symm⟩
  refused := .inl ⟨v, h⟩

theorem Tabulated.refuse {line : Value → Prop} (reason : InvalidOperation)
    (hnone : ∀ v, ¬line v) : Tabulated line (Reckoner.refuse reason) where
  value v := ⟨fun heq => (by cases heq), fun hv => absurd hv (hnone v)⟩
  refused := .inr ⟨reason, rfl⟩

theorem tabulated_entrywise (f : Float → Float → Float) (action op : String) (l r : Value) :
    Tabulated (Entrywise f l r) (entrywise f action op l r) := by
  unfold entrywise
  split
  · next x y =>
    exact .ok (onTensors_ofScalar f x (.scalar y)) (.scalars x y) fun w hw => by cases hw; rfl
  · next xs ys =>
    split
    · next h =>
      exact .ok (onTensors_vectors f h) (.vectors h) fun w hw => by cases hw; rfl
    · next h => exact .refuse _ fun w hw => by cases hw; contradiction
  · next m n =>
    split
    · next h =>
      exact .ok (onTensors_matrices f h.1 h.2) (.matrices h.1 h.2) fun w hw => by cases hw; rfl
    · next h =>
      refine .refuse _ fun w hw => ?_
      cases hw with
      | matrices hwidth hheight => exact h ⟨hwidth, hheight⟩
  · next hscalars hvectors hmatrices =>
    refine .refuse _ fun w hw => ?_
    cases hw with
    | scalars x y => exact hscalars x y rfl rfl
    | vectors _ => exact hvectors _ _ rfl rfl
    | matrices _ _ => exact hmatrices _ _ rfl rfl

theorem tabulated_multiply (l r : Value) : Tabulated (Product l r) (multiply l r) := by
  match l, r with
  | .scalar x, r =>
    refine .ok (onTensors_ofScalar _ x r) (.ofScalar x r) fun w hw => ?_
    cases hw <;> rfl
  | .vector xs, .scalar y =>
    exact .ok (onTensors_byScalar _ (.vector xs) y) (.byScalar _ y) fun w hw => by cases hw; rfl
  | .matrix m, .scalar y =>
    exact .ok (onTensors_byScalar _ (.matrix m) y) (.byScalar _ y) fun w hw => by cases hw; rfl
  | .matrix m, .vector ys =>
    by_cases h : m.width = ys.length
    · refine .ok ((if_pos h).trans (onTensors_eq_ok ?_ (Tensor.toValue?_ofItems _))) (.vector h)
        fun w hw => by cases hw; rfl
      rw [Tensor.toTensor_matrix]
      exact Tensor.product_ofItems h
    · rw [multiply, if_neg h]
      exact .refuse _ fun w hw => by cases hw; contradiction
  | .matrix m, .matrix n =>
    by_cases h : m.width = n.height
    · refine .ok ((if_pos h).trans (onTensors_eq_ok ?_ Tensor.toValue?_ofGrid)) (.matrix h)
        fun w hw => by cases hw; rfl
      rw [Tensor.toTensor_matrix, Tensor.toTensor_matrix, ← h]
      exact Tensor.product_ofGrid
    · rw [multiply, if_neg h]
      exact .refuse _ fun w hw => by cases hw; contradiction
  | .vector xs, .vector ys => exact .refuse _ fun w hw => by cases hw
  | .vector xs, .matrix n => exact .refuse _ fun w hw => by cases hw

theorem tabulated_divide (l r : Value) :
    Tabulated (fun v => ∃ y, r = .scalar y ∧ v = l.map (· / y)) (divide l r) := by
  cases r with
  | scalar y =>
    refine .ok (onTensors_byScalar _ l y) ⟨y, rfl, rfl⟩ ?_
    rintro w ⟨y', heq, rfl⟩
    rw [Value.scalar.inj heq]
  | vector | matrix =>
    refine .refuse _ ?_
    rintro w ⟨y, heq, -⟩
    cases heq

theorem tabulated_raise (l r : Value) :
    Tabulated (fun v => ∃ x y, l = .scalar x ∧ r = .scalar y ∧ v = .scalar (x.pow y))
      (raise l r) := by
  match l, r with
  | .scalar x, .scalar y =>
    refine .ok rfl ⟨x, y, rfl, rfl, rfl⟩ ?_
    rintro w ⟨x', y', hx, hy, rfl⟩
    rw [Value.scalar.inj hx, Value.scalar.inj hy]
    rfl
  | .vector _, _ | .matrix _, _ =>
    refine .refuse _ ?_
    rintro w ⟨x, y, hx, -⟩
    cases hx
  | .scalar _, .vector _ | .scalar _, .matrix _ =>
    refine .refuse _ ?_
    rintro w ⟨x, y, -, hy, -⟩
    cases hy

/-- **The operators follow their table.** Sums and differences are taken of values of one kind and
size, number by number; products scale by a scalar or multiply a matrix into what is as high as it
is wide; quotients divide by a scalar and powers are powers of scalars. There is a value for these
operands and no others: the others are refused, whole quotients are reserved, and no other text is
an operator. -/
theorem operate_table (op : String) (l r : Value) :
    (∀ v, operate "+" l r = .ok v ↔ Entrywise (· + ·) l r v) ∧
    (∀ v, operate "-" l r = .ok v ↔ Entrywise (· - ·) l r v) ∧
    (∀ v, operate "*" l r = .ok v ↔ Product l r v) ∧
    (∀ v, operate "/" l r = .ok v ↔ ∃ y, r = .scalar y ∧ v = l.map (· / y)) ∧
    (∀ v, operate "^" l r = .ok v ↔
      ∃ x y, l = .scalar x ∧ r = .scalar y ∧ v = .scalar (x.pow y)) ∧
    (op ∈ ["+", "-", "*", "/", "^"] → (∃ v, operate op l r = .ok v) ∨
      ∃ reason, operate op l r = .error (.reported (.invalidOperation reason))) ∧
    operate "//" l r = .error (.reported (.reservedOperator "//")) ∧
    (op ∉ ["+", "-", "*", "/", "^", "//"] →
      operate op l r = .error (.reported (.unknownOperator op))) := by
  have hsum := tabulated_entrywise (· + ·) "adding" "+" l r
  have hdifference := tabulated_entrywise (· - ·) "subtracting" "-" l r
  have hproduct := tabulated_multiply l r
  have hquotient := tabulated_divide l r
  have hpower := tabulated_raise l r
  refine ⟨hsum.value, hdifference.value, hproduct.value, hquotient.value, hpower.value,
    fun hop => ?_, rfl, fun hop => ?_⟩
  · simp only [List.mem_cons, List.not_mem_nil, or_false] at hop
    rcases hop with rfl | rfl | rfl | rfl | rfl
    · exact hsum.refused
    · exact hdifference.refused
    · exact hproduct.refused
    · exact hquotient.refused
    · exact hpower.refused
  · have hnone : Operator.ofText? op = none := by
      unfold Operator.ofText?
      split <;> simp_all
    rw [operate, hnone]

end Reckoner
