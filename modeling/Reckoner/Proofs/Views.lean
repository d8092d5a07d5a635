import Reckoner.Proofs.Arithmetic
import Reckoner.Proofs.Operations
import Reckoner.Value.Datum

/-!
# Values, tensors and nested lists

The numbers of a value can be looked at in several ways: a matrix by its columns, by its rows and
entry by entry, a value as a tensor, and a tensor as nested lists of numbers. A tensor is read here
by index (`Tensor.at?`), its axes are reversed (`Tensor.transpose`), it is given another shape
(`Tensor.reshape?`), and it is written as nested lists (`Tensor.nested`), at any rank.

A matrix comes to its tensor through nested lists of columns, and back through those of the
transposed tensor. Nested lists do not tell how long the lists of an empty list would have been, so
the shape has to be given again on the way there (`Matrix.exists_stack`, `Value.assemble?_eq`).
Everything is read off grids: the columns of a matrix are one (`Matrix.columns_eq`), and so is every
tensor of rank two (`Tensor.exists_ofGrid`). The main statement is `views_agree`.
-/

namespace Reckoner

/-! ## Grids and their rows -/

section Rows

variable {height width : Nat} {entry entry' : Nat → Nat → Float}

/-- Rows of one length are a grid. -/
theorem eq_gridOf {rows : List (List Float)} (h : ∀ row ∈ rows, row.length = width) :
    rows = gridOf rows.length width fun i j => (rows.getD i []).getD j 0 := by
  have hrows : rows = (List.range rows.length).map fun i => rows.getD i [] := by
    simpa using map_eq_map_range id rows []
  refine hrows.trans (List.map_congr_left fun i hi => ?_)
  have hi : i < rows.length := List.mem_range.mp hi
  have hlength : (rows.getD i []).length = width := by
    rw [List.getD_eq_getElem?_getD, List.getElem?_eq_getElem hi, Option.getD_some]
    exact h _ (List.getElem_mem hi)
  rw [← hlength]
  simpa using map_eq_map_range id (rows.getD i []) 0

theorem gridOf_congr (h : ∀ i < height, ∀ j < width, entry i j = entry' i j) :
    gridOf height width entry = gridOf height width entry' :=
  List.map_congr_left fun i hi => List.map_congr_left fun j hj =>
    h i (List.mem_range.mp hi) j (List.mem_range.mp hj)

theorem getElem?_gridOf {i j : Nat} (hi : i < height) (hj : j < width) :
    (gridOf height width entry)[i]?.bind (·[j]?) = some (entry i j) := by
  simp [gridOf, hi, hj]

theorem getElem?_flatten_gridOf {i j : Nat} (hi : i < height) (hj : j < width) :
    (gridOf height width entry).flatten[i * width + j]? = some (entry i j) := by
  have hsplit := congrArg (fun rows => rows[i]?.bind (·[j]?)) (@splitRows_gridOf height width entry)
  simpa only [getElem?_gridOf hi hj, splitRows, List.getElem?_map, List.getElem?_range hi,
    Option.map_some, Option.bind_some, List.getElem?_take_of_lt hj, List.getElem?_drop] using hsplit

/-- Entries that are cut into rows are the rows written one after the other. -/
theorem flatten_splitRows {entries : List Float} (h : entries.length = height * width) :
    (splitRows height width entries).flatten = entries := by
  induction height generalizing entries with
  | zero =>
    rw [Nat.zero_mul] at h
    rw [List.eq_nil_of_length_eq_zero h]
    rfl
  | succ height ih =>
    have hrest : (entries.drop width).length = height * width := by
      rw [List.length_drop, h, Nat.succ_mul, Nat.add_sub_cancel]
    rw [splitRows_succ, List.flatten_cons, ih hrest, List.take_append_drop]

theorem length_of_mem_splitRows {entries : List Float} (h : entries.length = height * width)
    {row : List Float} (hrow : row ∈ splitRows height width entries) : row.length = width := by
  obtain ⟨i, hi, rfl⟩ := List.mem_map.mp hrow
  have hi : i + 1 ≤ height := List.mem_range.mp hi
  have hend : i * width + width ≤ entries.length := by
    rw [h, ← Nat.succ_mul]
    exact Nat.mul_le_mul_right width hi
  rw [List.length_take, List.length_drop]
  omega

end Rows

/-! ## Tensors by index -/

namespace Tensor

/-- The place of an index among the entries of a shape, if it is an index of that shape. -/
def offset? : List Nat → List Nat → Option Nat
  | [], [] => some 0
  | size :: shape, i :: index =>
    if i < size then (offset? shape index).map (i * entryCount shape + ·) else none
  | _, _ => none

/-- The entry at an index, which has one number for each axis. -/
def at? (t : Tensor) (index : List Nat) : Option Float :=
  (offset? t.shape index).bind (t.entries[·]?)

/-- The indices of a shape, in the order of the entries. -/
def indices : List Nat → List (List Nat)
  | [] => [[]]
  | size :: shape => (List.range size).flatMap fun i => (indices shape).map (i :: ·)

theorem length_indices (shape : List Nat) : (indices shape).length = entryCount shape := by
  induction shape with
  | nil => rfl
  | cons size shape ih =>
    simp only [indices, List.length_flatMap, List.length_map, ih, List.map_const',
      List.length_range, List.sum_replicate_nat]
    rfl

/-- The tensor with its axes in the opposite order. -/
def transpose (t : Tensor) : Tensor where
  shape := t.shape.reverse
  entries := (indices t.shape.reverse).map fun index => (t.at? index.reverse).getD 0
  length_entries := by rw [List.length_map, length_indices]

/-- The entries in another shape, which has to ask for as many. -/
def reshape? (t : Tensor) (shape : List Nat) : Option Tensor :=
  if h : t.entries.length = entryCount shape then some ⟨shape, t.entries, h⟩ else none

/-- Entries of a shape as nested lists, one level for each axis. -/
def nestedOf : List Nat → List Float → Datum
  | [], entries => .number (entries.headD 0)
  | size :: shape, entries => .list ((List.range size).map fun i =>
      nestedOf shape ((entries.drop (i * entryCount shape)).take (entryCount shape)))

def nested (t : Tensor) : Datum := nestedOf t.shape t.entries

variable {height width : Nat} {entry entry' : Nat → Nat → Float}

theorem ofGrid_congr (h : ∀ i < height, ∀ j < width, entry i j = entry' i j) :
    ofGrid height width entry = ofGrid height width entry' :=
  eq_of_entries rfl (congrArg List.flatten (gridOf_congr h))

/-- Every tensor of rank two is that of a grid. -/
theorem exists_ofGrid {t : Tensor} (h : t.shape = [height, width]) :
    ∃ entry, t = ofGrid height width entry := by
  have hlength : t.entries.length = height * width := by
    rw [t.length_entries, h]
    simp [entryCount]
  have hrows := eq_gridOf fun _ => length_of_mem_splitRows hlength
  rw [length_splitRows] at hrows
  refine ⟨fun i j => ((splitRows height width t.entries).getD i []).getD j 0,
    eq_of_entries h ?_⟩
  exact (flatten_splitRows hlength).symm.trans (congrArg List.flatten hrows)

theorem at?_ofGrid {i j : Nat} (hi : i < height) (hj : j < width) :
    (ofGrid height width entry).at? [i, j] = some (entry i j) := by
  have hoffset : offset? [height, width] [i, j] = some (i * width + j) := by
    simp [offset?, entryCount, hi, hj]
  rw [at?, show (ofGrid height width entry).shape = [height, width] from rfl, hoffset]
  exact getElem?_flatten_gridOf hi hj

/-- The transposed tensor of a grid is the tensor of the grid with row and column exchanged. -/
theorem transpose_ofGrid :
    (ofGrid height width entry).transpose = ofGrid width height fun j i => entry i j := by
  have hindices : indices [width, height]
      = (List.range width).flatMap fun j => (List.range height).map fun i => [j, i] := by
    simp [indices, ← List.map_eq_flatMap, Function.comp_def]
  refine eq_of_entries rfl ?_
  show (indices [width, height]).map _ = (gridOf width height _).flatten
  rw [hindices, List.map_flatMap, gridOf, List.flatMap_def]
  congr 1
  refine List.map_congr_left fun j hj => ?_
  rw [List.map_map]
  refine List.map_congr_left fun i hi => ?_
  show ((ofGrid height width entry).at? [i, j]).getD 0 = entry i j
  rw [at?_ofGrid (List.mem_range.mp hi) (List.mem_range.mp hj)]
  rfl

theorem transpose_ofItems (items : List Float) : (ofItems items).transpose = ofItems items := by
  have hindices : indices [items.length] = (List.range items.length).map fun i => [i] := by
    simp [indices, ← List.map_eq_flatMap]
  refine eq_of_entries rfl ?_
  show (indices [items.length]).map _ = items
  have hitems : (List.range items.length).map (items.getD · 0) = items := by
    simpa using (map_eq_map_range id items 0).symm
  rw [hindices, List.map_map]
  refine Eq.trans (List.map_congr_left fun i hi => ?_) hitems
  have hi : i < items.length := List.mem_range.mp hi
  simp [at?, offset?, ofItems, entryCount, hi]

theorem nestedOf_items (items : List Float) :
    nestedOf [items.length] items = .list (items.map .number) := by
  rw [nestedOf, map_eq_map_range Datum.number items 0]
  refine congrArg Datum.list (List.map_congr_left fun i hi => ?_)
  have hi : i < items.length := List.mem_range.mp hi
  simp [nestedOf, entryCount, List.head?_take, List.head?_drop, hi]

theorem nested_ofGrid : (ofGrid height width entry).nested
    = .list ((gridOf height width entry).map fun row => .list (row.map .number)) := by
  have hrows : nestedOf [height, width] (gridOf height width entry).flatten
      = .list ((splitRows height width (gridOf height width entry).flatten).map
          (nestedOf [width])) := by
    simp [nestedOf, splitRows, entryCount]
  refine hrows.trans ?_
  rw [splitRows_gridOf]
  refine congrArg Datum.list (List.map_congr_left fun row hrow => ?_)
  rw [← nestedOf_items, length_of_mem_gridOf hrow]

end Tensor

/-! ## Nested lists as tensors -/

namespace Datum

/-- Tensors of one shape can be stacked. -/
theorem exists_stack {parts : List Tensor} {shape : List Nat} (hparts : parts ≠ [])
    (hshape : ∀ t ∈ parts, t.shape = shape) :
    ∃ t, stack parts = .ok t ∧ t.shape = parts.length :: shape ∧
      t.entries = (parts.map Tensor.entries).flatten := by
  cases parts with
  | nil => contradiction
  | cons first rest =>
    obtain ⟨hfirst, hrest⟩ := List.forall_mem_cons.mp hshape
    have hsame : ∀ t ∈ rest, t.shape = first.shape := fun t ht => (hrest t ht).trans hfirst.symm
    rw [stack, dif_pos hsame]
    exact ⟨_, rfl, congrArg _ hfirst, rfl⟩

theorem toTensors_map {α : Type} {f : α → Datum} {g : α → Tensor} {xs : List α}
    (h : ∀ x ∈ xs, (f x).toTensor = .ok (g x)) : toTensors (xs.map f) = .ok (xs.map g) := by
  induction xs with
  | nil => rfl
  | cons x rest ih =>
    obtain ⟨hx, hrest⟩ := List.forall_mem_cons.mp h
    rw [List.map_cons, toTensors, hx, ih hrest]
    rfl

/-- A list of numbers is a tensor of rank one. -/
theorem toTensor_numbers (items : List Float) :
    (list (items.map number)).toTensor = .ok (.ofItems items) := by
  have hparts : toTensors (items.map number) = .ok (items.map Tensor.ofScalar) :=
    toTensors_map fun x _ => by rw [toTensor]
  rw [toTensor, hparts]
  show stack _ = _
  by_cases hitems : items = []
  · subst hitems
    rfl
  · have hscalars : ∀ t ∈ items.map Tensor.ofScalar, t.shape = [] :=
      List.forall_mem_map.mpr fun x _ => rfl
    obtain ⟨t, ht, hshape, hentries⟩ :=
      exists_stack (fun h => hitems (List.map_eq_nil_iff.mp h)) hscalars
    rw [ht]
    refine congrArg Except.ok (Tensor.eq_of_entries ?_ ?_)
    · rw [hshape, List.length_map]
      rfl
    · rw [hentries, List.map_map]
      exact List.flatMap_singleton' items

end Datum

/-! ## Matrices -/

namespace Matrix

theorem columns_eq (m : Matrix) :
    m.columns = gridOf m.width m.height fun j i => m.entryAt i j :=
  eq_gridOf m.rectangular

/-- A matrix is made of its entries. -/
theorem build_entryAt (m : Matrix) : build m.height m.width m.entryAt = m := by
  obtain ⟨columns, hrectangular⟩ := m
  simp only [build, mk.injEq]
  exact (columns_eq ⟨columns, hrectangular⟩).symm

/-- The columns of a matrix, as nested lists, are those numbers in the same order, whatever the
shape that is taken from the lists. -/
theorem exists_stack (m : Matrix) :
    ∃ t, (Datum.list (m.columns.map fun column => .list (column.map .number))).toTensor = .ok t ∧
      t.entries = m.columns.flatten := by
  have hparts : Datum.toTensors (m.columns.map fun column => .list (column.map .number)) =
      .ok (m.columns.map Tensor.ofItems) :=
    Datum.toTensors_map fun column _ => Datum.toTensor_numbers column
  rw [Datum.toTensor, hparts]
  show ∃ t, Datum.stack _ = _ ∧ _
  by_cases hcolumns : m.columns = []
  · rw [hcolumns]
    exact ⟨_, rfl, rfl⟩
  · have hitems : ∀ t ∈ m.columns.map Tensor.ofItems, t.shape = [m.height] :=
      List.forall_mem_map.mpr fun column hc => congrArg (fun n => [n]) (m.rectangular column hc)
    obtain ⟨t, ht, -, hentries⟩ :=
      Datum.exists_stack (fun h => hcolumns (List.map_eq_nil_iff.mp h)) hitems
    refine ⟨t, ht, ?_⟩
    rw [hentries, List.map_map]
    exact congrArg List.flatten (List.map_id m.columns)

theorem place?_eq {size i : Nat} (hi : i < size) {index : Int}
    (hindex : index = i ∨ index = (i : Int) - size) : place? size index = some i := by
  have hshifted : (if index < 0 then index + size else index) = i := by
    split <;> omega
  simp [place?, hshifted, hi]

/-- Every view of a matrix has this number at a row and a column. An entry can be asked for with
places that are counted from the end. -/
structure Shows (m : Matrix) (i j : Nat) (x : Float) : Prop where
  columns : m.columns[j]?.bind (·[i]?) = some x
  rows : m.rows[i]?.bind (·[j]?) = some x
  entry : ∀ row column : Int, row = i ∨ row = (i : Int) - m.height →
    column = j ∨ column = (j : Int) - m.width → Matrix.entry? m row column = some x
  tensor : (Value.matrix m).toTensor.at? [i, j] = some x

theorem shows_entryAt {m : Matrix} {i j : Nat} (hi : i < m.height) (hj : j < m.width) :
    m.Shows i j (m.entryAt i j) := by
  have hcolumns : m.columns[j]?.bind (·[i]?) = some (m.entryAt i j) := by
    rw [m.columns_eq]
    exact getElem?_gridOf hj hi
  refine ⟨hcolumns, ?_, fun row column hrow hcolumn => ?_, ?_⟩
  · rw [m.rows_eq]
    exact getElem?_gridOf hi hj
  · unfold Matrix.entry?
    rw [place?_eq hj hcolumn, place?_eq hi hrow]
    exact hcolumns
  · rw [Tensor.toTensor_matrix]
    exact Tensor.at?_ofGrid hi hj

variable {height width : Nat} {entry : Nat → Nat → Float}

theorem width_build : (build height width entry).width = width :=
  length_gridOf

theorem height_build (h : width ≠ 0) : (build height width entry).height = height := by
  obtain ⟨n, rfl⟩ := Nat.exists_eq_succ_of_ne_zero h
  simp [build, Matrix.height, heightOf, gridOf, List.range_succ_eq_map]

theorem entryAt_build {i j : Nat} (hi : i < height) (hj : j < width) :
    (build height width entry).entryAt i j = entry i j := by
  simp [entryAt, build, gridOf, hi, hj]

end Matrix

/-! ## Values and tensors -/

namespace Value

/-- The numbers of a value as nested lists, those of a matrix by columns. -/
def nested : Value → Datum
  | scalar x => .number x
  | vector items => .list (items.map .number)
  | matrix m => .list (m.columns.map fun column => .list (column.map .number))

/-- The tensor that is assembled from the nested lists of a value. The columns of a matrix are
stacked, the stack is given the number of columns and that of rows for its shape, and then its axes
are exchanged. -/
def assemble? (v : Value) : Option Tensor :=
  match v, v.nested.toTensor with
  | matrix m, .ok stack => (stack.reshape? [m.width, m.height]).map Tensor.transpose
  | _, .ok t => some t
  | _, .error _ => none

/-- What is assembled is the tensor of the value. -/
theorem assemble?_eq (v : Value) : v.assemble? = some v.toTensor := by
  cases v with
  | scalar x => simp [assemble?, nested, Datum.toTensor, toTensor]
  | vector items => simp [assemble?, nested, Datum.toTensor_numbers, toTensor]
  | matrix m =>
    obtain ⟨stack, hstack, hentries⟩ := m.exists_stack
    have hshaped : stack.reshape? [m.width, m.height]
        = some (.ofGrid m.width m.height fun j i => m.entryAt i j) := by
      have hgrid : stack.entries = (gridOf m.width m.height fun j i => m.entryAt i j).flatten :=
        hentries.trans (congrArg List.flatten m.columns_eq)
      have hlength : stack.entries.length = entryCount [m.width, m.height] := by
        rw [hgrid]
        exact (Tensor.ofGrid _ _ _).length_entries
      rw [Tensor.reshape?, dif_pos hlength]
      exact congrArg some (Tensor.eq_of_entries rfl hgrid)
    simp only [assemble?, nested, hstack, hshaped, Option.map_some, Tensor.transpose_ofGrid,
      Tensor.toTensor_matrix]

/-- A value is found again in its tensor. -/
theorem toValue?_toTensor (v : Value) : v.toTensor.toValue? = some v := by
  cases v with
  | scalar | vector => rfl
  | matrix m => rw [Tensor.toTensor_matrix, Tensor.toValue?_ofGrid, m.build_entryAt]

end Value

namespace Tensor

/-- A value that a tensor of rank at most two has. Its numbers are nested like those of the
transposed tensor. -/
structure Represents (t : Tensor) (v : Value) : Prop where
  value : Datum.ofTensor t = .ok v
  rank : v.rank = t.shape.length
  nested : v.nested = t.transpose.nested
  /-- Rows without columns are gone. -/
  rowsLost : ∀ rows, t.shape = [rows + 1, 0] → v = .matrix ⟨[], List.forall_mem_nil _⟩
  kept : (∀ rows, t.shape ≠ [rows + 1, 0]) → v.toTensor = t

theorem ofTensor_eq {t : Tensor} {v : Value} (h : t.toValue? = some v) :
    Datum.ofTensor t = .ok v := by
  rw [Datum.ofTensor, h]

theorem represents_ofScalar (x : Float) : (ofScalar x).Represents (.scalar x) where
  value := rfl
  rank := rfl
  nested := rfl
  rowsLost _ h := nomatch h
  kept _ := rfl

theorem represents_ofItems (items : List Float) : (ofItems items).Represents (.vector items) where
  value := rfl
  rank := rfl
  nested := by
    rw [transpose_ofItems]
    exact (nestedOf_items items).symm
  rowsLost _ h := nomatch (List.cons.inj h).2
  kept _ := rfl

theorem represents_ofGrid (height width : Nat) (entry : Nat → Nat → Float) :
    (ofGrid height width entry).Represents (.matrix (.build height width entry)) where
  value := ofTensor_eq toValue?_ofGrid
  rank := rfl
  nested := by
    rw [transpose_ofGrid, nested_ofGrid]
    rfl
  rowsLost rows h := by
    have hwidth : width = 0 := (List.cons.inj (List.cons.inj h).2).1
    subst hwidth
    rfl
  kept h := by
    rw [toTensor_matrix]
    by_cases hwidth : width = 0
    · have hheight : height = 0 := by
        cases height with
        | zero => rfl
        | succ rows => exact absurd (by rw [hwidth]; rfl) (h rows)
      subst hwidth hheight
      rfl
    · rw [Matrix.width_build, Matrix.height_build hwidth]
      exact ofGrid_congr fun i hi j hj => Matrix.entryAt_build hi hj

theorem exists_represents {t : Tensor} (h : t.shape.length ≤ 2) : ∃ v, t.Represents v := by
  obtain ⟨shape, entries, hlength⟩ := t
  match shape with
  | [] =>
    obtain ⟨x, rfl⟩ := List.length_eq_one_iff.mp hlength
    exact ⟨_, represents_ofScalar x⟩
  | [size] =>
    obtain rfl : entries.length = size := by simpa [entryCount] using hlength
    exact ⟨_, represents_ofItems entries⟩
  | [height, width] =>
    obtain ⟨entry, ht⟩ := exists_ofGrid (t := ⟨[height, width], entries, hlength⟩) rfl
    rw [ht]
    exact ⟨_, represents_ofGrid height width entry⟩
  | _ :: _ :: _ :: _ => exact absurd h (by simp)

end Tensor

/-- **The views of a value agree.** The tensor of a value is the one that is assembled from its
nested lists; it has the shape of the value, rows first, and the value is what it stands for. A
matrix has as many rows as it is high, each as long as the matrix is wide, and its rows, its
columns, its tensor and its entries have the same number at every row and column. The other way
round, every tensor of rank at most two stands for a value, and is the tensor of that value unless
it has rows and no columns, where the value is the matrix without columns. -/
theorem views_agree :
    (∀ v : Value, v.assemble? = some v.toTensor ∧ v.toTensor.shape = v.shape ∧
      Datum.ofTensor v.toTensor = .ok v) ∧
    (∀ m : Matrix, m.rows.length = m.height ∧ (∀ row ∈ m.rows, row.length = m.width) ∧
      ∀ i < m.height, ∀ j < m.width, ∃ x, m.Shows i j x) ∧
    ∀ t : Tensor, t.shape.length ≤ 2 → ∃ v, t.Represents v := by
  refine ⟨fun v => ?_, fun m => ?_, fun t ht => Tensor.exists_represents ht⟩
  · exact ⟨v.assemble?_eq, v.shape_toTensor, Tensor.ofTensor_eq v.toValue?_toTensor⟩
  · exact ⟨m.length_rows, fun _ => Matrix.length_of_mem_rows,
      fun i hi j hj => ⟨_, Matrix.shows_entryAt hi hj⟩⟩

/-- The last entry of a matrix of two rows and three columns, and a tensor of two rows without
columns, which are not found again in its value. -/
theorem views_of_wide_matrix_and_empty_rows :
    let m : Matrix := ⟨[[1, 4], [2, 5], [3, 6]], by decide⟩
    let t : Tensor := ⟨[2, 0], [], rfl⟩
    (1 < m.height ∧ 2 < m.width ∧ m.Shows 1 2 6) ∧
      (t.shape.length ≤ 2 ∧ ∃ v, t.Represents v ∧ v.toTensor ≠ t) := by
  intro m t
  have hheight : 1 < m.height := by decide
  have hwidth : 2 < m.width := by decide
  have hrank : t.shape.length ≤ 2 := by decide
  obtain ⟨-, hmatrices, htensors⟩ := views_agree
  obtain ⟨x, hx⟩ := (hmatrices m).2.2 1 hheight 2 hwidth
  have hsix : 6 = x := Option.some.inj hx.columns
  obtain ⟨v, hv⟩ := htensors t hrank
  refine ⟨⟨hheight, hwidth, hsix ▸ hx⟩, hrank, v, hv, ?_⟩
  rw [hv.rowsLost 1 rfl]
  decide

end Reckoner
