import Reckoner.Value

/-!
# Tensors

Arithmetic runs on tensors: a shape and the entries in row-major order. `Value.toTensor` and
`Tensor.toValue?` go between values and tensors of rank at most two. The operations refuse shapes
that do not fit; the only operand that stretches is one of rank zero. A product of grids adds its
terms from left to right.
-/

namespace Reckoner

def entryCount : List Nat → Nat
  | [] => 1
  | size :: rest => size * entryCount rest

/-- Entries in row-major order, as many as the shape asks for. -/
structure Tensor where
  shape : List Nat
  entries : List Float
  length_entries : entries.length = entryCount shape
deriving DecidableEq

structure ShapeMismatch where
  left : List Nat
  right : List Nat
deriving Repr, DecidableEq

/-- The rows of a grid of `height` rows, written one after the other. -/
def splitRows (height width : Nat) (entries : List Float) : List (List Float) :=
  (List.range height).map fun i => (entries.drop (i * width)).take width

/-- The sum of numbers, added to zero from left to right. A number alone is its own sum, so that a
negative zero keeps its sign. -/
def total : List Float → Float
  | [x] => x
  | xs => xs.foldl (· + ·) 0

/-- The sum of the products of corresponding entries. -/
def dot (xs ys : List Float) : Float :=
  total (List.zipWith (· * ·) xs ys)

theorem length_splitRows (height width : Nat) (entries : List Float) :
    (splitRows height width entries).length = height := by
  simp [splitRows]

/-- Rows of one length have as many entries as their number times that length. -/
theorem length_flatten_of_length_eq {rows : List (List Float)} {n : Nat}
    (h : ∀ row ∈ rows, row.length = n) : rows.flatten.length = rows.length * n := by
  induction rows with
  | nil => simp
  | cons row rest ih =>
    have hrow := h row (by simp)
    have hrest := ih fun r hr => h r (by simp [hr])
    simp only [List.flatten_cons, List.length_append, List.length_cons, hrow, hrest]
    rw [Nat.add_mul]
    omega

namespace Tensor

def ofScalar (x : Float) : Tensor := ⟨[], [x], rfl⟩

def ofItems (items : List Float) : Tensor := ⟨[items.length], items, by simp [entryCount]⟩

/-- A tensor of rank two, from rows of one length. -/
def ofRows (rows : List (List Float)) (width : Nat) (h : ∀ row ∈ rows, row.length = width) :
    Tensor :=
  ⟨[rows.length, width], rows.flatten, by simp [entryCount, length_flatten_of_length_eq h]⟩

/-- The value of a tensor of rank at most two. A grid without columns loses its height. -/
def toValue? (t : Tensor) : Option Value :=
  match t.shape with
  | [] => some (.scalar (t.entries.headD 0))
  | [_] => some (.vector t.entries)
  | [height, width] =>
    let rows := splitRows height width t.entries
    some (.matrix ⟨transposed width rows, rectangular_transposed width rows⟩)
  | _ => none

def map (f : Float → Float) (t : Tensor) : Tensor :=
  ⟨t.shape, t.entries.map f, by simp [t.length_entries]⟩

/-- Applies a function entry by entry to tensors of one shape, or to every entry of one of them
and the only entry of the other. -/
def pointwise (f : Float → Float → Float) (a b : Tensor) : Except ShapeMismatch Tensor :=
  if h : a.shape = b.shape then
    .ok ⟨a.shape, List.zipWith f a.entries b.entries, by
      simp [a.length_entries, b.length_entries, h]⟩
  else if a.shape = [] then .ok (b.map fun y => f (a.entries.headD 0) y)
  else if b.shape = [] then .ok (a.map fun x => f x (b.entries.headD 0))
  else .error ⟨a.shape, b.shape⟩

/-- The product of a grid with a column or with another grid. -/
def product (a b : Tensor) : Except ShapeMismatch Tensor :=
  match a.shape, b.shape with
  | [height, inner], [inner'] =>
    if inner = inner' then
      .ok (ofItems ((splitRows height inner a.entries).map fun row => dot row b.entries))
    else .error ⟨a.shape, b.shape⟩
  | [height, inner], [inner', width] =>
    if inner = inner' then
      let columns := transposed width (splitRows inner' width b.entries)
      .ok (ofRows ((splitRows height inner a.entries).map fun row => columns.map (dot row))
        width (by
          simp only [List.mem_map]
          rintro _ ⟨row, _, rfl⟩
          simp [columns, length_transposed]))
    else .error ⟨a.shape, b.shape⟩
  | _, _ => .error ⟨a.shape, b.shape⟩

end Tensor

/-- A value as a tensor; a matrix is written row by row. -/
def Value.toTensor : Value → Tensor
  | .scalar x => .ofScalar x
  | .vector items => .ofItems items
  | .matrix m => .ofRows m.rows m.width fun _ h => Matrix.length_of_mem_rows h

end Reckoner
