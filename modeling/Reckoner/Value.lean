import Reckoner.Number.Display

/-!
# Values

The calculator computes with scalars, vectors and matrices of doubles. A matrix is kept by
columns, all of one height, so a matrix without columns has no rows either, while one without rows
may have any number of columns.
-/

namespace Reckoner

inductive ValueKind where
  | scalar
  | vector
  | matrix
deriving Repr, DecidableEq

def ValueKind.text : ValueKind → String
  | scalar => "scalar"
  | vector => "vector"
  | matrix => "matrix"

/-- The height of the first of some columns. -/
def heightOf (columns : List (List Float)) : Nat :=
  (columns.headD []).length

/-- A matrix: its columns from left to right, each from top to bottom. -/
structure Matrix where
  columns : List (List Float)
  rectangular : ∀ column ∈ columns, column.length = heightOf columns
deriving DecidableEq

/-- What an expression evaluates to. -/
inductive Value where
  | scalar (x : Float)
  | vector (items : List Float)
  | matrix (m : Matrix)
deriving DecidableEq

/-- The columns of a grid given by rows, and the rows of one given by columns: `count` lists of
which the `i`-th collects the `i`-th entries. -/
def transposed (count : Nat) (lists : List (List Float)) : List (List Float) :=
  (List.range count).map fun i => lists.map fun l => l.getD i 0

namespace Matrix

/-- A matrix of these columns, if they all have the same height. -/
def ofColumns? (columns : List (List Float)) : Option Matrix :=
  if h : ∀ column ∈ columns, column.length = heightOf columns then some ⟨columns, h⟩ else none

def width (m : Matrix) : Nat := m.columns.length

def height (m : Matrix) : Nat := heightOf m.columns

/-- The rows from top to bottom, each from left to right. -/
def rows (m : Matrix) : List (List Float) := transposed m.height m.columns

/-- The place that an index means, where negative indices count from the end. -/
def place? (size : Nat) (index : Int) : Option Nat :=
  let shifted := if index < 0 then index + size else index
  if 0 ≤ shifted && shifted < size then some shifted.toNat else none

def entry? (m : Matrix) (row column : Int) : Option Float := do
  let j ← place? m.width column
  let i ← place? m.height row
  (← m.columns[j]?)[i]?

end Matrix

namespace Value

def kind : Value → ValueKind
  | scalar _ => .scalar
  | vector _ => .vector
  | matrix _ => .matrix

/-- The shape of a value: nothing, a length, or rows and columns. -/
def shape : Value → List Nat
  | scalar _ => []
  | vector items => [items.length]
  | matrix m => [m.height, m.width]

/-- How many numbers it takes to name an entry. -/
def rank (v : Value) : Nat := v.shape.length

/-- Numbers on display, with commas between them. -/
def displayRow (places : Nat) (row : List Float) : String :=
  ", ".intercalate (row.map (displayNumber places))

/-- A value on display: a matrix takes a line for each row, and shows only its brackets when it
has none. -/
def display (places : Nat) : Value → String
  | scalar x => displayNumber places x
  | vector items => "[" ++ displayRow places items ++ "]"
  | matrix m =>
    if m.rows.isEmpty then "[]"
    else "[\n" ++ "\n".intercalate (m.rows.map fun row => "\t" ++ displayRow places row) ++ "\n]"

end Value

theorem length_transposed (count : Nat) (lists : List (List Float)) :
    (transposed count lists).length = count := by
  simp [transposed]

theorem length_of_mem_transposed {count : Nat} {lists : List (List Float)} {l : List Float}
    (h : l ∈ transposed count lists) : l.length = lists.length := by
  simp only [transposed, List.mem_map] at h
  obtain ⟨i, _, rfl⟩ := h
  simp

/-- Lists of one length are the columns of a matrix. -/
theorem rectangular_of_length_eq {columns : List (List Float)} {n : Nat}
    (h : ∀ column ∈ columns, column.length = n) :
    ∀ column ∈ columns, column.length = heightOf columns := by
  intro column hc
  cases columns with
  | nil => cases hc
  | cons first rest => simp [heightOf, h column hc, h first (by simp)]

theorem rectangular_transposed (count : Nat) (lists : List (List Float)) :
    ∀ column ∈ transposed count lists, column.length = heightOf (transposed count lists) :=
  rectangular_of_length_eq fun _ h => length_of_mem_transposed h

theorem Matrix.length_rows (m : Matrix) : m.rows.length = m.height :=
  length_transposed m.height m.columns

theorem Matrix.length_of_mem_rows {m : Matrix} {row : List Float} (h : row ∈ m.rows) :
    row.length = m.width :=
  length_of_mem_transposed h

end Reckoner
