import Reckoner.Failure

/-!
# Data from outside

Values, settings and tables that come from outside the language are data of any shape. `Datum`
holds them, `Datum.toValue` accepts the numbers and the grids of rank at most two among them, and
`Datum.quoted` is how a message shows one that was not accepted.
-/

namespace Reckoner

inductive Datum where
  | value (v : Value)
  | tensor (t : Tensor)
  | integer (n : Int)
  | number (x : Float)
  | boolean (b : Bool)
  | text (s : String)
  | nothing
  | list (items : List Datum)
  | record (fields : List (String × Datum))
deriving Inhabited

namespace Datum

def typeName : Datum → String
  | value (.scalar _) => "Scalar"
  | value (.vector _) => "Vector"
  | value (.matrix _) => "Matrix"
  | tensor _ => "tensor"
  | integer _ => "int"
  | number _ => "float"
  | boolean _ => "bool"
  | text _ => "str"
  | nothing => "NoneType"
  | list _ => "list"
  | record _ => "dict"

mutual

def quoted : Datum → String
  | value v => v.display maxPlaces
  | tensor t => toString t.shape
  | integer n => toString n
  | number x => (Double.ofFloat x).text
  | boolean b => if b then "True" else "False"
  | text s => Text.quoted s
  | nothing => "None"
  | list items => "[" ++ ", ".intercalate (quotedItems items) ++ "]"
  | record fields => "\x7b" ++ ", ".intercalate (quotedFields fields) ++ "\x7d"

def quotedItems : List Datum → List String
  | [] => []
  | item :: rest => item.quoted :: quotedItems rest

def quotedFields : List (String × Datum) → List String
  | [] => []
  | (name, item) :: rest => (Text.quoted name ++ ": " ++ item.quoted) :: quotedFields rest

end

/-- Tensors of one shape, one after the other along a new first axis. The first of them gives the
shape, and an axis without tensors has nothing behind it. -/
def stack (parts : List Tensor) : Except Failure Tensor :=
  match parts with
  | [] => .ok (.ofItems [])
  | first :: rest =>
    if h : ∀ t ∈ rest, t.shape = first.shape then
      .ok ⟨(rest.length + 1) :: first.shape, ((first :: rest).map Tensor.entries).flatten, by
        have hlen : ∀ row ∈ (first :: rest).map Tensor.entries,
            row.length = entryCount first.shape := by
          simp only [List.mem_map, List.mem_cons]
          rintro _ ⟨t, rfl | ht, rfl⟩
          · exact t.length_entries
          · rw [t.length_entries, h t ht]
        rw [length_flatten_of_length_eq hlen]
        simp [entryCount]⟩
    else .error .raggedRows

mutual

/-- The grid that nested lists of numbers write; a truth value counts as 0 or 1. -/
def toTensor : Datum → Except Failure Tensor
  | value v => .ok v.toTensor
  | tensor t => .ok t
  | integer n =>
    match floatOfInt? n with
    | some x => .ok (.ofScalar x)
    | none => .error .integerTooLarge
  | number x => .ok (.ofScalar x)
  | boolean b => .ok (.ofScalar (if b then 1 else 0))
  | list items => (toTensors items).bind stack
  | text s => .error (.notNumeral s)
  | nothing => .error (.unsupported "value" "NoneType")
  | record _ => .error (.unsupported "value" "dict")

def toTensors : List Datum → Except Failure (List Tensor)
  | [] => .ok []
  | item :: rest =>
    match item.toTensor, toTensors rest with
    | .ok t, .ok ts => .ok (t :: ts)
    | .error failure, _ => .error failure
    | .ok _, .error failure => .error failure

end

def ofTensor (t : Tensor) : Except Failure Value :=
  match t.toValue? with
  | some v => .ok v
  | none => .error (.rankTooHigh t.shape.length)

/-- The value that a piece of data stands for: itself, a real number, or a grid. A truth value is
no number. `place` says in messages where the data came from. -/
def toValue (place : String) (d : Datum) : Except Failure Value :=
  match d with
  | value v => .ok v
  | tensor t => ofTensor t
  | integer n =>
    match floatOfInt? n with
    | some x => .ok (.scalar x)
    | none => .error .integerTooLarge
  | number x => .ok (.scalar x)
  | other => .error (.unsupported place other.typeName)

def checkValue (place : String) : Datum → Except Failure Unit
  | value _ => .ok ()
  | other => .error (.unsupported place other.typeName)

/-- A value on display; other data is refused. -/
def display (places : Nat) : Datum → Except Failure String
  | value v => .ok (v.display places)
  | other => .error (.notDisplayable other.typeName)

def toDigitCap (d : Datum) : Except Failure DigitCap :=
  match d with
  | integer n =>
    match DigitCap.ofInt? n with
    | some cap => .ok cap
    | none => .error (.badDigitCap d.quoted)
  | _ => .error (.badDigitCap d.quoted)

end Datum

/-- The value of a column list, which has to be rectangular. -/
def Value.ofColumns (columns : List (List Float)) : Except Failure Value :=
  match Matrix.ofColumns? columns with
  | some m => .ok (.matrix m)
  | none => .error .raggedColumns

end Reckoner
