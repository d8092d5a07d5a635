import Reckoner.Operation

/-!
# Operators never surprise their tensors

The tensor operations refuse shapes that do not fit and results of too high a rank. Neither can
happen to them here: an operator either refuses its operands itself, with an error that a session
reports, or hands the tensors over in shapes that fit and gets a value back (`answers_operate`).
-/

namespace Reckoner

/-- A number may stretch over the other operand, or the left operand is a grid that is as wide as
the right one is high. -/
def Multipliable (left right : Value) : Prop :=
  left.shape = [] ∨ right.shape = [] ∨ ∃ height inner, left.shape = [height, inner]
    ∧ (right.shape = [inner] ∨ ∃ width, right.shape = [inner, width])

/-- The shapes that an operator takes. Only a number stretches, and only in a product or as the
divisor of a quotient. -/
def Operator.Fits (left right : Value) : Operator → Prop
  | power => left.shape = [] ∧ right.shape = []
  | add | subtract => left.shape = right.shape
  | multiply => Multipliable left right
  | divide => right.shape = []
  | reserved => False

theorem Value.shape_toTensor (v : Value) : v.toTensor.shape = v.shape := by
  cases v with
  | scalar x => rfl
  | vector items => rfl
  | matrix m =>
    show [m.rows.length, m.width] = [m.height, m.width]
    rw [m.length_rows]

theorem Value.rank_le_two (v : Value) : v.shape.length ≤ 2 := by
  cases v <;> simp [Value.shape]

theorem Tensor.exists_toValue? {t : Tensor} (h : t.shape.length ≤ 2) :
    ∃ v, t.toValue? = some v := by
  unfold toValue?
  split
  · exact ⟨_, rfl⟩
  · exact ⟨_, rfl⟩
  · exact ⟨_, rfl⟩
  · next h0 h1 h2 =>
    match hs : t.shape with
    | [] => exact absurd hs h0
    | [a] => exact absurd hs (h1 a)
    | [a, b] => exact absurd hs (h2 a b)
    | _ :: _ :: _ :: _ =>
      rw [hs] at h
      simp at h

theorem Tensor.exists_pointwise (f : Float → Float → Float) {a b : Tensor}
    (h : a.shape = b.shape ∨ a.shape = [] ∨ b.shape = []) :
    ∃ t, pointwise f a b = .ok t ∧ (t.shape = a.shape ∨ t.shape = b.shape) := by
  rw [pointwise]
  by_cases hsame : a.shape = b.shape
  · rw [dif_pos hsame]
    exact ⟨_, rfl, .inl rfl⟩
  · rw [dif_neg hsame]
    by_cases hleft : a.shape = []
    · rw [if_pos hleft]
      exact ⟨_, rfl, .inr rfl⟩
    · rw [if_neg hleft, if_pos ((h.resolve_left hsame).resolve_left hleft)]
      exact ⟨_, rfl, .inl rfl⟩

theorem Tensor.exists_product {a b : Tensor} {height inner : Nat} (ha : a.shape = [height, inner])
    (hb : b.shape = [inner] ∨ ∃ width, b.shape = [inner, width]) :
    ∃ t, product a b = .ok t ∧ t.shape.length ≤ 2 := by
  obtain ⟨shape, entries, hlen⟩ := a
  obtain ⟨shape', entries', hlen'⟩ := b
  obtain rfl : shape = [height, inner] := ha
  rcases hb with hb | ⟨width, hb⟩
  · obtain rfl : shape' = [inner] := hb
    refine ⟨_, if_pos rfl, ?_⟩
    simp [ofItems]
  · obtain rfl : shape' = [inner, width] := hb
    refine ⟨_, if_pos rfl, ?_⟩
    simp [ofRows]

/-- What the tensors of two values do not refuse is a value. -/
theorem exists_onTensors {f : Tensor → Tensor → Except ShapeMismatch Tensor} {left right : Value}
    (h : ∃ t, f left.toTensor right.toTensor = .ok t ∧ t.shape.length ≤ 2) :
    ∃ v, onTensors f left right = .ok v := by
  obtain ⟨t, ht, hrank⟩ := h
  obtain ⟨v, hv⟩ := Tensor.exists_toValue? hrank
  refine ⟨v, ?_⟩
  rw [onTensors, ht]
  simp only [hv]

/-! ## Operators -/

/-- An operation refuses its operands, or it has a value and the operands fit. -/
def Answers (fits : Prop) (result : Except Failure Value) : Prop :=
  (∃ error, result = .error (.reported error)) ∨ (∃ v, result = .ok v) ∧ fits

theorem answers_refuse (fits : Prop) (reason : InvalidOperation) :
    Answers fits (refuse reason) :=
  .inl ⟨_, rfl⟩

theorem answers_pointwise {fits : Prop} (f : Float → Float → Float) {left right : Value}
    (hfits : fits) (h : left.shape = right.shape ∨ left.shape = [] ∨ right.shape = []) :
    Answers fits (onTensors (Tensor.pointwise f) left right) := by
  rw [← left.shape_toTensor, ← right.shape_toTensor] at h
  obtain ⟨t, ht, hshape⟩ := Tensor.exists_pointwise f h
  refine .inr ⟨exists_onTensors ⟨t, ht, ?_⟩, hfits⟩
  rcases hshape with hshape | hshape <;> rw [hshape, Value.shape_toTensor]
  · exact left.rank_le_two
  · exact right.rank_le_two

theorem answers_product {left right : Value} {height inner : Nat}
    (hl : left.shape = [height, inner])
    (hr : right.shape = [inner] ∨ ∃ width, right.shape = [inner, width]) :
    Answers (Multipliable left right) (onTensors Tensor.product left right) := by
  have hleft := left.shape_toTensor.trans hl
  have hright := hr
  rw [← right.shape_toTensor] at hright
  exact .inr ⟨exists_onTensors (Tensor.exists_product hleft hright),
    .inr (.inr ⟨height, inner, hl, hr⟩)⟩

theorem answers_entrywise (f : Float → Float → Float) (action operator : String)
    (left right : Value) :
    Answers (left.shape = right.shape) (entrywise f action operator left right) := by
  unfold entrywise
  split
  · exact answers_pointwise f rfl (.inl rfl)
  · next xs ys =>
    split
    · next hlen =>
      have hshape : (Value.vector xs).shape = (Value.vector ys).shape := by
        simp [Value.shape, hlen]
      exact answers_pointwise f hshape (.inl hshape)
    · exact answers_refuse _ _
  · next m n =>
    split
    · next hsize =>
      have hshape : (Value.matrix m).shape = (Value.matrix n).shape := by
        simp [Value.shape, hsize.1, hsize.2]
      exact answers_pointwise f hshape (.inl hshape)
    · exact answers_refuse _ _
  · exact answers_refuse _ _

theorem answers_multiply (left right : Value) :
    Answers (Multipliable left right) (multiply left right) := by
  unfold multiply
  split
  · exact answers_pointwise _ (.inl rfl) (.inr (.inl rfl))
  · exact answers_pointwise _ (.inr (.inl rfl)) (.inr (.inr rfl))
  · next m ys =>
    split
    · next hsize => exact answers_product rfl (.inl (congrArg (fun n => [n]) hsize.symm))
    · exact answers_refuse _ _
  · next m n =>
    split
    · next hsize => exact answers_product rfl (.inr ⟨n.width, by simp [Value.shape, hsize]⟩)
    · exact answers_refuse _ _
  · exact answers_refuse _ _

theorem answers_divide (left right : Value) :
    Answers (right.shape = []) (divide left right) := by
  unfold divide
  split
  · exact answers_pointwise _ rfl (.inr (.inr rfl))
  · exact answers_refuse _ _

theorem answers_raise (left right : Value) :
    Answers (left.shape = [] ∧ right.shape = []) (raise left right) := by
  unfold raise
  split
  · exact answers_pointwise _ ⟨rfl, rfl⟩ (.inl rfl)
  · exact answers_refuse _ _

theorem answers_apply (operator : Operator) (left right : Value) :
    Answers (operator.Fits left right) (operator.apply left right) := by
  cases operator with
  | power => exact answers_raise left right
  | add => exact answers_entrywise _ _ _ left right
  | subtract => exact answers_entrywise _ _ _ left right
  | multiply => exact answers_multiply left right
  | divide => exact answers_divide left right
  | reserved => exact .inl ⟨_, rfl⟩

/-- Applying an operator has a value, for shapes that fit, or an error that a session reports. -/
theorem answers_operate (op : String) (left right : Value) :
    Answers (∃ operator, Operator.ofText? op = some operator ∧ operator.Fits left right)
      (operate op left right) := by
  rw [operate]
  cases Operator.ofText? op with
  | none => exact .inl ⟨_, rfl⟩
  | some operator =>
    exact (answers_apply operator left right).imp_right
      fun ⟨hvalue, hfits⟩ => ⟨hvalue, operator, rfl, hfits⟩

end Reckoner
