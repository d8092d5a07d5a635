/-!
# Layered bindings

A scope is a stack of layers, each of which binds names. Reading finds the innermost binding;
writing and deleting reach the innermost layer only, so a binding further out can be hidden but
never changed.
-/

namespace Reckoner

/-- The bindings of one layer, in the order in which the names came. -/
abbrev Layer (α : Type) := List (String × α)

namespace Layer

variable {α : Type}

def find? (name : String) : Layer α → Option α
  | [] => none
  | (n, a) :: rest => if n = name then some a else find? name rest

/-- Binds a name; a name that was bound keeps its place. -/
def set (name : String) (a : α) : Layer α → Layer α
  | [] => [(name, a)]
  | (n, b) :: rest => if n = name then (n, a) :: rest else (n, b) :: set name a rest

def erase (name : String) (layer : Layer α) : Layer α :=
  layer.filter fun binding => binding.1 ≠ name

def names (layer : Layer α) : List String :=
  layer.map Prod.fst

theorem find?_set_self (name : String) (a : α) (layer : Layer α) :
    (layer.set name a).find? name = some a := by
  induction layer with
  | nil => simp [set, find?]
  | cons binding rest ih =>
    by_cases h : binding.1 = name <;> simp [set, find?, h, ih]

theorem find?_set_of_ne {name other : String} (h : other ≠ name) (a : α) (layer : Layer α) :
    (layer.set name a).find? other = layer.find? other := by
  induction layer with
  | nil => simp [set, find?, Ne.symm h]
  | cons binding rest ih =>
    by_cases hn : binding.1 = name
    · simp [set, find?, hn, Ne.symm h]
    · by_cases ho : binding.1 = other
      · simp [set, find?, ho, h]
      · simp [set, find?, hn, ho, ih]

theorem find?_erase_self (name : String) (layer : Layer α) :
    (layer.erase name).find? name = none := by
  induction layer with
  | nil => rfl
  | cons binding rest ih =>
    by_cases h : binding.1 = name
    · simpa [erase, h] using ih
    · simpa [erase, find?, h] using ih

theorem find?_erase_of_ne {name other : String} (h : other ≠ name) (layer : Layer α) :
    (layer.erase name).find? other = layer.find? other := by
  induction layer with
  | nil => rfl
  | cons binding rest ih =>
    by_cases hn : binding.1 = name
    · simpa [erase, find?, hn, Ne.symm h] using ih
    · by_cases ho : binding.1 = other
      · simp [erase, find?, ho, h]
      · simpa [erase, find?, hn, ho] using ih

theorem mem_set {name : String} {a : α} {layer : Layer α} {binding : String × α}
    (h : binding ∈ layer.set name a) : binding ∈ layer ∨ binding.2 = a := by
  induction layer with
  | nil => exact .inr (congrArg Prod.snd (List.mem_singleton.mp h))
  | cons first rest ih =>
    rw [set] at h
    split at h
    · rcases List.mem_cons.mp h with rfl | h
      · exact .inr rfl
      · exact .inl (List.mem_cons_of_mem _ h)
    · rcases List.mem_cons.mp h with rfl | h
      · exact .inl List.mem_cons_self
      · exact (ih h).imp_left (List.mem_cons_of_mem _)

theorem mem_of_find? {name : String} {a : α} {layer : Layer α}
    (h : layer.find? name = some a) : (name, a) ∈ layer := by
  induction layer with
  | nil => cases h
  | cons first rest ih =>
    rw [find?] at h
    split at h
    · next hname =>
      rw [← hname, ← Option.some.inj h]
      exact List.mem_cons_self
    · exact List.mem_cons_of_mem _ (ih h)

end Layer

/-- A stack of layers; there is always an innermost one. -/
structure Scope (α : Type) where
  inner : Layer α
  /-- The layers around it, from the inside out. -/
  outer : List (Layer α)

namespace Scope

variable {α : Type}

def ofLayer (layer : Layer α) : Scope α := ⟨layer, []⟩

/-- The layers from the inside out. -/
def layers (s : Scope α) : List (Layer α) := s.inner :: s.outer

/-- How many layers are around the innermost one. -/
def depth (s : Scope α) : Nat := s.outer.length

def find? (s : Scope α) (name : String) : Option α :=
  s.layers.findSome? (Layer.find? name)

def set (s : Scope α) (name : String) (a : α) : Scope α :=
  { s with inner := s.inner.set name a }

def erase (s : Scope α) (name : String) : Scope α :=
  { s with inner := s.inner.erase name }

/-- Puts an empty layer inside the others. -/
def enter (s : Scope α) : Scope α := ⟨[], s.layers⟩

/-- Takes the innermost layer away; the last one stays. -/
def leave (s : Scope α) : Scope α :=
  match s.outer with
  | [] => s
  | next :: rest => ⟨next, rest⟩

/-- The names that have a binding, each once. -/
def names (s : Scope α) : List String :=
  (s.layers.flatMap Layer.names).eraseDups

def size (s : Scope α) : Nat := s.names.length

def sorted (s : Scope α) : List (String × α) :=
  (s.names.mergeSort fun a b => a ≤ b).filterMap fun name =>
    (s.find? name).map fun a => (name, a)

@[simp] theorem find?_ofLayer (layer : Layer α) (name : String) :
    (ofLayer layer).find? name = layer.find? name := by
  simp only [find?, layers, ofLayer, List.findSome?_cons, List.findSome?_nil]
  cases layer.find? name <;> rfl

theorem find?_eq (s : Scope α) (name : String) :
    s.find? name = (s.inner.find? name).or (s.outer.findSome? (Layer.find? name)) := by
  simp only [find?, layers, List.findSome?_cons]
  cases s.inner.find? name <;> rfl

@[simp] theorem find?_enter (s : Scope α) (name : String) :
    s.enter.find? name = s.find? name := by
  simp only [find?, enter, layers, List.findSome?_cons, Layer.find?]

theorem find?_set_self (s : Scope α) (name : String) (a : α) :
    (s.set name a).find? name = some a := by
  simp [find?_eq, set, Layer.find?_set_self]

theorem find?_set_of_ne {name other : String} (h : other ≠ name) (s : Scope α) (a : α) :
    (s.set name a).find? other = s.find? other := by
  simp [find?_eq, set, Layer.find?_set_of_ne h]

theorem find?_set_congr {s s' : Scope α} (h : ∀ name, s.find? name = s'.find? name)
    (name : String) (a : α) (other : String) :
    (s.set name a).find? other = (s'.set name a).find? other := by
  by_cases hother : other = name
  · rw [hother, find?_set_self, find?_set_self]
  · rw [find?_set_of_ne hother, find?_set_of_ne hother, h]

theorem mem_names_of_find? {name : String} {a : α} {s : Scope α} (h : s.find? name = some a) :
    name ∈ s.names := by
  obtain ⟨layer, hlayer, hfound⟩ := List.exists_of_findSome?_eq_some h
  have hname : name ∈ layer.names := List.mem_map_of_mem (Layer.mem_of_find? hfound)
  rw [names, List.mem_eraseDups]
  exact List.mem_flatMap.mpr ⟨layer, hlayer, hname⟩

end Scope

end Reckoner
