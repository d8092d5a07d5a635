import Reckoner.Proofs.Frame

/-!
# Where a name is bound

A binding is told here by where it stands: a name has it in the first of some layers that binds the
name at all (`Binds`), whichever layers these are. Looking up finds this binding if the layers bind
every name at most once (`findSome?_eq_some_iff`), which setting and erasing keep up. Counting the
names and going through them come to the same names, each of them once (`Scope.size_eq`), and
setting or erasing a name leaves everything else as it is (`Scope.SameBut`).
-/

namespace Reckoner

/-! ## Layers that bind a name once -/

namespace Layer

variable {α : Type} {layer : Layer α} {name : String} {a : α}

theorem find?_eq_none_iff : layer.find? name = none ↔ name ∉ layer.names := by
  rw [mem_names_iff, Option.eq_none_iff_forall_ne_some, not_exists]

theorem find?_eq_some_iff (h : layer.names.Nodup) :
    layer.find? name = some a ↔ (name, a) ∈ layer := by
  refine ⟨mem_of_find?, fun hmem => ?_⟩
  induction layer with
  | nil => cases hmem
  | cons first rest ih =>
    obtain ⟨hfirst, hrest⟩ := List.nodup_cons.mp h
    rcases List.mem_cons.mp hmem with rfl | hmem
    · rw [find?, if_pos rfl]
    · have hne : first.1 ≠ name := fun heq =>
        hfirst (heq ▸ List.mem_map_of_mem (f := Prod.fst) hmem)
      rw [find?, if_neg hne]
      exact ih hrest hmem

theorem nodup_names_set (h : layer.names.Nodup) : (layer.set name a).names.Nodup := by
  induction layer with
  | nil => exact List.nodup_cons.mpr ⟨List.not_mem_nil, List.nodup_nil⟩
  | cons first rest ih =>
    obtain ⟨hfirst, hrest⟩ := List.nodup_cons.mp h
    rw [set]
    split
    · exact h
    · next hne =>
      refine List.nodup_cons.mpr ⟨fun hmem => ?_, ih hrest⟩
      exact (mem_names_set.mp hmem).elim hfirst hne

theorem nodup_names_erase (h : layer.names.Nodup) : (layer.erase name).names.Nodup :=
  (List.filter_sublist.map Prod.fst).nodup h

theorem mem_or_eq_of_mem_set {binding : String × α} (h : binding ∈ layer.set name a) :
    binding ∈ layer ∨ binding = (name, a) := by
  induction layer with
  | nil => exact .inr (List.mem_singleton.mp h)
  | cons first rest ih =>
    rw [set] at h
    split at h
    · next hname =>
      rcases List.mem_cons.mp h with rfl | h
      · exact .inr (congrArg (·, a) hname)
      · exact .inl (List.mem_cons_of_mem _ h)
    · rcases List.mem_cons.mp h with rfl | h
      · exact .inl List.mem_cons_self
      · exact (ih h).imp_left (List.mem_cons_of_mem _)

end Layer

/-- A name has this binding in the first of some layers that binds it. -/
def Binds {α : Type} (layers : List (Layer α)) (name : String) (a : α) : Prop :=
  ∃ inside layer around, layers = inside ++ layer :: around ∧
    (∀ l ∈ inside, name ∉ l.names) ∧ (name, a) ∈ layer

section Binds

variable {α : Type} {layers : List (Layer α)} {layer : Layer α} {name : String} {a : α}

/-- Looking a name up finds the binding that it has. -/
theorem findSome?_eq_some_iff (h : ∀ layer ∈ layers, layer.names.Nodup) :
    layers.findSome? (Layer.find? name) = some a ↔ Binds layers name a := by
  rw [List.findSome?_eq_some_iff]
  constructor
  · rintro ⟨inside, layer, around, heq, hfound, hinside⟩
    exact ⟨inside, layer, around, heq,
      fun l hl => Layer.find?_eq_none_iff.mp (hinside l hl), Layer.mem_of_find? hfound⟩
  · rintro ⟨inside, layer, around, heq, hinside, hmem⟩
    have hlayer : layer.names.Nodup := h layer (heq ▸ List.mem_append_right _ List.mem_cons_self)
    exact ⟨inside, layer, around, heq, (Layer.find?_eq_some_iff hlayer).mpr hmem,
      fun l hl => Layer.find?_eq_none_iff.mpr (hinside l hl)⟩

theorem findSome?_eq_none_iff :
    layers.findSome? (Layer.find? name) = none ↔ ∀ layer ∈ layers, name ∉ layer.names := by
  rw [List.findSome?_eq_none_iff]
  exact forall₂_congr fun _ _ => Layer.find?_eq_none_iff

theorem binds_of_mem (h : (name, a) ∈ layer) : Binds (layer :: layers) name a :=
  ⟨[], layer, layers, rfl, List.forall_mem_nil _, h⟩

end Binds

/-! ## Scopes -/

theorem nodup_eraseDups (names : List String) : names.eraseDups.Nodup := by
  cases names with
  | nil => exact List.nodup_nil
  | cons name rest =>
    rw [List.eraseDups_cons]
    exact List.nodup_cons.mpr ⟨by simp, nodup_eraseDups _⟩
termination_by names.length
decreasing_by exact Nat.lt_succ_of_le (List.length_filter_le _ _)

namespace Scope

variable {α : Type}

/-- The names in the order of iteration: those of the outermost layer come first, and a name that
came keeps its place. -/
def inOrder (s : Scope α) : List String :=
  (s.layers.reverse.flatMap Layer.names).eraseDups

theorem mem_inOrder {s : Scope α} {name : String} :
    name ∈ s.inOrder ↔ ∃ layer ∈ s.layers, name ∈ layer.names := by
  rw [inOrder, List.mem_eraseDups, List.mem_flatMap]
  simp only [List.mem_reverse]

theorem size_eq (s : Scope α) : s.size = s.inOrder.length := by
  refine (List.perm_ext_iff_of_nodup (nodup_eraseDups _) (nodup_eraseDups _)).mpr
    (fun name => ?_) |>.length_eq
  simp only [List.mem_eraseDups, List.mem_flatMap, List.mem_reverse]

/-- Nothing differs between two scopes but what the innermost layers say of one name. -/
structure SameBut (name : String) (s s' : Scope α) : Prop where
  outer : s'.outer = s.outer
  inner : ∀ other a, other ≠ name → ((other, a) ∈ s'.inner ↔ (other, a) ∈ s.inner)

theorem sameBut_set {s : Scope α} (h : s.inner.names.Nodup) (name : String) (a : α) :
    s.SameBut name (s.set name a) where
  outer := rfl
  inner other b hother := by
    rw [← Layer.find?_eq_some_iff h, ← Layer.find?_set_of_ne hother a]
    exact (Layer.find?_eq_some_iff (Layer.nodup_names_set h)).symm

theorem sameBut_erase {s : Scope α} (h : s.inner.names.Nodup) (name : String) :
    s.SameBut name (s.erase name) where
  outer := rfl
  inner other b hother := by
    rw [← Layer.find?_eq_some_iff h, ← Layer.find?_erase_of_ne hother]
    exact (Layer.find?_eq_some_iff (Layer.nodup_names_erase h)).symm

/-- Where the innermost binding of a name is taken away, the layers around it decide. -/
theorem find?_erase_self (s : Scope α) (name : String) :
    (s.erase name).find? name = s.outer.findSome? (Layer.find? name) := by
  rw [find?_eq, erase, Layer.find?_erase_self, Option.none_or]

end Scope

end Reckoner
