import Reckoner.Node.Arrange

/-!
# What a tree means

A tree is given a meaning by its shape: how many children a group has, and whether an operator or
a name stands in the place where one matters. `Node.meaning` sorts the shapes into the cases that
evaluation knows, shapes without a meaning among them, so evaluation never looks at a token.

Groups of one child mean what the child means, and a list of arguments is cut at its commas, each
piece read as if it stood alone.
-/

namespace Reckoner

/-- The cases that evaluation tells apart. -/
inductive Expr where
  | number (text : String)
  /-- A token that is looked up, which only a name finds. -/
  | name (text : String)
  /-- An empty group. -/
  | nothing
  /-- A list in square brackets, by rows. -/
  | literal (rows : List (List Expr))
  | negation (operand : Expr)
  /-- An operator without a rule in front of an operand. -/
  | unknownUnary (operator : String)
  | call (function : String) (args : List Expr)
  | definition (function : String) (params : List String) (body : Node)
  | assignment (target : String) (value : Expr)
  /-- An assignment to something that is no name. -/
  | misassignment (value : Expr)
  | operation (operator : String) (left right : Expr)
  /-- Two nodes of which the left one cannot be applied. -/
  | notApplicable (left right : Node)
  | malformed (node : Node)

/-! ## Parts of trees -/

/-- Cuts a row at the leaves of one sort, which vanish. There is one piece more than cuts. -/
def cutAt (kind : TokenKind) : List Node → List (List Node)
  | [] => [[]]
  | node :: rest =>
    if node.isLeafOf kind then [] :: cutAt kind rest
    else match cutAt kind rest with
      | piece :: pieces => (node :: piece) :: pieces
      | [] => [[node]]

/-- The arguments that a node stands for: the pieces of a parenthesised list, and any other node
as it is. An empty list has none. -/
def Node.arguments : Node → List Node
  | .leaf t => [.leaf t]
  | .group children =>
    if Node.isLiteral children then [.group children]
    else if children.isEmpty then []
    else (cutAt .comma children).map .group

def Node.name? : Node → Option String
  | .leaf t => if t.kind = .name then some t.text else none
  | .group _ => none

/-- The names of a row of names with commas between them. -/
def commaNames? : List Node → Option (List String)
  | [] => none
  | [node] => node.name?.map ([·])
  | node :: separator :: rest =>
    if separator.isLeafOf .comma then
      match node.name?, commaNames? rest with
      | some name, some names => some (name :: names)
      | _, _ => none
    else none

/-- The parameters that a node names: one name, or names in parentheses. -/
def Node.parameters? : Node → Option (List String)
  | .leaf t => if t.kind = .name then some [t.text] else none
  | .group children =>
    if Node.isLiteral children then none
    else if children.isEmpty then some []
    else commaNames? children

/-- The name and the parameters of a node that has the shape of a call of one. -/
def Node.signature? : Node → Option (String × List String)
  | .group [callee, params] =>
    if Node.isLiteral [callee, params] then none
    else match callee.name?, params.parameters? with
      | some name, some names => some (name, names)
      | _, _ => none
  | _ => none

/-- The side of an assignment that is named and the side that is stored: `=` names its left side
and `=>` its right side. -/
def assignmentSides (operator : String) (left right : Node) : Node × Node :=
  if operator = "=" then (left, right) else (right, left)

/-! ## Sizes -/

theorem sizeOf_le_of_mem_cutAt {kind : TokenKind} {nodes piece : List Node}
    (h : piece ∈ cutAt kind nodes) : sizeOf piece ≤ sizeOf nodes := by
  induction nodes generalizing piece with
  | nil =>
    simp only [cutAt, List.mem_singleton] at h
    simp [h]
  | cons node rest ih =>
    simp only [cutAt] at h
    split at h
    · rcases List.mem_cons.mp h with rfl | hrest
      · simp; omega
      · have := ih hrest
        simp; omega
    · cases hc : cutAt kind rest with
      | nil =>
        simp only [hc, List.mem_singleton] at h
        subst h
        simp
        cases rest with
        | nil => simp
        | cons second rest => simp; omega
      | cons first others =>
        simp only [hc, List.mem_cons] at h
        rcases h with rfl | hothers
        · have hle : sizeOf first ≤ sizeOf rest := ih (by simp [hc])
          simp; omega
        · have hle : sizeOf piece ≤ sizeOf rest := ih (by simp [hc, hothers])
          simp; omega

/-- An argument is no larger than the node that it is cut from. -/
theorem sizeOf_le_of_mem_arguments {node arg : Node} (h : arg ∈ node.arguments) :
    sizeOf arg ≤ sizeOf node := by
  cases node with
  | leaf t =>
    simp only [Node.arguments, List.mem_singleton] at h
    simp [h]
  | group children =>
    simp only [Node.arguments] at h
    split at h
    · simp only [List.mem_singleton] at h
      simp [h]
    · split at h
      · cases h
      · obtain ⟨piece, hp, rfl⟩ := List.mem_map.mp h
        have := sizeOf_le_of_mem_cutAt hp
        simp; omega

theorem sizeOf_lt_of_mem_of_mem_cutAt {kind : TokenKind} {nodes piece : List Node} {node : Node}
    (hp : piece ∈ cutAt kind nodes) (hn : node ∈ piece) : sizeOf node < sizeOf nodes :=
  Nat.lt_of_lt_of_le (List.sizeOf_lt_of_mem hn) (sizeOf_le_of_mem_cutAt hp)

theorem sizeOf_drop_one_le (nodes : List Node) : sizeOf (nodes.drop 1) ≤ sizeOf nodes := by
  cases nodes <;> simp

theorem sizeOf_assignmentSides (operator : String) (left right : Node) :
    sizeOf (assignmentSides operator left right).2 ≤ sizeOf left + sizeOf right := by
  simp only [assignmentSides]
  split <;> simp

/-! ## Meaning -/

def Node.meaning : Node → Expr
  | .leaf t => if t.kind = .number then .number t.text else .name t.text
  | .group children =>
    if Node.isLiteral children then
      .literal ((cutAt .semicolon (children.drop 1)).attach.map fun ⟨row, _⟩ =>
        (row.filter fun node => !node.isLeafOf .comma).attach.map fun ⟨node, _⟩ => node.meaning)
    else match children with
      | [] => .nothing
      | [child] => child.meaning
      | [.leaf t, right] =>
        if t.kind = .operator ∧ t.text ∈ unaryOperators then
          if t.text = "-" then .negation right.meaning else .unknownUnary t.text
        else if t.kind = .name then
          .call t.text (right.arguments.attach.map fun ⟨arg, _⟩ => arg.meaning)
        else .notApplicable (.leaf t) right
      | [left, right] => .notApplicable left right
      | [left, .leaf t, right] =>
        if t.kind = .operator ∧ t.text ∈ assignmentOperators then
          let sides := assignmentSides t.text left right
          match sides.1.signature? with
          | some (function, params) => .definition function params sides.2
          | none =>
            match sides.1.name? with
            | some target => .assignment target sides.2.meaning
            | none => .misassignment sides.2.meaning
        else .operation t.text left.meaning right.meaning
      | _ => .malformed (.group children)
termination_by node => sizeOf node
decreasing_by
  · next hr hn =>
    have hlt := sizeOf_lt_of_mem_of_mem_cutAt hr (List.mem_filter.mp hn).1
    have hle := sizeOf_drop_one_le children
    simp; omega
  · simp; omega
  · simp; omega
  · next h =>
    have := sizeOf_le_of_mem_arguments h
    simp; omega
  · have := sizeOf_assignmentSides t.text left right
    simp; omega
  · have := sizeOf_assignmentSides t.text left right
    simp; omega
  · simp; omega
  · simp; omega

/-- Is the tree the definition of a function, perhaps in parentheses? -/
def Node.definesFunction : Node → Bool
  | .group [child] => child.definesFunction
  | .group [left, .leaf t, right] =>
    t.kind == .operator && assignmentOperators.contains t.text
      && (assignmentSides t.text left right).1.signature?.isSome
  | _ => false

end Reckoner
