import Reckoner.Token

/-!
# Trees of tokens

Every stage between the tokens of a line and its meaning works on the same trees: a leaf is a
token and a group is a row of nodes. A group that was written in square brackets keeps the opening
bracket as its first leaf, which tells a list of elements from every other group.
-/

namespace Reckoner

/-- A token, or a row of nodes that belong together. -/
inductive Node where
  | leaf (token : Token)
  | group (children : List Node)
deriving Repr

namespace Node

def isLeafOf (kind : TokenKind) : Node → Bool
  | leaf t => t.kind == kind
  | group _ => false

def isOperatorIn (texts : List String) : Node → Bool
  | leaf t => t.kind == .operator && texts.contains t.text
  | group _ => false

/-- Numbers, names and groups are operands; operators, separators and braces are not. -/
def isOperand : Node → Bool
  | leaf t => t.kind == .number || t.kind == .name
  | group _ => true

/-- Do the children of a group say that it was written in square brackets? -/
def isLiteral : List Node → Bool
  | first :: _ => first.isLeafOf .leftBracket
  | [] => false

end Node

/-! ## Text -/

mutual

/-- The tree as text: groups in parentheses, lists in square brackets, single blanks between the
nodes of a row. -/
def Node.flat : Node → String
  | .leaf t => t.text
  | .group children =>
    if Node.isLiteral children then "[" ++ " ".intercalate ((flatAll children).drop 1) ++ "]"
    else "(" ++ " ".intercalate (flatAll children) ++ ")"

def flatAll : List Node → List String
  | [] => []
  | node :: rest => node.flat :: flatAll rest

end

theorem flatAll_eq_map (nodes : List Node) : flatAll nodes = nodes.map Node.flat := by
  induction nodes with
  | nil => rfl
  | cons node rest ih => simp [flatAll, ih]

/-! ## Leaves -/

mutual

def Node.leaves : Node → List Token
  | .leaf t => [t]
  | .group children => leavesAll children

def leavesAll : List Node → List Token
  | [] => []
  | node :: rest => node.leaves ++ leavesAll rest

end

theorem leavesAll_eq_flatMap (nodes : List Node) : leavesAll nodes = nodes.flatMap Node.leaves := by
  induction nodes with
  | nil => rfl
  | cons node rest ih => simp [leavesAll, ih]

/-! ## Mapping every group -/

mutual

/-- Maps the children of every group, innermost groups first. -/
def Node.mapGroups (f : List Node → List Node) : Node → Node
  | .leaf t => .leaf t
  | .group children => .group (f (mapGroupsAll f children))

def mapGroupsAll (f : List Node → List Node) : List Node → List Node
  | [] => []
  | node :: rest => node.mapGroups f :: mapGroupsAll f rest

end

/-- Maps a row of nodes after the groups in it. -/
def everywhere (f : List Node → List Node) (nodes : List Node) : List Node :=
  f (mapGroupsAll f nodes)

theorem mapGroupsAll_eq_map (f : List Node → List Node) (nodes : List Node) :
    mapGroupsAll f nodes = nodes.map (Node.mapGroups f) := by
  induction nodes with
  | nil => rfl
  | cons node rest ih => simp [mapGroupsAll, ih]

end Reckoner
