import Mathlib.Data.List.Infix

set_option autoImplicit false

/-!
# File trees

A node is reached by the names on the way to it. Links are text that the tree itself does not
interpret.
-/

namespace FileTree

abbrev Bytes := List UInt8

def slash : UInt8 := 0x2F
def dot : Bytes := [0x2E]
def dotdot : Bytes := [0x2E, 0x2E]

structure Name where
  bytes : Bytes
  notEmpty : bytes ≠ []
  noSlash : slash ∉ bytes
  notDot : bytes ≠ dot
  notDotdot : bytes ≠ dotdot
  deriving DecidableEq

inductive Node where
  | file
  | link (target : Bytes)
  | dir (entries : List (Name × Node))

abbrev Position := List Name

def Node.child : Node → Bytes → Option (Name × Node)
  | .dir entries, name => entries.find? fun entry => entry.1.bytes == name
  | _, _ => none

def Node.find (node : Node) : Position → Option Node
  | [] => some node
  | name :: rest => (node.child name.bytes).bind fun entry => entry.2.find rest

def Node.isDirectory : Node → Bool
  | .dir _ => true
  | _ => false

def IsDirectory (tree : Node) (position : Position) : Prop :=
  (tree.find position).any Node.isDirectory = true

instance (tree : Node) (position : Position) : Decidable (IsDirectory tree position) :=
  inferInstanceAs (Decidable (_ = true))

theorem isDirectory_iff {tree : Node} {position : Position} :
    IsDirectory tree position ↔ ∃ entries, tree.find position = some (.dir entries) := by
  unfold IsDirectory
  cases tree.find position with
  | none => simp
  | some node => cases node <;> simp [Node.isDirectory]

structure Directory (tree : Node) where
  position : Position
  isDirectory : IsDirectory tree position

theorem child_name {node : Node} {name : Bytes} {entry : Name × Node}
    (found : node.child name = some entry) : entry.1.bytes = name := by
  cases node with
  | dir entries => simpa using List.find?_some found
  | file => cases found
  | link target => cases found

theorem find_append (node : Node) (front back : Position) :
    node.find (front ++ back) = (node.find front).bind (·.find back) := by
  induction front generalizing node with
  | nil => rfl
  | cons name rest ih =>
    rw [List.cons_append, Node.find, Node.find, Option.bind_assoc]
    exact Option.bind_congr fun entry _ => ih entry.2

theorem find_child {tree node : Node} {position : Position} {name : Bytes} {entry : Name × Node}
    (here : tree.find position = some node) (found : node.child name = some entry) :
    tree.find (position ++ [entry.1]) = some entry.2 := by
  rw [find_append, here, Option.bind_some, Node.find, child_name found, found]
  rfl

-- The components of a path, empty ones left out.
def parts (path : Bytes) : List Bytes := (path.splitOn slash).filter (!·.isEmpty)

def pathOf (position : Position) : Bytes :=
  if position = [] then [slash] else position.flatMap fun name => slash :: name.bytes

theorem parts_slash (front back : Bytes) :
    parts (front ++ slash :: back) = parts front ++ parts back := by
  rw [parts, List.splitOn_append_cons_self, List.filter_append, parts, parts]

theorem parts_name (name : Name) : parts name.bytes = [name.bytes] := by
  rw [parts, List.splitOn_eq_singleton name.noSlash]
  simp [name.notEmpty]

theorem parts_leading (path : Bytes) : parts (slash :: path) = parts path := by
  have cut := parts_slash [] path
  simpa [parts] using cut

-- Text that ends a component where it starts.
def Boundary (tail : Bytes) : Prop := tail = [] ∨ ∃ rest, tail = slash :: rest

theorem parts_boundary (name : Name) {tail : Bytes} (boundary : Boundary tail) :
    parts (name.bytes ++ tail) = name.bytes :: parts tail := by
  rcases boundary with rfl | ⟨rest, rfl⟩
  · rw [List.append_nil, parts_name]
    rfl
  · rw [parts_slash, parts_name, parts_leading]
    rfl

theorem boundary_names (position : Position) {tail : Bytes} (boundary : Boundary tail) :
    Boundary ((position.flatMap fun name => slash :: name.bytes) ++ tail) := by
  cases position with
  | nil => exact boundary
  | cons name rest => exact .inr ⟨_, rfl⟩

theorem parts_pathOf (position : Position) {tail : Bytes} (boundary : Boundary tail) :
    parts ((position.flatMap fun name => slash :: name.bytes) ++ tail) =
      position.map Name.bytes ++ parts tail := by
  induction position with
  | nil => rfl
  | cons name rest ih =>
    rw [List.flatMap_cons, List.append_assoc, List.cons_append, parts_leading,
      parts_boundary name (boundary_names rest boundary), ih]
    rfl

end FileTree
