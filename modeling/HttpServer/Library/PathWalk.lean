import HttpServer.Library.FileTree
import Mathlib.Data.List.TakeWhile

set_option autoImplicit false

/-!
# Walking a path beneath a root

One component at a time, the text of a link put in front of what is left of the path. A walk that
leads out of the root, or over a limit, is nobody's business here.
-/

namespace FileTree

def first (path : Bytes) : Bytes := path.takeWhile (· != slash)

def after (path : Bytes) : Bytes := path.dropWhile (· != slash)

def trimmed (path : Bytes) : Bytes := path.dropWhile (· == slash)

section

variable {path : Bytes}

theorem first_after (path : Bytes) : first path ++ after path = path :=
  List.takeWhile_append_dropWhile

theorem first_noSlash (path : Bytes) : slash ∉ first path := by
  intro member
  simpa using List.mem_takeWhile_imp member

theorem after_boundary (path : Bytes) : Boundary (after path) := by
  induction path with
  | nil => exact .inl rfl
  | cons u path ih =>
    by_cases isSlash : u = slash
    · exact .inr ⟨path, by rw [after, List.dropWhile_cons_of_neg (by simp [isSlash]), isSlash]⟩
    · rwa [after, List.dropWhile_cons_of_pos (by simpa using isSlash)]

theorem trimmed_slash (path : Bytes) : trimmed (slash :: path) = trimmed path :=
  List.dropWhile_cons_of_pos (by simp)

theorem trimmed_of_head (head : path.head? ≠ some slash) : trimmed path = path := by
  cases path with
  | nil => rfl
  | cons u path =>
    rw [trimmed, List.dropWhile_cons_of_neg]
    simpa using head

theorem trimmed_head (path : Bytes) : (trimmed path).head? ≠ some slash := by
  induction path with
  | nil => simp [trimmed]
  | cons u path ih =>
    by_cases isSlash : u = slash
    · rwa [isSlash, trimmed_slash]
    · rw [trimmed, List.dropWhile_cons_of_neg (by simpa using isSlash)]
      simpa using isSlash

theorem parts_trimmed (path : Bytes) : parts (trimmed path) = parts path := by
  induction path with
  | nil => rfl
  | cons u path ih =>
    by_cases isSlash : u = slash
    · rw [isSlash, trimmed_slash, ih, parts_leading]
    · rw [trimmed, List.dropWhile_cons_of_neg (by simpa using isSlash)]

theorem first_ne_nil (nonempty : path ≠ []) (head : path.head? ≠ some slash) : first path ≠ [] := by
  obtain ⟨u, rest, rfl⟩ := List.exists_cons_of_ne_nil nonempty
  have other : u ≠ slash := by simpa using head
  rw [first, List.takeWhile_cons_of_pos (by simpa using other)]
  exact List.cons_ne_nil _ _

theorem parts_component {component tail : Bytes} (notEmpty : component ≠ [])
    (noSlash : slash ∉ component) (boundary : Boundary tail) :
    parts (component ++ tail) = component :: parts tail := by
  have alone : parts component = [component] := by
    rw [parts, List.splitOn_eq_singleton noSlash]
    simp [notEmpty]
  rcases boundary with rfl | ⟨rest, rfl⟩
  · rw [List.append_nil, alone]
    rfl
  · rw [parts_slash, alone, parts_leading]
    rfl

theorem parts_first (nonempty : path ≠ []) (head : path.head? ≠ some slash) :
    parts path = first path :: parts (after path) := by
  conv_lhs => rw [← first_after path]
  exact parts_component (first_ne_nil nonempty head) (first_noSlash path) (after_boundary path)

theorem parts_eq_nil : parts path = [] ↔ trimmed path = [] := by
  rw [← parts_trimmed]
  constructor
  · intro none
    by_contra nonempty
    rw [parts_first nonempty (trimmed_head path)] at none
    cases none
  · intro none
    rw [none]
    rfl

theorem parts_append {front back : Bytes} (boundary : Boundary back) :
    parts (front ++ back) = parts front ++ parts back := by
  rcases boundary with rfl | ⟨rest, rfl⟩
  · rw [List.append_nil]
    exact (List.append_nil _).symm
  · rw [parts_slash, parts_leading]

end

structure Limits where
  links : Nat
  levels : Nat
  path : Nat

structure Place where
  dir : Position
  path : Bytes
  links : Nat

inductive Outcome where
  | found (position : Position)
  | missing
  | notDirectory
  deriving DecidableEq

inductive Turn where
  | goes (next : Place)
  | ended (outcome : Outcome)
  | leaves

-- What is left of an absolute path that goes down the root's own names.
def below : Position → Bytes → Option Bytes
  | [], path => some path
  | name :: root, path =>
      if first (trimmed path) = name.bytes then below root (after (trimmed path)) else none

def redirected (root dir : Position) (target : Bytes) : Option (Position × Bytes) :=
  if target.head? = some slash then (below root target).map (root, ·) else some (dir, target)

section

variable (limits : Limits) (tree : Node) (root : Position)

def advance (p : Place) : Turn :=
  let path := trimmed p.path
  if path = [] then .ended (.found p.dir)
  else if limits.levels < p.dir.length - root.length then .leaves
  else if first path = dot then .goes { p with path := after path }
  else if first path = dotdot then
    if p.dir = root then .leaves else .goes { p with dir := p.dir.dropLast, path := after path }
  else
    match (tree.find p.dir).bind (·.child (first path)) with
    | none => .ended .missing
    | some (name, .dir _) => .goes { p with dir := p.dir ++ [name], path := after path }
    | some (name, .file) =>
        .ended (if after path = [] then .found (p.dir ++ [name]) else .notDirectory)
    | some (_, .link target) =>
        if limits.links ≤ p.links ∨ limits.path ≤ target.length then .leaves
        else
          match redirected root p.dir target with
          | none => .leaves
          | some (dir, text) =>
              if limits.path ≤ (text ++ after path).length then .leaves
              else .goes { dir, path := text ++ after path, links := p.links + 1 }

/-- The walk from `p` stays inside and within the limits, and ends so. -/
inductive Resolves : Place → Outcome → Prop
  | ends {p : Place} {outcome : Outcome} (ended : advance limits tree root p = .ended outcome) :
      Resolves p outcome
  | goes {p next : Place} {outcome : Outcome} (move : advance limits tree root p = .goes next)
      (more : Resolves next outcome) : Resolves p outcome

end

theorem first_name (name : Name) {tail : Bytes} (boundary : Boundary tail) :
    trimmed (slash :: (name.bytes ++ tail)) = name.bytes ++ tail ∧
      first (name.bytes ++ tail) = name.bytes ∧ after (name.bytes ++ tail) = tail := by
  have inside : ∀ u ∈ name.bytes, (u != slash) = true := by
    intro u member
    rw [bne_iff_ne]
    rintro rfl
    exact name.noSlash member
  refine ⟨?_, ?_, ?_⟩
  · rw [trimmed_slash]
    apply trimmed_of_head
    obtain ⟨u, rest, bytes⟩ := List.exists_cons_of_ne_nil name.notEmpty
    have other := inside u (by simp [bytes])
    simpa [bytes] using other
  · rcases boundary with rfl | ⟨rest, rfl⟩
    · rw [List.append_nil, first, List.takeWhile_eq_self_iff]
      exact inside
    · rw [first, List.takeWhile_append_of_pos inside, List.takeWhile_cons_of_neg (by simp),
        List.append_nil]
  · rcases boundary with rfl | ⟨rest, rfl⟩
    · rw [List.append_nil, after, List.dropWhile_eq_nil_iff]
      exact inside
    · rw [after, List.dropWhile_append_of_pos inside, List.dropWhile_cons_of_neg (by simp)]

theorem below_names (root : Position) {tail : Bytes} (boundary : Boundary tail) :
    below root ((root.flatMap fun name => slash :: name.bytes) ++ tail) = some tail := by
  induction root with
  | nil => rfl
  | cons name root ih =>
    obtain ⟨start, here, rest⟩ := first_name name (boundary_names root boundary)
    rw [List.flatMap_cons, List.append_assoc, List.cons_append, below, start, here, if_pos rfl, rest,
      ih]

-- The text behind the root's own path is what is left of it.
theorem below_pathOf (root : Position) {tail : Bytes} (boundary : root = [] ∨ Boundary tail) :
    (below root (pathOf root ++ tail)).map trimmed = some (trimmed tail) := by
  unfold pathOf
  split_ifs with top
  · rw [top]
    exact congrArg some (trimmed_slash tail)
  · rw [below_names root (boundary.resolve_left top)]
    rfl

end FileTree
