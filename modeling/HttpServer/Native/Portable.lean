import HttpServer.Library.PathWalk
import HttpServer.Native.Components
import Mathlib.Logic.Relation

set_option autoImplicit false

/-!
# The resolver and the ordinary walk

Beneath a root the kernel walks a path as `PathWalk` does: `openat2` answers by it, and
`hs_open_components` is what stands in for `openat2` where there is none. The walk searches the
directories that it takes a component in; the loop searches them for names only, and opens those that
it passes, which it has to read.
-/

namespace HttpServer.Resolver

open FileTree

def limits : Limits where
  links := 40
  levels := 255
  path := pathMax

/-- The nodes that may be opened for reading, and the directories that may be searched. -/
structure Access where
  read : Position → Bool
  search : Position → Bool

def eacces : Errno := .other 13

-- A name is looked up in a directory that may be searched.
def Access.lookup (access : Access) (dir : Position) (name : Bytes) : Option Errno :=
  if name = [] ∨ access.search dir = true then none else some eacces

def Access.openat (access : Access) (tree : Node) (dir : Position) (name : Bytes)
    (directory : Bool) : Option Errno :=
  match access.lookup dir name, Resolver.openat tree dir name directory with
  | some errno, _ => some errno
  | none, .ok fd => if access.read fd then none else some eacces
  | none, .error _ => none

-- What the kernel refuses in the round of the loop that begins in `s`.
def refusals (access : Access) (tree : Node) (s : Scan) : Call → Option Errno
  | .fstatat => access.lookup (s.dirs s.depth) (component s.todo)
  | .readlinkat => access.lookup (s.dirs s.depth) (component s.todo)
  | .fdPath => none
  | .openat =>
      if s.todo = [] then access.openat tree (s.dirs s.depth) dot true
      else access.openat tree (s.dirs s.depth) (component s.todo) (remaining s.todo ≠ [])

section

variable (access : Access) (tree : Node) (root : Position)

/-- The kernel refuses only what the permissions do not allow. -/
inductive Returns : Progress → Except Errno Position → Prop
  | returned (result : Except Errno Position) : Returns (.returned result) result
  | scanning {s : Scan} {result : Except Errno Position}
      (more : Returns (scan tree root (refusals access tree s) s) result) :
      Returns (.scanning s) result

def Errno.isMissing (errno : Errno) : Prop := errno = .enoent ∨ errno = .enotdir

/-- What the ordinary open comes to: the outcome of the walk, or a search that is refused. -/
inductive Verdict where
  | ends (outcome : Outcome)
  | barred

/-- The node is opened, unless it may not be read; both errors of a failed walk leave the caller with
a missing file, and no other does. -/
def Answers : Except Errno Position → Verdict → Prop
  | .ok fd, .ends (.found position) => access.read position = true ∧ fd = position
  | .error errno, .ends (.found position) => access.read position = false ∧ ¬errno.isMissing
  | .error errno, .ends .missing => errno.isMissing
  | .error errno, .ends .notDirectory => errno.isMissing
  | .error errno, .barred => ¬errno.isMissing
  | .ok _, _ => False

def Opens (progress : Progress) (verdict : Verdict) : Prop :=
  ∃ result, Returns access tree root progress result ∧ Answers access result verdict

def named (relative : Bytes) : Bytes := if relative = [] then dot else relative

-- The entry that the first component of what is left names.
def lookup (p : Place) : Option (Name × Node) :=
  if trimmed p.path = [] ∨ first (trimmed p.path) = dot ∨ first (trimmed p.path) = dotdot then none
  else (tree.find p.dir).bind (·.child (first (trimmed p.path)))

/-- The walk may search the directory it is in, and those above the root that an absolute link
names. -/
structure Searched (p : Place) : Prop where
  here : trimmed p.path ≠ [] → access.search p.dir = true
  above : ∀ name target, lookup tree p = some (name, .link target) → target.head? = some slash →
    ∀ dir, dir <+: root → dir ≠ root → access.search dir = true

def Walks : Place → Place → Prop :=
  Relation.ReflTransGen fun p next => advance limits tree root p = .goes next

/-- The walk from `p` comes to its outcome, or is refused a search on the way. -/
inductive Judged (p : Place) (outcome : Outcome) : Verdict → Prop
  | ends (searched : ∀ q, Walks tree root p q → Searched access tree root q) :
      Judged p outcome (.ends outcome)
  | barred (q : Place) (walks : Walks tree root p q) (closed : ¬Searched access tree root q) :
      Judged p outcome .barred

/-- A relative path that fits is walked from the root, inside and within the limits. -/
structure Ordinary (relative : Bytes) (verdict : Verdict) : Prop where
  isRelative : relative.head? ≠ some slash
  fits : relative.length < pathMax
  judged : ∃ outcome, Resolves limits tree root ⟨root, named relative, 0⟩ outcome ∧
    Judged access tree root ⟨root, named relative, 0⟩ outcome verdict

-- The target spells the root's own path as the kernel does.
def Literal (target : Bytes) : Prop :=
  ∃ tail, target = pathOf root ++ tail ∧ (root = [] ∨ Boundary tail)

-- A link whose target fills the buffer, or is absolute and spelled otherwise.
def Refused (p : Place) : Prop :=
  ∃ name target, lookup tree p = some (name, .link target) ∧
    (target.length = pathMax - 1 ∨ target.head? = some slash ∧ ¬Literal root target)

-- A link to the root itself, or to nothing, with components behind it.
def Emptied (p : Place) : Prop :=
  ∃ name target dir text, lookup tree p = some (name, .link target) ∧
    redirected root p.dir target = some (dir, text) ∧ parts text = [] ∧
    parts (after (trimmed p.path)) ≠ []

-- A file with nothing but slashes behind it.
def Trailing (p : Place) : Prop :=
  ∃ name, lookup tree p = some (name, .file) ∧ after (trimmed p.path) ≠ [] ∧
    parts (after (trimmed p.path)) = []

-- A directory that may not be read, with components behind it.
def Unread (p : Place) : Prop :=
  ∃ name entries, lookup tree p = some (name, .dir entries) ∧
    parts (after (trimmed p.path)) ≠ [] ∧ access.read (p.dir ++ [name]) = false

-- The directory may not be searched, and the component is a name, or a dot and the last.
def Closed (p : Place) : Prop :=
  trimmed p.path ≠ [] ∧ access.search p.dir = false ∧ first (trimmed p.path) ≠ dotdot ∧
    (first (trimmed p.path) = dot → parts (after (trimmed p.path)) = [])

/-- A turn of the walk that follows no such link, passes no such directory and is not stopped. -/
structure Smooth (p next : Place) : Prop where
  move : advance limits tree root p = .goes next
  notRefused : ¬Refused tree root p
  notEmptied : ¬Emptied tree root p
  notUnread : ¬Unread access tree p
  notClosed : ¬Closed access p

-- The ordinary open is refused, by a directory on the way or by the node itself.
def Denied : Verdict → Prop
  | .ends (.found position) => access.read position = false
  | .ends _ => False
  | .barred => True

def Fails (verdict : Verdict) : Prop := verdict = .ends .missing ∨ verdict = .ends .notDirectory

-- What is found at the end may not be read, or the file in front of the last slashes.
def Shut (p : Place) (outcome : Outcome) : Prop :=
  Denied access (.ends outcome) ∨ ∃ name, lookup tree p = some (name, .file) ∧
    parts (after (trimmed p.path)) = [] ∧ access.read (p.dir ++ [name]) = false

-- Where a walk ends the loop ends as well. It takes no notice of slashes behind a file, nor of the
-- searches that were refused the walk on the way.
def Concurs (p : Place) (outcome : Outcome) (verdict : Verdict) : Prop :=
  verdict = .ends outcome ∧ ¬Trailing tree p ∨ verdict = .barred ∧ Shut access tree p outcome

/-- The walk is smooth to its end, where the loop and the open concur. Or it is smooth as far as a link
that leaves no text, and fails; or as far as a link or a directory that stops the loop, and the open is
refused as well. -/
def Agreeable (p : Place) (verdict : Verdict) : Prop :=
  ∃ q, Relation.ReflTransGen (Smooth access tree root) p q ∧
    ((∃ outcome, advance limits tree root q = .ended outcome ∧ ¬Closed access q ∧
        Concurs access tree q outcome verdict) ∨
      Emptied tree root q ∧ ¬Refused tree root q ∧ ¬Closed access q ∧ Fails verdict ∨
      (Refused tree root q ∨ Unread access tree q ∨ Closed access q) ∧ Denied access verdict)

end

section

variable {access : Access} {tree : Node} {root : Position}

theorem returns_exists (progress : Progress) : ∃ result, Returns access tree root progress result := by
  induction progress using (InvImage.wf Progress.rank wellFounded_lt).induction with
  | _ progress ih =>
    cases progress with
    | returned result => exact ⟨result, .returned result⟩
    | scanning s =>
      obtain ⟨result, more⟩ := ih (scan tree root (refusals access tree s) s) (rank_scan _ s)
      exact ⟨result, .scanning more⟩

theorem Returns.unique {progress : Progress} {result other : Except Errno Position}
    (one : Returns access tree root progress result) (two : Returns access tree root progress other) :
    result = other := by
  induction one with
  | returned result =>
    cases two
    rfl
  | scanning more ih =>
    cases two with
    | scanning more' => exact ih more'

-- What is returned is what the loop comes to.
theorem Returns.reachable {relative : Bytes} {progress : Progress} {result : Except Errno Position}
    (returns : Returns access tree root progress result)
    (reached : (openComponents tree root relative).Reachable progress) :
    (openComponents tree root relative).Reachable (.returned result) := by
  induction returns with
  | returned result => exact reached
  | @scanning s _ more ih =>
    have move : (openComponents tree root relative).step (refusals access tree s) (.scanning s) =
        some (scan tree root (refusals access tree s) s) := rfl
    exact ih (reached.next move)

theorem opens_returned {result : Except Errno Position} {verdict : Verdict} :
    Opens access tree root (.returned result) verdict ↔ Answers access result verdict := by
  constructor
  · rintro ⟨other, returns, answers⟩
    cases returns
    exact answers
  · exact fun answers => ⟨result, .returned result, answers⟩

theorem opens_scanning {s : Scan} {verdict : Verdict} :
    Opens access tree root (.scanning s) verdict ↔
      Opens access tree root (scan tree root (refusals access tree s) s) verdict := by
  constructor
  · rintro ⟨result, returns, answers⟩
    cases returns with
    | scanning more => exact ⟨result, more, answers⟩
  · rintro ⟨result, returns, answers⟩
    exact ⟨result, .scanning returns, answers⟩

section

variable {p next : Place} {verdict : Verdict}

theorem agreeable_smooth (smooth : Smooth access tree root p next) :
    Agreeable access tree root p verdict ↔ Agreeable access tree root next verdict := by
  constructor
  · rintro ⟨q, steps, holds⟩
    rcases steps.cases_head with rfl | ⟨middle, ⟨move, -⟩, more⟩
    · rcases holds with ⟨outcome, ended, -⟩ | ⟨emptied, -⟩ | ⟨refused | unread | closed, -⟩
      · rw [smooth.move] at ended
        cases ended
      · exact absurd emptied smooth.notEmptied
      · exact absurd refused smooth.notRefused
      · exact absurd unread smooth.notUnread
      · exact absurd closed smooth.notClosed
    · rw [smooth.move] at move
      obtain rfl := Turn.goes.inj move
      exact ⟨q, more, holds⟩
  · rintro ⟨q, steps, holds⟩
    exact ⟨q, .head smooth steps, holds⟩

theorem agreeable_here (rough : ∀ next, ¬Smooth access tree root p next) :
    Agreeable access tree root p verdict ↔
      (∃ outcome, advance limits tree root p = .ended outcome ∧ ¬Closed access p ∧
        Concurs access tree p outcome verdict) ∨
        Emptied tree root p ∧ ¬Refused tree root p ∧ ¬Closed access p ∧ Fails verdict ∨
        (Refused tree root p ∨ Unread access tree p ∨ Closed access p) ∧ Denied access verdict := by
  constructor
  · rintro ⟨q, steps, holds⟩
    rcases steps.cases_head with rfl | ⟨middle, smooth, -⟩
    · exact holds
    · exact absurd smooth (rough middle)
  · exact fun holds => ⟨p, .refl, holds⟩

end

/-- The loop is where the walk is; its text may want slashes that the walk's has. Every directory
that was left downwards was searched, and so was the last one. -/
structure Follows (access : Access) (tree : Node) (root : Position) (s : Scan) (p : Place) :
    Prop where
  directory : IsDirectory tree p.dir
  inside : root <+: p.dir
  low : 0 ≤ s.depth
  height : (p.dir.length : Int) = root.length + s.depth
  stack : ∀ i, 0 ≤ i → i ≤ s.depth → s.dirs i = p.dir.take (root.length + i.toNat)
  links : s.links = p.links
  sublist : s.todo.Sublist p.path
  parts : parts s.todo = parts p.path
  head : s.todo.head? ≠ some slash
  below : ∀ i, 0 ≤ i → i < s.depth → access.search (s.dirs i) = true
  done : s.todo = [] → access.search (s.dirs s.depth) = true

theorem sublist_trimmed {text path : Bytes} (head : text.head? ≠ some slash)
    (sublist : text.Sublist path) : text.Sublist (trimmed path) := by
  induction path with
  | nil => exact sublist
  | cons u path ih =>
    by_cases isSlash : u = slash
    · rw [isSlash, trimmed_slash]
      cases sublist with
      | cons _ rest => exact ih rest
      | cons_cons _ rest => simp [isSlash] at head
    · rwa [trimmed, List.dropWhile_cons_of_neg (by simpa using isSlash)]

section

variable {p : Place}

theorem entry_child_of {dir : Position} {name : Bytes} (directory : IsDirectory tree dir)
    (notEmpty : name ≠ []) (notDot : name ≠ dot) (notDotdot : name ≠ dotdot) :
    entry tree dir name =
      match (tree.find dir).bind (·.child name) with
      | some (name, node) => .ok (dir ++ [name], node)
      | none => .error .enoent := by
  obtain ⟨entries, here⟩ := isDirectory_iff.mp directory
  unfold entry
  simp only [here, notEmpty, notDot, notDotdot, if_false, Option.bind_some]
  cases (Node.dir entries).child name <;> rfl

theorem lookup_eq (nonempty : trimmed p.path ≠ []) (notDot : first (trimmed p.path) ≠ dot)
    (notDotdot : first (trimmed p.path) ≠ dotdot) :
    lookup tree p = (tree.find p.dir).bind (·.child (first (trimmed p.path))) := by
  rw [lookup, if_neg]
  simp [nonempty, notDot, notDotdot]

theorem lookup_some {name : Name} {node : Node} (found : lookup tree p = some (name, node)) :
    trimmed p.path ≠ [] ∧ first (trimmed p.path) ≠ dot ∧ first (trimmed p.path) ≠ dotdot ∧
      (tree.find p.dir).bind (·.child (first (trimmed p.path))) = some (name, node) := by
  rw [lookup, Option.ite_none_left_eq_some, not_or, not_or] at found
  exact ⟨found.1.1, found.1.2.1, found.1.2.2, found.2⟩

theorem isDirectory_dropLast {dir : Position} (directory : IsDirectory tree dir) :
    IsDirectory tree dir.dropLast := by
  rcases List.eq_nil_or_concat' dir with rfl | ⟨front, name, rfl⟩
  · exact directory
  · rw [List.dropLast_concat]
    obtain ⟨entries, found⟩ := isDirectory_iff.mp directory
    rw [find_append] at found
    obtain ⟨node, here, below⟩ := Option.bind_eq_some_iff.mp found
    -- Only a directory has anything below it.
    cases node with
    | dir entries => exact isDirectory_iff.mpr ⟨entries, here⟩
    | file => cases below
    | link target => cases below

theorem isDirectory_child {name : Name} {entries : List (Name × Node)}
    (found : lookup tree p = some (name, .dir entries)) : IsDirectory tree (p.dir ++ [name]) := by
  obtain ⟨-, -, -, child⟩ := lookup_some found
  obtain ⟨node, here, child⟩ := Option.bind_eq_some_iff.mp child
  rw [IsDirectory, find_child here child]
  rfl

end

def spliced (text rest : Bytes) : Bytes := text ++ (if rest = [] then [] else [slash]) ++ rest

theorem spliced_sublist {text rest tail : Bytes} (sublist : rest.Sublist tail)
    (head : rest.head? ≠ some slash) (boundary : Boundary tail) :
    (spliced (trimmed text) rest).Sublist (text ++ tail) := by
  rw [spliced, List.append_assoc]
  apply List.Sublist.append (List.dropWhile_sublist _)
  split_ifs with none
  · rw [none]
    exact List.nil_sublist _
  · obtain rfl | ⟨more, rfl⟩ := boundary
    · exact absurd (List.sublist_nil.mp sublist) none
    · cases sublist with
      | cons _ rest => exact rest.cons_cons slash
      | cons_cons _ rest => simp at head

theorem spliced_parts {text rest tail : Bytes} (same : parts rest = parts tail)
    (boundary : Boundary tail) : parts (spliced (trimmed text) rest) = parts (text ++ tail) := by
  rw [spliced, List.append_assoc, parts_append boundary]
  by_cases none : rest = []
  · rw [if_pos none, List.nil_append, parts_append (.inl none), parts_trimmed, same]
  · rw [if_neg none, List.singleton_append, parts_append (.inr ⟨rest, rfl⟩), parts_trimmed,
      parts_leading, same]

theorem spliced_head {text rest : Bytes} (kept : parts text = [] → rest = []) :
    (spliced (trimmed text) rest).head? ≠ some slash := by
  unfold spliced
  by_cases none : trimmed text = []
  · rw [none, kept (parts_eq_nil.mpr none)]
    simp
  · rw [List.append_assoc, List.head?_append_of_ne_nil _ none]
    exact trimmed_head text

theorem redirect_literal {target tail : Bytes} (isAbsolute : target.head? = some slash)
    (spelled : target = pathOf root ++ tail) (boundary : root = [] ∨ Boundary tail) :
    redirect root none target = some (trimmed tail, true) := by
  unfold redirect
  rw [if_pos isAbsolute]
  simp only [attempt, pure, Except.pure, trimSlashes_pathOf, spelled]
  have front : (pathOf root).isPrefixOf (pathOf root ++ tail) = true :=
    List.isPrefixOf_iff_prefix.mpr (List.prefix_append _ _)
  have ends : (decide (1 < (pathOf root).length) &&
      (pathOf root ++ tail)[(pathOf root).length]?.any (· != slash)) = false := by
    rcases boundary with rfl | rfl | ⟨rest, rfl⟩
    · rfl
    · simp
    · simp
  rw [front, ends, List.drop_left]
  rfl

theorem redirect_other {target : Bytes} (isAbsolute : target.head? = some slash)
    (other : ¬Literal root target) : redirect root none target = none := by
  unfold redirect
  rw [if_pos isAbsolute]
  simp only [attempt, pure, Except.pure, trimSlashes_pathOf, ite_eq_left_iff]
  intro kept
  rw [Bool.or_eq_true, not_or, Bool.not_eq_true', Bool.not_eq_false,
    List.isPrefixOf_iff_prefix] at kept
  obtain ⟨⟨tail, rfl⟩, boundary⟩ := kept
  refine absurd ⟨tail, rfl, ?_⟩ other
  by_cases top : root = []
  · exact .inl top
  · right
    cases tail with
    | nil => exact .inl rfl
    | cons u tail =>
      have same : u = slash := by simpa [pathOf_long top] using boundary
      exact .inr ⟨tail, by rw [same]⟩

-- A target that is not refused leads the loop where it leads the walk.
theorem redirect_eq {target text : Bytes} {dir next : Position}
    (spelled : target.head? = some slash → Literal root target)
    (leads : redirected root dir target = some (next, text)) :
    redirect root none target = some (trimmed text, decide (target.head? = some slash)) ∧
      next = if target.head? = some slash then root else dir := by
  unfold redirected at leads
  by_cases isAbsolute : target.head? = some slash
  · obtain ⟨tail, same, boundary⟩ := spelled isAbsolute
    rw [if_pos isAbsolute] at leads
    obtain ⟨rest, under, here⟩ := Option.map_eq_some_iff.mp leads
    obtain ⟨rfl, rfl⟩ := Prod.mk.inj here
    have cut := below_pathOf root boundary
    rw [← same, under, Option.map_some, Option.some.injEq] at cut
    rw [redirect_literal isAbsolute same boundary, cut]
    simp [isAbsolute]
  · rw [if_neg isAbsolute] at leads
    obtain ⟨rfl, rfl⟩ := Prod.mk.inj (Option.some.inj leads)
    rw [redirect, if_neg isAbsolute, trimmed_of_head isAbsolute]
    simp [isAbsolute]

theorem lookup_granted {dir : Position} (search : access.search dir = true) (name : Bytes) :
    access.lookup dir name = none :=
  if_pos (.inr search)

theorem attempt_openat {dir : Position} {name : Bytes} {directory : Bool}
    (search : access.search dir = true) :
    attempt (access.openat tree dir name directory) (Resolver.openat tree dir name directory) =
      match Resolver.openat tree dir name directory with
      | .ok fd => if access.read fd = true then .ok fd else .error eacces
      | .error errno => .error errno := by
  unfold Access.openat
  rw [lookup_granted search]
  cases Resolver.openat tree dir name directory with
  | error errno => rfl
  | ok fd =>
    dsimp only
    split_ifs <;> rfl

namespace Follows

variable {s : Scan} {p : Place}

theorem top (follows : Follows access tree root s p) : s.dirs s.depth = p.dir := by
  have low := follows.low
  have height := follows.height
  rw [follows.stack s.depth low (Int.le_refl _), List.take_of_length_le]
  omega

theorem finished (follows : Follows access tree root s p) : s.todo = [] ↔ trimmed p.path = [] := by
  rw [← parts_eq_nil, ← follows.parts, parts_eq_nil, trimmed_of_head follows.head]

-- The loop's first component is the walk's, and so is what follows.
theorem text (follows : Follows access tree root s p) (nonempty : s.todo ≠ []) :
    component s.todo = first (trimmed p.path) ∧
      (remaining s.todo).Sublist (after (trimmed p.path)) ∧
      FileTree.parts (remaining s.todo) = FileTree.parts (after (trimmed p.path)) ∧
      (remaining s.todo).head? ≠ some slash := by
  have present := mt follows.finished.mpr nonempty
  have both := follows.parts
  rw [parts_first nonempty follows.head, ← parts_trimmed p.path,
    parts_first present (trimmed_head p.path)] at both
  obtain ⟨here, rest⟩ := List.cons.inj both
  have sublist := sublist_trimmed follows.head follows.sublist
  rw [← first_after s.todo, ← first_after (trimmed p.path), here,
    List.append_sublist_append_left] at sublist
  refine ⟨here, (List.dropWhile_sublist _).trans sublist, ?_, trimmed_head _⟩
  rw [← rest]
  exact parts_trimmed _

theorem entry_eq (follows : Follows access tree root s p) (nonempty : trimmed p.path ≠ [])
    (notDot : first (trimmed p.path) ≠ dot) (notDotdot : first (trimmed p.path) ≠ dotdot) :
    entry tree (s.dirs s.depth) (component s.todo) =
      match lookup tree p with
      | some (name, node) => .ok (p.dir ++ [name], node)
      | none => .error .enoent := by
  obtain ⟨here, -⟩ := follows.text (mt follows.finished.mp nonempty)
  rw [follows.top, here, lookup_eq nonempty notDot notDotdot]
  exact entry_child_of follows.directory (first_ne_nil nonempty (trimmed_head p.path)) notDot
    notDotdot

theorem scan_eq (follows : Follows access tree root s p) (nonempty : trimmed p.path ≠ [])
    (notDot : first (trimmed p.path) ≠ dot) (notDotdot : first (trimmed p.path) ≠ dotdot)
    (search : access.search p.dir = true) :
    scan tree root (refusals access tree s) s =
      match lookup tree p with
      | none => .returned (.error .enoent)
      | some (_, .link _) => Resolver.followLink tree root (refusals access tree s) s
          (component s.todo) (remaining s.todo)
      | some _ => Resolver.descend tree (refusals access tree s) s (component s.todo)
          (remaining s.todo) := by
  have some := mt follows.finished.mp nonempty
  obtain ⟨here, -⟩ := follows.text some
  have granted : refusals access tree s .fstatat = none := by
    rw [refusals, follows.top, lookup_granted search]
  unfold scan
  rw [if_neg some]
  dsimp only
  rw [if_neg (here ▸ notDot), if_neg (here ▸ notDotdot), granted, fstatat,
    follows.entry_eq nonempty notDot notDotdot]
  cases lookup tree p with
  | none => rfl
  | some found =>
    obtain ⟨name, node⟩ := found
    cases node <;> rfl

theorem scan_barred (follows : Follows access tree root s p) (nonempty : trimmed p.path ≠ [])
    (notDot : first (trimmed p.path) ≠ dot) (notDotdot : first (trimmed p.path) ≠ dotdot)
    (closed : access.search p.dir = false) :
    scan tree root (refusals access tree s) s = .returned (.error eacces) := by
  have some := mt follows.finished.mp nonempty
  obtain ⟨here, -⟩ := follows.text some
  have notEmpty : component s.todo ≠ [] := by
    rw [here]
    exact first_ne_nil nonempty (trimmed_head p.path)
  have refused : refusals access tree s .fstatat = eacces := by
    rw [refusals, follows.top, Access.lookup, if_neg]
    simp [notEmpty, closed]
  unfold scan
  rw [if_neg some]
  dsimp only
  rw [if_neg (here ▸ notDot), if_neg (here ▸ notDotdot), refused]
  rfl

theorem scan_finished (follows : Follows access tree root s p) (none : trimmed p.path = []) :
    scan tree root (refusals access tree s) s =
      .returned (if access.read p.dir = true then .ok p.dir else .error eacces) := by
  obtain ⟨entries, here⟩ := isDirectory_iff.mp follows.directory
  have notEmpty : dot ≠ [] := by decide
  have finished := follows.finished.mpr none
  have search := follows.done finished
  have opened : Resolver.openat tree p.dir dot true = .ok p.dir := by
    simp only [Resolver.openat, entry, here, notEmpty, if_true, if_false]
    rfl
  rw [follows.top] at search
  unfold scan refusals
  rw [if_pos finished, if_pos finished, follows.top, attempt_openat search, opened]

theorem shorter (follows : Follows access tree root s p) (nonempty : trimmed p.path ≠ [])
    (search : FileTree.parts (after (trimmed p.path)) = [] → access.search p.dir = true) :
    Follows access tree root { s with todo := remaining s.todo }
      { p with path := after (trimmed p.path) } := by
  obtain ⟨-, sublist, parts, head⟩ := follows.text (mt follows.finished.mp nonempty)
  refine { follows with sublist, parts, head, done := fun none => ?_ }
  have last : FileTree.parts (after (trimmed p.path)) = [] := by
    rw [← parts, parts_eq_nil, trimmed_of_head head]
    exact none
  exact follows.top ▸ search last

theorem scan_dot (follows : Follows access tree root s p) (nonempty : trimmed p.path ≠ [])
    (isDot : first (trimmed p.path) = dot) :
    scan tree root (refusals access tree s) s = .scanning { s with todo := remaining s.todo } := by
  have some := mt follows.finished.mp nonempty
  obtain ⟨here, -⟩ := follows.text some
  unfold scan
  rw [if_neg some]
  dsimp only
  rw [if_pos (here.trans isDot)]

theorem deep (follows : Follows access tree root s p) (elsewhere : p.dir ≠ root) :
    0 < s.depth := by
  have height := follows.height
  have low := follows.low
  by_contra bottom
  exact elsewhere (follows.inside.eq_of_length (by omega)).symm

theorem up (follows : Follows access tree root s p) (nonempty : trimmed p.path ≠ [])
    (elsewhere : p.dir ≠ root) :
    Follows access tree root { s with depth := s.depth - 1, todo := remaining s.todo }
      { p with dir := p.dir.dropLast, path := after (trimmed p.path) } := by
  have deep := follows.deep elsewhere
  have height := follows.height
  obtain ⟨-, sublist, parts, head⟩ := follows.text (mt follows.finished.mp nonempty)
  refine { follows with
    sublist, parts, head
    directory := isDirectory_dropLast follows.directory
    below := fun i first last => follows.below i first (by dsimp only at last; omega)
    done := fun _ => follows.below (s.depth - 1) (by omega) (by omega)
    inside := ?_
    low := ?_
    height := ?_
    stack := ?_ }
  · dsimp only
    rw [List.dropLast_eq_take, List.prefix_take_iff]
    exact ⟨follows.inside, by omega⟩
  · dsimp only
    omega
  · dsimp only
    rw [List.length_dropLast]
    omega
  · intro i first last
    dsimp only at last ⊢
    rw [follows.stack i first (by omega), List.dropLast_eq_take, List.take_take,
      Nat.min_eq_left (by omega)]

theorem scan_up (follows : Follows access tree root s p) (nonempty : trimmed p.path ≠ [])
    (isUp : first (trimmed p.path) = dotdot) (elsewhere : p.dir ≠ root) :
    scan tree root (refusals access tree s) s =
      .scanning { s with depth := s.depth - 1, todo := remaining s.todo } := by
  have some := mt follows.finished.mp nonempty
  have deep := follows.deep elsewhere
  obtain ⟨here, -⟩ := follows.text some
  have notDot : component s.todo ≠ dot := by
    rw [here, isUp]
    decide
  unfold scan
  rw [if_neg some]
  dsimp only
  rw [if_neg notDot, if_pos (here.trans isUp), if_neg (by omega)]

theorem remaining_eq_nil (follows : Follows access tree root s p) (nonempty : trimmed p.path ≠ []) :
    remaining s.todo = [] ↔ FileTree.parts (after (trimmed p.path)) = [] := by
  obtain ⟨-, -, parts, head⟩ := follows.text (mt follows.finished.mp nonempty)
  rw [← parts, parts_eq_nil, trimmed_of_head head]

theorem opened (follows : Follows access tree root s p) {name : Name} {node : Node}
    (found : lookup tree p = some (name, node)) (search : access.search p.dir = true) :
    attempt (refusals access tree s .openat)
        (openat tree (s.dirs s.depth) (component s.todo) (remaining s.todo ≠ [])) =
      match node with
      | .link _ => .error .eloop
      | .file =>
          if remaining s.todo ≠ [] then .error .enotdir
          else if access.read (p.dir ++ [name]) = true then .ok (p.dir ++ [name])
          else .error eacces
      | .dir _ =>
          if access.read (p.dir ++ [name]) = true then .ok (p.dir ++ [name])
          else .error eacces := by
  obtain ⟨nonempty, notDot, notDotdot, -⟩ := lookup_some found
  have seen := follows.entry_eq nonempty notDot notDotdot
  rw [found] at seen
  rw [← follows.top] at search
  unfold refusals
  rw [if_neg (mt follows.finished.mp nonempty), attempt_openat search]
  unfold Resolver.openat
  rw [seen]
  cases node with
  | file =>
    by_cases final : remaining s.todo = []
    · simp only [final, ne_eq, not_true, decide_false, if_false]
      rfl
    · simp only [final, ne_eq, not_false_iff, decide_true, if_true]
      rfl
  | link target => rfl
  | dir entries => rfl

theorem scan_file (follows : Follows access tree root s p) {name : Name}
    (found : lookup tree p = some (name, .file)) (search : access.search p.dir = true) :
    scan tree root (refusals access tree s) s = .returned
      (if remaining s.todo ≠ [] then .error .enotdir
        else if access.read (p.dir ++ [name]) = true then .ok (p.dir ++ [name])
        else .error eacces) := by
  obtain ⟨nonempty, notDot, notDotdot, -⟩ := lookup_some found
  rw [follows.scan_eq nonempty notDot notDotdot search, found]
  dsimp only
  unfold Resolver.descend
  rw [follows.opened found search]
  dsimp only
  by_cases final : remaining s.todo = []
  · rw [if_neg (not_not_intro final)]
    split_ifs <;> rfl
  · rw [if_pos final]
    rfl

theorem scan_entered (follows : Follows access tree root s p) {name : Name}
    {entries : List (Name × Node)} (found : lookup tree p = some (name, .dir entries))
    (search : access.search p.dir = true) :
    scan tree root (refusals access tree s) s =
      if access.read (p.dir ++ [name]) = true then
        if remaining s.todo = [] then .returned (.ok (p.dir ++ [name]))
        else if s.depth = 255 then .returned (.error .eloop)
        else .scanning { s with
          dirs := Function.update s.dirs (s.depth + 1) (p.dir ++ [name])
          depth := s.depth + 1
          todo := remaining s.todo }
      else .returned (.error eacces) := by
  obtain ⟨nonempty, notDot, notDotdot, -⟩ := lookup_some found
  rw [follows.scan_eq nonempty notDot notDotdot search, found]
  dsimp only
  unfold Resolver.descend
  rw [follows.opened found search]
  dsimp only
  split_ifs <;> rfl

theorem scan_final (follows : Follows access tree root s p) {name : Name}
    {entries : List (Name × Node)} (found : lookup tree p = some (name, .dir entries))
    (search : access.search p.dir = true) (last : remaining s.todo = []) :
    scan tree root (refusals access tree s) s = .returned
      (if access.read (p.dir ++ [name]) = true then .ok (p.dir ++ [name]) else .error eacces) := by
  rw [follows.scan_entered found search, if_pos last]
  split_ifs <;> rfl

theorem scan_unread (follows : Follows access tree root s p) {name : Name}
    {entries : List (Name × Node)} (found : lookup tree p = some (name, .dir entries))
    (search : access.search p.dir = true) (unread : access.read (p.dir ++ [name]) = false) :
    scan tree root (refusals access tree s) s = .returned (.error eacces) := by
  rw [follows.scan_entered found search, if_neg (ne_true_of_eq_false unread)]

theorem scan_directory (follows : Follows access tree root s p) {name : Name}
    {entries : List (Name × Node)} (found : lookup tree p = some (name, .dir entries))
    (search : access.search p.dir = true) (readable : access.read (p.dir ++ [name]) = true)
    (goesOn : remaining s.todo ≠ []) (room : s.depth ≠ 255) :
    scan tree root (refusals access tree s) s = .scanning { s with
      dirs := Function.update s.dirs (s.depth + 1) (p.dir ++ [name])
      depth := s.depth + 1
      todo := remaining s.todo } := by
  rw [follows.scan_entered found search, if_pos readable, if_neg goesOn, if_neg room]

theorem down (follows : Follows access tree root s p) {name : Name} {entries : List (Name × Node)}
    (found : lookup tree p = some (name, .dir entries)) (search : access.search p.dir = true)
    (goesOn : remaining s.todo ≠ []) :
    Follows access tree root
      { s with
        dirs := Function.update s.dirs (s.depth + 1) (p.dir ++ [name])
        depth := s.depth + 1
        todo := remaining s.todo }
      { p with dir := p.dir ++ [name], path := after (trimmed p.path) } := by
  obtain ⟨nonempty, -⟩ := lookup_some found
  have low := follows.low
  have height := follows.height
  obtain ⟨-, sublist, parts, head⟩ := follows.text (mt follows.finished.mp nonempty)
  refine { follows with
    sublist, parts, head
    directory := isDirectory_child found
    inside := follows.inside.trans (List.prefix_append _ _)
    low := ?_
    height := ?_
    stack := ?_
    below := ?_
    done := fun none => absurd none goesOn }
  · dsimp only
    omega
  · dsimp only
    rw [List.length_append, List.length_singleton]
    push_cast
    omega
  · intro i first last
    dsimp only at last ⊢
    by_cases pushed : i = s.depth + 1
    · rw [pushed, Function.update_self, List.take_of_length_le]
      rw [List.length_append, List.length_singleton]
      omega
    · rw [Function.update_of_ne pushed, follows.stack i first (by omega),
        List.take_append_of_le_length (by omega)]
  · intro i first last
    dsimp only at last ⊢
    rw [Function.update_of_ne (by omega)]
    rcases Int.lt_or_eq_of_le (Int.le_of_lt_add_one last) with lower | rfl
    · exact follows.below i first lower
    · rwa [follows.top]

theorem scan_link (follows : Follows access tree root s p) {name : Name} {target : Bytes}
    (found : lookup tree p = some (name, .link target)) (search : access.search p.dir = true)
    (few : p.links < 40) (short : target.length < pathMax) :
    scan tree root (refusals access tree s) s =
      if target.length = pathMax - 1 then .returned (.error .enametoolong)
      else
        match redirect root none target with
        | none => .returned (.error .eperm)
        | some (text, restart) =>
            if pathMax ≤ (spliced text (remaining s.todo)).length then
              .returned (.error .enametoolong)
            else .scanning { s with
              links := s.links + 1
              todo := spliced text (remaining s.todo)
              depth := if restart then min s.depth 0 else s.depth } := by
  obtain ⟨nonempty, notDot, notDotdot, -⟩ := lookup_some found
  have links := follows.links
  rw [follows.scan_eq nonempty notDot notDotdot search, found]
  have granted : refusals access tree s .readlinkat = none := by
    rw [refusals, follows.top, lookup_granted search]
  have path : refusals access tree s .fdPath = none := rfl
  have seen := follows.entry_eq nonempty notDot notDotdot
  rw [found] at seen
  have whole : target.take (pathMax - 1) = target := List.take_of_length_le (by omega)
  dsimp only
  unfold Resolver.followLink readlinkat
  dsimp only
  rw [if_neg (by omega), seen, granted, path]
  simp only [attempt, bind, Except.bind, pure, Except.pure, whole]
  rfl

-- A link followed puts its text in front of what is left, for the loop as for the walk.
theorem follow (follows : Follows access tree root s p) (isRoot : IsDirectory tree root)
    (nonempty : trimmed p.path ≠ []) (search : access.search p.dir = true) {target text : Bytes}
    {dir : Position} (leads : dir = if target.head? = some slash then root else p.dir)
    (kept : FileTree.parts text = [] → FileTree.parts (after (trimmed p.path)) = []) :
    Follows access tree root
      { s with
        links := s.links + 1
        todo := spliced (trimmed text) (remaining s.todo)
        depth := if decide (target.head? = some slash) then min s.depth 0 else s.depth }
      { dir, path := text ++ after (trimmed p.path), links := p.links + 1 } := by
  obtain ⟨-, sublist, parts, head⟩ := follows.text (mt follows.finished.mp nonempty)
  have boundary := after_boundary (trimmed p.path)
  have low := follows.low
  have height := follows.height
  have bottom : min s.depth 0 = 0 := by omega
  have splicedAt : ∀ dir depth dirs,
      IsDirectory tree dir → root <+: dir → 0 ≤ depth →
      (dir.length : Int) = root.length + depth →
      (∀ i, 0 ≤ i → i ≤ depth → dirs i = dir.take (root.length + i.toNat)) →
      (∀ i, 0 ≤ i → i ≤ depth → access.search (dirs i) = true) →
      Follows access tree root
        ⟨spliced (trimmed text) (remaining s.todo), dirs, depth, s.links + 1⟩
        ⟨dir, text ++ after (trimmed p.path), p.links + 1⟩ :=
    fun dir depth dirs directory inside low height stack searched => {
      directory, inside, low, height, stack
      below := fun i first last => searched i first (Int.le_of_lt last)
      done := fun _ => searched depth low (Int.le_refl _)
      links := congrArg (· + 1) follows.links
      sublist := spliced_sublist sublist head boundary
      parts := spliced_parts parts boundary
      head := spliced_head fun none => (follows.remaining_eq_nil nonempty).mpr (kept none) }
  -- The link was looked up in the last of these.
  have searched : ∀ i, 0 ≤ i → i ≤ s.depth → access.search (s.dirs i) = true := by
    intro i first last
    rcases Int.lt_or_eq_of_le last with lower | rfl
    · exact follows.below i first lower
    · rwa [follows.top]
  by_cases isAbsolute : target.head? = some slash
  · rw [if_pos isAbsolute] at leads
    rw [decide_eq_true isAbsolute, if_pos rfl, bottom, leads]
    apply splicedAt root 0 s.dirs isRoot List.prefix_rfl (Int.le_refl _) (by omega)
    · intro i first last
      obtain rfl : i = 0 := by omega
      rw [follows.stack 0 (Int.le_refl _) low]
      change p.dir.take root.length = root.take root.length
      rw [List.take_length, ← List.prefix_iff_eq_take.mp follows.inside]
    · exact fun i first last => searched i first (Int.le_trans last low)
  · rw [if_neg isAbsolute] at leads
    rw [decide_eq_false isAbsolute, leads]
    exact splicedAt p.dir s.depth s.dirs follows.directory follows.inside low height follows.stack
      searched

end Follows

theorem advance_lookup {p : Place} (nonempty : trimmed p.path ≠ [])
    (notDot : first (trimmed p.path) ≠ dot) (notDotdot : first (trimmed p.path) ≠ dotdot) :
    advance limits tree root p =
      if 255 < p.dir.length - root.length then .leaves
      else
        match lookup tree p with
        | none => .ended .missing
        | some (name, .dir _) =>
            .goes { p with dir := p.dir ++ [name], path := after (trimmed p.path) }
        | some (name, .file) => .ended
            (if after (trimmed p.path) = [] then .found (p.dir ++ [name]) else .notDirectory)
        | some (_, .link target) =>
            if 40 ≤ p.links ∨ pathMax ≤ target.length then .leaves
            else
              match redirected root p.dir target with
              | none => .leaves
              | some (dir, text) =>
                  if pathMax ≤ (text ++ after (trimmed p.path)).length then .leaves
                  else .goes { dir, path := text ++ after (trimmed p.path), links := p.links + 1 } := by
  rw [lookup_eq nonempty notDot notDotdot]
  unfold advance
  dsimp only
  rw [if_neg nonempty, if_neg notDot, if_neg notDotdot]
  rfl

theorem advance_deep {p : Place} (nonempty : trimmed p.path ≠ [])
    (deep : 255 < p.dir.length - root.length) : advance limits tree root p = .leaves := by
  unfold advance
  dsimp only
  rw [if_neg nonempty]
  exact if_pos deep

theorem shallow {p : Place} {turn : Turn} (nonempty : trimmed p.path ≠ [])
    (here : advance limits tree root p = turn) (stays : turn ≠ .leaves) :
    ¬255 < p.dir.length - root.length :=
  fun deep => stays (here.symm.trans (advance_deep nonempty deep))

theorem advance_link {p next : Place} {name : Name} {target : Bytes}
    (found : lookup tree p = some (name, .link target))
    (move : advance limits tree root p = .goes next) :
    p.links < 40 ∧ target.length < pathMax ∧ ∃ dir text,
      redirected root p.dir target = some (dir, text) ∧
      (text ++ after (trimmed p.path)).length < pathMax ∧
      next = { dir, path := text ++ after (trimmed p.path), links := p.links + 1 } := by
  obtain ⟨nonempty, notDot, notDotdot, -⟩ := lookup_some found
  have shallow := shallow nonempty move Turn.noConfusion
  rw [advance_lookup nonempty notDot notDotdot, if_neg shallow, found] at move
  dsimp only at move
  split_ifs at move with long
  cases leads : redirected root p.dir target with
  | none => simp [leads] at move
  | some pair =>
    obtain ⟨dir, text⟩ := pair
    simp only [leads] at move
    split_ifs at move with long
    exact ⟨by omega, by omega, dir, text, rfl, by omega, (Turn.goes.inj move).symm⟩

theorem smooth_of_lookup {p next : Place} (move : advance limits tree root p = .goes next)
    (noLink : ∀ name target, lookup tree p ≠ some (name, .link target))
    (notUnread : ¬Unread access tree p) (notClosed : ¬Closed access p) :
    Smooth access tree root p next := by
  refine ⟨move, ?_, ?_, notUnread, notClosed⟩
  · rintro ⟨name, target, found, -⟩
    exact noLink name target found
  · rintro ⟨name, target, dir, text, found, -⟩
    exact noLink name target found

theorem rough_of_ended {p : Place} {outcome : Outcome}
    (ended : advance limits tree root p = .ended outcome) (next : Place) :
    ¬Smooth access tree root p next := by
  rintro ⟨move, -⟩
  rw [ended] at move
  cases move

theorem onward {p next : Place} (move : advance limits tree root p = .goes next) (outcome : Outcome) :
    advance limits tree root p ≠ .ended outcome := by
  rw [move]
  intro ended
  cases ended

theorem agreeable_ended {p : Place} {outcome : Outcome} {verdict : Verdict}
    (ended : advance limits tree root p = .ended outcome) (notClosed : ¬Closed access p)
    (still : ∀ name node, lookup tree p = some (name, node) → node = .file) :
    Agreeable access tree root p verdict ↔ Concurs access tree p outcome verdict := by
  rw [agreeable_here (rough_of_ended ended)]
  constructor
  · rintro (⟨other, ended', -, concurs⟩ | ⟨⟨name, target, dir, text, found, -⟩, -⟩ |
      ⟨⟨name, target, found, -⟩ | ⟨name, entries, found, -⟩ | closed, -⟩)
    · rw [ended] at ended'
      obtain rfl := Turn.ended.inj ended'
      exact concurs
    · cases still _ _ found
    · cases still _ _ found
    · cases still _ _ found
    · exact absurd closed notClosed
  · exact fun concurs => .inl ⟨outcome, ended, notClosed, concurs⟩

-- The loop is stopped, and the open has to be refused as well.
theorem agreeable_stopped {p : Place} {verdict : Verdict}
    (stopped : Refused tree root p ∨ Unread access tree p ∨ Closed access p)
    (goesOn : ∀ outcome, advance limits tree root p = .ended outcome → Closed access p)
    (notEmptied : Emptied tree root p → Refused tree root p ∨ Closed access p) :
    Agreeable access tree root p verdict ↔ Denied access verdict := by
  have rough : ∀ next, ¬Smooth access tree root p next := by
    intro next smooth
    rcases stopped with refused | unread | closed
    · exact smooth.notRefused refused
    · exact smooth.notUnread unread
    · exact smooth.notClosed closed
  rw [agreeable_here rough]
  constructor
  · rintro (⟨outcome, ended, notClosed, -⟩ | ⟨emptied, notRefused, notClosed, -⟩ | ⟨-, denied⟩)
    · exact absurd (goesOn outcome ended) notClosed
    · exact absurd (notEmptied emptied) (not_or_intro notRefused notClosed)
    · exact denied
  · exact fun denied => .inr (.inr ⟨stopped, denied⟩)

theorem advance_finished {p : Place} (none : trimmed p.path = []) :
    advance limits tree root p = .ended (.found p.dir) := by
  unfold advance
  dsimp only
  rw [if_pos none]

theorem advance_dot {p : Place} (nonempty : trimmed p.path ≠ [])
    (isDot : first (trimmed p.path) = dot) :
    advance limits tree root p = if 255 < p.dir.length - root.length then .leaves
      else .goes { p with path := after (trimmed p.path) } := by
  unfold advance
  dsimp only
  rw [if_neg nonempty, if_pos isDot]
  rfl

theorem advance_up {p : Place} (nonempty : trimmed p.path ≠ [])
    (isUp : first (trimmed p.path) = dotdot) :
    advance limits tree root p = if 255 < p.dir.length - root.length then .leaves
      else if p.dir = root then .leaves
      else .goes { p with dir := p.dir.dropLast, path := after (trimmed p.path) } := by
  have notDot : first (trimmed p.path) ≠ dot := by
    rw [isUp]
    decide
  unfold advance
  dsimp only
  rw [if_neg nonempty, if_neg notDot, if_pos isUp]
  rfl

theorem lookup_finished {p : Place} (finished : trimmed p.path = []) : lookup tree p = none :=
  if_pos (.inl finished)

theorem lookup_dot {p : Place} (isDot : first (trimmed p.path) = dot) : lookup tree p = none :=
  if_pos (.inr (.inl isDot))

theorem lookup_up {p : Place} (isUp : first (trimmed p.path) = dotdot) : lookup tree p = none :=
  if_pos (.inr (.inr isUp))

theorem noLink_of_none {p : Place} (none : lookup tree p = none) (name : Name) (target : Bytes) :
    lookup tree p ≠ some (name, .link target) := by
  rw [none]
  intro found
  cases found

theorem noLink_of_some {p : Place} {name : Name} {node : Node}
    (found : lookup tree p = some (name, node)) (noLink : ∀ target, node ≠ .link target) (other : Name)
    (target : Bytes) : lookup tree p ≠ some (other, .link target) := by
  rw [found]
  intro same
  exact noLink target (Prod.mk.inj (Option.some.inj same)).2

theorem still_of_none {p : Place} (none : lookup tree p = none) (name : Name) (node : Node)
    (found : lookup tree p = some (name, node)) : node = .file := by
  rw [none] at found
  cases found

theorem not_trailing {p : Place} (none : lookup tree p = none) : ¬Trailing tree p := by
  rintro ⟨name, found, -⟩
  rw [none] at found
  cases found

theorem not_unread {p : Place} (none : lookup tree p = none) : ¬Unread access tree p := by
  rintro ⟨name, entries, found, -⟩
  rw [none] at found
  cases found

theorem search_of_name {p : Place} (notClosed : ¬Closed access p) (nonempty : trimmed p.path ≠ [])
    (notDot : first (trimmed p.path) ≠ dot) (notDotdot : first (trimmed p.path) ≠ dotdot) :
    access.search p.dir = true := by
  by_contra closed
  exact notClosed ⟨nonempty, Bool.eq_false_of_not_eq_true closed, notDotdot,
    fun isDot => absurd isDot notDot⟩

theorem search_of_lookup {p : Place} {name : Name} {node : Node} (notClosed : ¬Closed access p)
    (found : lookup tree p = some (name, node)) : access.search p.dir = true := by
  obtain ⟨nonempty, notDot, notDotdot, -⟩ := lookup_some found
  exact search_of_name notClosed nonempty notDot notDotdot

section

variable {verdict : Verdict}

theorem answers_error {errno : Errno} : Answers access (.error errno) verdict ↔
    errno.isMissing ∧ Fails verdict ∨ ¬errno.isMissing ∧ Denied access verdict := by
  cases verdict with
  | barred => simp [Answers, Fails, Denied]
  | ends outcome => cases outcome <;> simp [Answers, Fails, Denied, and_comm]

theorem eacces_other : ¬eacces.isMissing := by
  rintro (same | same) <;> cases same

theorem opens_stopped {errno : Errno} (other : ¬errno.isMissing) :
    Opens access tree root (.returned (.error errno)) verdict ↔ Denied access verdict := by
  rw [opens_returned, answers_error]
  simp [other]

-- Both opens ask whether the node may be read.
theorem answers_node {position : Position}
    (either : verdict = .ends (.found position) ∨ verdict = .barred) :
    Answers access (if access.read position = true then .ok position else .error eacces) verdict ↔
      verdict = .ends (.found position) ∨ verdict = .barred ∧ access.read position = false := by
  rcases either with rfl | rfl
  · split_ifs with readable <;> simp [Answers, readable, eacces_other]
  · split_ifs with readable <;> simp [Answers, readable, eacces_other]

theorem concurs_node {p : Place} (nothing : lookup tree p = none) {position : Position} :
    Concurs access tree p (.found position) verdict ↔
      verdict = .ends (.found position) ∨ verdict = .barred ∧ access.read position = false := by
  simp [Concurs, Shut, Denied, nothing, not_trailing nothing]

theorem answers_missing {p : Place} (nothing : lookup tree p = none)
    (either : verdict = .ends .missing ∨ verdict = .barred) :
    Answers access (.error .enoent) verdict ↔ Concurs access tree p .missing verdict := by
  have missing : Errno.isMissing .enoent := .inl rfl
  rcases either with rfl | rfl
  · simp [Answers, missing, Concurs, not_trailing nothing]
  · simp [Answers, missing, Concurs, Shut, Denied, nothing]

end

theorem scan_shut {s : Scan} (finished : s.todo = [])
    (closed : access.search (s.dirs s.depth) = false) :
    scan tree root (refusals access tree s) s = .returned (.error eacces) := by
  have refused : access.lookup (s.dirs s.depth) dot = some eacces := by
    rw [Access.lookup, if_neg]
    simp [closed, dot]
  unfold scan refusals Access.openat
  rw [if_pos finished, if_pos finished, refused]
  rfl

-- The component in front of a slash is empty, and nothing has that name.
theorem scan_slash {s : Scan} {rest : Bytes} (directory : IsDirectory tree (s.dirs s.depth))
    (todo : s.todo = slash :: rest) :
    scan tree root (refusals access tree s) s = .returned (.error .enoent) := by
  have empty : component s.todo = [] := by
    rw [todo, component, List.takeWhile_cons_of_neg (by simp)]
  have notDot : ([] : Bytes) ≠ dot := by decide
  have notDotdot : ([] : Bytes) ≠ dotdot := by decide
  obtain ⟨entries, here⟩ := isDirectory_iff.mp directory
  unfold scan
  rw [if_neg (by simp [todo])]
  dsimp only
  have granted : refusals access tree s .fstatat = none := if_pos (.inl empty)
  rw [empty, if_neg notDot, if_neg notDotdot, granted, fstatat, entry, here]
  rfl

section

variable {s : Scan} {p next : Place} {outcome : Outcome} {verdict : Verdict}

-- A dot is passed over, and then the directory itself is opened.
theorem opens_closed (follows : Follows access tree root s p) (closed : Closed access p) :
    Opens access tree root (.scanning s) verdict ↔ Agreeable access tree root p verdict := by
  obtain ⟨nonempty, unsearched, notDotdot, last⟩ := id closed
  rw [agreeable_stopped (.inr (.inr closed)) (fun _ _ => closed) fun _ => .inr closed,
    ← opens_stopped eacces_other, opens_scanning]
  by_cases isDot : first (trimmed p.path) = dot
  · have finished : remaining s.todo = [] := (follows.remaining_eq_nil nonempty).mpr (last isDot)
    rw [follows.scan_dot nonempty isDot, opens_scanning,
      scan_shut (s := { s with todo := remaining s.todo }) finished (follows.top ▸ unsearched)]
  · rw [follows.scan_barred nonempty isDot notDotdot unsearched]

theorem opens_finished (follows : Follows access tree root s p) (none : trimmed p.path = [])
    (ended : advance limits tree root p = .ended outcome)
    (either : verdict = .ends outcome ∨ verdict = .barred) :
    Opens access tree root (.scanning s) verdict ↔ Agreeable access tree root p verdict := by
  have nothing : lookup tree p = Option.none := lookup_finished none
  rw [agreeable_ended ended (fun closed => closed.1 none) (still_of_none nothing)]
  rw [advance_finished none] at ended
  obtain rfl := Turn.ended.inj ended
  rw [opens_scanning, follows.scan_finished none, opens_returned, answers_node either,
    concurs_node nothing]

theorem answers_file (follows : Follows access tree root s p) (nonempty : trimmed p.path ≠ [])
    {name : Name} (found : lookup tree p = some (name, .file))
    (either : verdict = .ends
        (if after (trimmed p.path) = [] then .found (p.dir ++ [name]) else .notDirectory) ∨
      verdict = .barred) :
    Answers access
        (if remaining s.todo ≠ [] then .error .enotdir
          else if access.read (p.dir ++ [name]) = true then .ok (p.dir ++ [name])
          else .error eacces) verdict ↔
      Concurs access tree p
        (if after (trimmed p.path) = [] then .found (p.dir ++ [name]) else .notDirectory) verdict := by
  have rest := follows.remaining_eq_nil nonempty
  have trailing : Trailing tree p ↔
      after (trimmed p.path) ≠ [] ∧ parts (after (trimmed p.path)) = [] := by
    simp [Trailing, found]
  have shut (outcome : Outcome) : Shut access tree p outcome ↔ Denied access (.ends outcome) ∨
      parts (after (trimmed p.path)) = [] ∧ access.read (p.dir ++ [name]) = false := by
    simp [Shut, found]
  by_cases final : after (trimmed p.path) = []
  · have last : remaining s.todo = [] := rest.mpr (by rw [final]; rfl)
    rw [if_pos final] at either ⊢
    have unreadable := (shut (.found (p.dir ++ [name]))).trans (or_iff_left_of_imp And.right)
    rw [if_neg (not_not_intro last), answers_node either, Concurs, trailing, unreadable]
    simp [final, Denied]
  · rw [if_neg final] at either ⊢
    rw [Concurs, trailing, shut]
    by_cases last : remaining s.todo = []
    · rw [if_neg (not_not_intro last)]
      rcases either with rfl | rfl
      · split_ifs <;> simp [Answers, eacces_other, final, rest.mp last]
      · split_ifs with readable <;>
          simp [Answers, eacces_other, Denied, rest.mp last, readable]
    · have more : parts (after (trimmed p.path)) ≠ [] := mt rest.mpr last
      have missing : Errno.isMissing .enotdir := .inr rfl
      rw [if_pos last]
      rcases either with rfl | rfl
      · simp [Answers, missing, more]
      · simp [Answers, missing, more, Denied]

theorem opens_ended (follows : Follows access tree root s p) (notClosed : ¬Closed access p)
    (ended : advance limits tree root p = .ended outcome)
    (either : verdict = .ends outcome ∨ verdict = .barred) :
    Opens access tree root (.scanning s) verdict ↔ Agreeable access tree root p verdict := by
  by_cases none : trimmed p.path = []
  · exact opens_finished follows none ended either
  · have shallow := shallow none ended Turn.noConfusion
    by_cases isDot : first (trimmed p.path) = dot
    · rw [advance_dot none isDot, if_neg shallow] at ended
      cases ended
    · by_cases isUp : first (trimmed p.path) = dotdot
      · rw [advance_up none isUp, if_neg shallow] at ended
        split_ifs at ended
      · have search := search_of_name notClosed none isDot isUp
        have turn := ended
        rw [advance_lookup none isDot isUp, if_neg shallow] at turn
        cases found : lookup tree p with
        | none =>
          rw [found] at turn
          obtain rfl := Turn.ended.inj turn
          rw [opens_scanning, follows.scan_eq none isDot isUp search, found, opens_returned,
            agreeable_ended ended notClosed (still_of_none found)]
          exact answers_missing found either
        | some entry =>
          obtain ⟨name, node⟩ := entry
          cases node with
          | dir entries =>
            rw [found] at turn
            cases turn
          | link target =>
            rw [found] at turn
            dsimp only at turn
            split_ifs at turn
            cases leads : redirected root p.dir target with
            | none => simp [leads] at turn
            | some pair =>
              simp only [leads] at turn
              split_ifs at turn
          | file =>
            rw [found] at turn
            obtain rfl := Turn.ended.inj turn
            have still : ∀ other node, lookup tree p = some (other, node) → node = .file := by
              intro other node found'
              rw [found] at found'
              exact (Prod.mk.inj (Option.some.inj found')).2.symm
            rw [opens_scanning, follows.scan_file found search, opens_returned,
              agreeable_ended ended notClosed still]
            exact answers_file follows none found either

-- A directory that may not be read, with components behind it: the loop gives up.
theorem opens_unread (follows : Follows access tree root s p) (notClosed : ¬Closed access p)
    {name : Name} {entries : List (Name × Node)} (found : lookup tree p = some (name, .dir entries))
    (move : advance limits tree root p = .goes next)
    (unread : access.read (p.dir ++ [name]) = false) (goesOn : remaining s.todo ≠ []) :
    Opens access tree root (.scanning s) verdict ↔ Agreeable access tree root p verdict := by
  obtain ⟨nonempty, -⟩ := lookup_some found
  have passed : Unread access tree p :=
    ⟨name, entries, found, mt (follows.remaining_eq_nil nonempty).mpr goesOn, unread⟩
  have notEmptied : ¬Emptied tree root p := by
    rintro ⟨other, target, dir, text, found', -⟩
    rw [found] at found'
    cases found'
  rw [agreeable_stopped (.inr (.inl passed)) (fun outcome ended => absurd ended (onward move outcome))
      fun emptied => absurd emptied notEmptied,
    opens_scanning, follows.scan_unread found (search_of_lookup notClosed found) unread,
    opens_stopped eacces_other]

theorem opens_directory (follows : Follows access tree root s p) (notClosed : ¬Closed access p)
    {name : Name} {entries : List (Name × Node)} (found : lookup tree p = some (name, .dir entries))
    (move : advance limits tree root p =
      .goes { p with dir := p.dir ++ [name], path := after (trimmed p.path) })
    (more : Resolves limits tree root
      { p with dir := p.dir ++ [name], path := after (trimmed p.path) } outcome)
    (either : verdict = .ends outcome ∨ verdict = .barred)
    (ih : ∀ s, Follows access tree root s
        { p with dir := p.dir ++ [name], path := after (trimmed p.path) } →
      (Opens access tree root (.scanning s) verdict ↔ Agreeable access tree root
        { p with dir := p.dir ++ [name], path := after (trimmed p.path) } verdict)) :
    Opens access tree root (.scanning s) verdict ↔ Agreeable access tree root p verdict := by
  obtain ⟨nonempty, -⟩ := lookup_some found
  have search := search_of_lookup notClosed found
  have noLink := noLink_of_some found fun _ => Node.noConfusion
  have rest := follows.remaining_eq_nil nonempty
  by_cases last : remaining s.todo = []
  · -- The loop stops at the directory, the walk one turn later.
    have none : trimmed (after (trimmed p.path)) = [] := parts_eq_nil.mp (rest.mp last)
    have notUnread : ¬Unread access tree p := fun ⟨_, _, _, goesOn, _⟩ => goesOn (rest.mp last)
    have ended := @advance_finished tree root
      { p with dir := p.dir ++ [name], path := after (trimmed p.path) } none
    have nothing := @lookup_finished tree
      { p with dir := p.dir ++ [name], path := after (trimmed p.path) } none
    have same : outcome = .found (p.dir ++ [name]) := by
      cases more with
      | ends ended' =>
        rw [ended] at ended'
        exact (Turn.ended.inj ended').symm
      | goes move' =>
        rw [ended] at move'
        cases move'
    rw [same] at either
    rw [agreeable_smooth (smooth_of_lookup move noLink notUnread notClosed),
      agreeable_ended ended (fun closed => closed.1 none) (still_of_none nothing), opens_scanning,
      follows.scan_final found search last, opens_returned, answers_node either,
      concurs_node nothing]
  · by_cases readable : access.read (p.dir ++ [name]) = true
    · have notUnread : ¬Unread access tree p := by
        rintro ⟨other, _, found', -, unread⟩
        rw [found] at found'
        obtain ⟨rfl, -⟩ := Prod.mk.inj (Option.some.inj found')
        rw [readable] at unread
        cases unread
      have down := follows.down found search last
      have shallow : s.depth ≠ 255 := by
        intro full
        have height := follows.height
        have deep : 255 < (p.dir ++ [name]).length - root.length := by
          rw [List.length_append, List.length_singleton]
          omega
        have below := mt down.finished.mpr last
        cases more with
        | ends ended => exact Resolver.shallow below ended Turn.noConfusion deep
        | goes move => exact Resolver.shallow below move Turn.noConfusion deep
      rw [agreeable_smooth (smooth_of_lookup move noLink notUnread notClosed), ← ih _ down,
        opens_scanning, follows.scan_directory found search readable last shallow]
    · exact opens_unread follows notClosed found move (Bool.eq_false_of_not_eq_true readable) last

-- The loop fails with an error that no caller takes for a missing file.
theorem opens_refused (follows : Follows access tree root s p) (notClosed : ¬Closed access p)
    {name : Name} {target : Bytes} (found : lookup tree p = some (name, .link target))
    (move : advance limits tree root p = .goes next) (refused : Refused tree root p) :
    Opens access tree root (.scanning s) verdict ↔ Agreeable access tree root p verdict := by
  obtain ⟨few, short, -⟩ := advance_link found move
  have search := search_of_lookup notClosed found
  rw [agreeable_stopped (.inl refused) (fun outcome ended => absurd ended (onward move outcome))
      fun _ => .inl refused,
    opens_scanning, follows.scan_link found search few short]
  obtain ⟨other, target', found', why⟩ := refused
  rw [found] at found'
  obtain ⟨rfl, same⟩ := Prod.mk.inj (Option.some.inj found')
  obtain rfl := Node.link.inj same
  by_cases full : target.length = pathMax - 1
  · rw [if_pos full]
    exact opens_stopped (by rintro (same | same) <;> cases same)
  · obtain ⟨isAbsolute, spelled⟩ := why.resolve_left full
    rw [if_neg full, redirect_other isAbsolute spelled]
    exact opens_stopped (by rintro (same | same) <;> cases same)

-- A link that is not refused is followed: what the loop reads next.
theorem scan_followed (follows : Follows access tree root s p) (notClosed : ¬Closed access p)
    {name : Name} {target text : Bytes} {dir : Position}
    (found : lookup tree p = some (name, .link target))
    (move : advance limits tree root p = .goes next) (notRefused : ¬Refused tree root p)
    (leads : redirected root p.dir target = some (dir, text)) :
    dir = (if target.head? = some slash then root else p.dir) ∧
      scan tree root (refusals access tree s) s = .scanning { s with
        links := s.links + 1
        todo := spliced (trimmed text) (remaining s.todo)
        depth := if decide (target.head? = some slash) then min s.depth 0 else s.depth } := by
  obtain ⟨few, short, dir', text', leads', fits, -⟩ := advance_link found move
  rw [leads] at leads'
  obtain ⟨rfl, rfl⟩ := Prod.mk.inj (Option.some.inj leads')
  obtain ⟨nonempty, -⟩ := lookup_some found
  have full : target.length ≠ pathMax - 1 := fun full =>
    notRefused ⟨name, target, found, .inl full⟩
  have spelled : target.head? = some slash → Literal root target := fun isAbsolute =>
    by_contra fun other => notRefused ⟨name, target, found, .inr ⟨isAbsolute, other⟩⟩
  obtain ⟨led, there⟩ := redirect_eq spelled leads
  obtain ⟨-, sublist, -, head⟩ := follows.text (mt follows.finished.mp nonempty)
  have room : ¬pathMax ≤ (spliced (trimmed text) (remaining s.todo)).length := by
    have less := (@spliced_sublist text _ _ sublist head (after_boundary _)).length_le
    omega
  refine ⟨there, ?_⟩
  rw [follows.scan_link found (search_of_lookup notClosed found) few short, if_neg full, led]
  dsimp only
  rw [if_neg room]

-- Nothing stands in front of the slash that the loop puts behind the text of a link.
theorem opens_emptied (isRoot : IsDirectory tree root) (follows : Follows access tree root s p)
    (notClosed : ¬Closed access p) {name : Name} {target : Bytes}
    (found : lookup tree p = some (name, .link target))
    (move : advance limits tree root p = .goes next) (notRefused : ¬Refused tree root p)
    (emptied : Emptied tree root p) :
    Opens access tree root (.scanning s) verdict ↔ Agreeable access tree root p verdict := by
  obtain ⟨nonempty, -⟩ := lookup_some found
  have rough : ∀ next, ¬Smooth access tree root p next := fun next smooth => smooth.notEmptied emptied
  obtain ⟨_, _, dir, text, found', leads, blank, goesOn⟩ := id emptied
  rw [found] at found'
  obtain ⟨-, same⟩ := Prod.mk.inj (Option.some.inj found')
  obtain rfl := Node.link.inj same
  obtain ⟨-, followed⟩ := scan_followed follows notClosed found move notRefused leads
  have todo : spliced (trimmed text) (remaining s.todo) = slash :: remaining s.todo := by
    rw [spliced, parts_eq_nil.mp blank, if_neg (mt (follows.remaining_eq_nil nonempty).mp goesOn)]
    rfl
  have directory : IsDirectory tree
      (s.dirs (if decide (target.head? = some slash) = true then min s.depth 0 else s.depth)) := by
    have low := follows.low
    split_ifs
    · rw [Int.min_eq_right low, follows.stack 0 (Int.le_refl _) low]
      change IsDirectory tree (p.dir.take root.length)
      rwa [← List.prefix_iff_eq_take.mp follows.inside]
    · rw [follows.top]
      exact follows.directory
  rw [opens_scanning, followed, agreeable_here rough, opens_scanning, scan_slash directory todo,
    opens_returned, answers_error]
  have missing : Errno.isMissing .enoent := .inl rfl
  constructor
  · rintro (⟨-, fails⟩ | ⟨other, -⟩)
    · exact .inr (.inl ⟨emptied, notRefused, notClosed, fails⟩)
    · exact absurd missing other
  · rintro (⟨outcome, ended, -⟩ | ⟨-, -, -, fails⟩ | ⟨refused | ⟨other, entries, found', -⟩ | closed, -⟩)
    · exact absurd ended (onward move outcome)
    · exact .inl ⟨missing, fails⟩
    · exact absurd refused notRefused
    · rw [found] at found'
      cases found'
    · exact absurd closed notClosed

theorem opens_link (isRoot : IsDirectory tree root) (follows : Follows access tree root s p)
    (notClosed : ¬Closed access p) {name : Name} {target : Bytes}
    (found : lookup tree p = some (name, .link target))
    (move : advance limits tree root p = .goes next)
    (ih : ∀ s, Follows access tree root s next →
      (Opens access tree root (.scanning s) verdict ↔ Agreeable access tree root next verdict)) :
    Opens access tree root (.scanning s) verdict ↔ Agreeable access tree root p verdict := by
  by_cases refused : Refused tree root p
  · exact opens_refused follows notClosed found move refused
  by_cases emptied : Emptied tree root p
  · exact opens_emptied isRoot follows notClosed found move refused emptied
  obtain ⟨-, -, dir, text, leads, -, rfl⟩ := advance_link found move
  obtain ⟨nonempty, -⟩ := lookup_some found
  obtain ⟨there, followed⟩ := scan_followed follows notClosed found move refused leads
  have kept : parts text = [] → parts (after (trimmed p.path)) = [] := fun blank =>
    by_contra fun goesOn => emptied ⟨name, target, dir, text, found, leads, blank, goesOn⟩
  have notUnread : ¬Unread access tree p := by
    rintro ⟨other, entries, found', -⟩
    rw [found] at found'
    cases found'
  rw [opens_scanning, followed, agreeable_smooth ⟨move, refused, emptied, notUnread, notClosed⟩]
  exact ih _ (follows.follow isRoot nonempty (search_of_lookup notClosed found) there kept)

-- The loop and the walk agree where the walk is agreeable.
theorem opens_iff (isRoot : IsDirectory tree root) (follows : Follows access tree root s p)
    (resolves : Resolves limits tree root p outcome)
    (either : verdict = .ends outcome ∨ verdict = .barred) :
    Opens access tree root (.scanning s) verdict ↔ Agreeable access tree root p verdict := by
  induction resolves generalizing s with
  | @ends p outcome ended =>
    by_cases closed : Closed access p
    · exact opens_closed follows closed
    · exact opens_ended follows closed ended either
  | @goes p next outcome move more ih =>
    by_cases closed : Closed access p
    · exact opens_closed follows closed
    have nonempty : trimmed p.path ≠ [] := by
      intro finished
      rw [advance_finished finished] at move
      cases move
    have shallow := shallow nonempty move Turn.noConfusion
    by_cases isDot : first (trimmed p.path) = dot
    · have nothing : lookup tree p = none := lookup_dot isDot
      have smooth : Smooth access tree root p next :=
        smooth_of_lookup move (noLink_of_none nothing) (not_unread nothing) closed
      have search (last : parts (after (trimmed p.path)) = []) : access.search p.dir = true := by
        by_contra unsearched
        exact closed ⟨nonempty, Bool.eq_false_of_not_eq_true unsearched,
          fun isUp => absurd (isDot.symm.trans isUp) (by decide), fun _ => last⟩
      rw [advance_dot nonempty isDot, if_neg shallow] at move
      obtain rfl := Turn.goes.inj move
      rw [opens_scanning, follows.scan_dot nonempty isDot,
        ih (follows.shorter nonempty search) either, agreeable_smooth smooth]
    · by_cases isUp : first (trimmed p.path) = dotdot
      · have nothing : lookup tree p = none := lookup_up isUp
        have smooth : Smooth access tree root p next :=
          smooth_of_lookup move (noLink_of_none nothing) (not_unread nothing) closed
        rw [advance_up nonempty isUp, if_neg shallow] at move
        split_ifs at move with bottom
        obtain rfl := Turn.goes.inj move
        rw [opens_scanning, follows.scan_up nonempty isUp bottom,
          ih (follows.up nonempty bottom) either, agreeable_smooth smooth]
      · have turn := move
        rw [advance_lookup nonempty isDot isUp, if_neg shallow] at turn
        cases found : lookup tree p with
        | none =>
          rw [found] at turn
          cases turn
        | some entry =>
          obtain ⟨name, node⟩ := entry
          cases node with
          | file =>
            rw [found] at turn
            cases turn
          | link target =>
            exact opens_link isRoot follows closed found move fun s follows => ih follows either
          | dir entries =>
            rw [found] at turn
            obtain rfl := Turn.goes.inj turn
            exact opens_directory follows closed found move more either
              fun s follows => ih follows either

end

theorem named_ne_nil (relative : Bytes) : named relative ≠ [] := by
  unfold named
  split_ifs with none
  · decide
  · exact none

theorem named_head {relative : Bytes} (isRelative : relative.head? ≠ some slash) :
    (named relative).head? ≠ some slash := by
  unfold named
  split_ifs
  · decide
  · exact isRelative

theorem follows_start (isRoot : IsDirectory tree root) {relative : Bytes}
    (isRelative : relative.head? ≠ some slash) :
    Follows access tree root ⟨named relative, fun _ => root, 0, 0⟩ ⟨root, named relative, 0⟩ where
  directory := isRoot
  inside := List.prefix_rfl
  low := Int.le_refl _
  height := (Int.add_zero _).symm
  stack i first last := by
    obtain rfl : i = 0 := by
      dsimp only at last
      omega
    exact List.take_length.symm
  links := rfl
  sublist := List.Sublist.refl _
  parts := rfl
  head := named_head isRelative
  below i first last := absurd last (Int.not_lt.mpr first)
  done none := absurd none (named_ne_nil relative)

end

/-- `hs_open_components` answers as the ordinary open does, exactly where the walk is agreeable. -/
theorem openComponents_agrees (access : Access) (tree : Node) (root : Directory tree)
    {relative : Bytes} {verdict : Verdict}
    (ordinary : Ordinary access tree root.position relative verdict) :
    Opens access tree root.position (start root.position relative) verdict ↔
      Agreeable access tree root.position ⟨root.position, named relative, 0⟩ verdict := by
  obtain ⟨outcome, resolves, judged⟩ := ordinary.judged
  have either : verdict = .ends outcome ∨ verdict = .barred := by
    cases judged with
    | ends searched => exact .inl rfl
    | barred q walks closed => exact .inr rfl
  rw [start, if_neg (Nat.not_le_of_lt ordinary.fits)]
  exact opens_iff root.isDirectory (follows_start root.isDirectory ordinary.isRelative) resolves either

def page : Name := ⟨[0x66], by decide, by decide, by decide, by decide⟩

def site : Node := .dir [(page, .file)]

def openly : Access := ⟨fun _ => true, fun _ => true⟩

-- Directories may be listed and not searched.
def listed : Access := ⟨fun _ => true, fun _ => false⟩

theorem openly_searched {tree : Node} {root : Position} (p : Place) : Searched openly tree root p :=
  ⟨fun _ => rfl, fun _ _ _ _ _ _ _ => rfl⟩

-- The page is opened, and cannot be where its directory may not be searched.
theorem openComponents_agrees_page :
    (Ordinary openly site [] [0x66] (.ends (.found [page])) ∧
      Opens openly site [] (start [] [0x66]) (.ends (.found [page]))) ∧
    Ordinary listed site [] [0x66] .barred ∧ Opens listed site [] (start [] [0x66]) .barred := by
  have walk : Resolves limits site [] ⟨[], named [0x66], 0⟩ (.found [page]) := .ends rfl
  have allowed : Ordinary openly site [] [0x66] (.ends (.found [page])) :=
    ⟨by decide, by decide, _, walk, .ends fun p _ => openly_searched p⟩
  have barred : Ordinary listed site [] [0x66] .barred :=
    ⟨by decide, by decide, _, walk, .barred _ .refl fun searched => absurd (searched.here (by decide))
      (by decide)⟩
  have plain : ¬Trailing site ⟨[], [0x66], 0⟩ := by
    rintro ⟨name, -, more, -⟩
    exact more rfl
  have searched : ¬Closed openly ⟨[], [0x66], 0⟩ := by
    rintro ⟨-, unsearched, -⟩
    cases unsearched
  refine ⟨⟨allowed, (openComponents_agrees openly site ⟨[], by decide⟩ allowed).mpr
    ⟨_, .refl, .inl ⟨_, rfl, searched, .inl ⟨rfl, plain⟩⟩⟩⟩, barred,
    (openComponents_agrees listed site ⟨[], by decide⟩ barred).mpr
      ⟨_, .refl, .inr (.inr ⟨.inr (.inr ⟨by decide, rfl, by decide, ?_⟩), trivial⟩)⟩⟩
  exact fun isDot => absurd isDot (by decide)

-- The ordinary walk of `f/` fails, and the resolver opens `f`.
theorem opens_file_slash : ¬∀ (access : Access) (tree : Node) (root : Directory tree)
    (relative : Bytes) (verdict : Verdict), Ordinary access tree root.position relative verdict →
      Opens access tree root.position (start root.position relative) verdict := by
  intro agrees
  have ordinary : Ordinary openly site [] [0x66, 0x2F] (.ends .notDirectory) :=
    ⟨by decide, by decide, _, .ends rfl, .ends fun p _ => openly_searched p⟩
  obtain ⟨result, returns, answers⟩ := agrees openly site ⟨[], by decide⟩ _ _ ordinary
  have opened : Returns openly site [] (start [] [0x66, 0x2F]) (.ok [page]) := .scanning (.returned _)
  rw [returns.unique opened] at answers
  exact answers

end HttpServer.Resolver
