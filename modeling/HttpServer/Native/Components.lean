import HttpServer.Library.FileTree
import HttpServer.Library.StateRun
import HttpServer.Library.Transition
import Mathlib.Data.List.DropRight
import Mathlib.Data.Prod.Lex
import Mathlib.Logic.Function.Basic

set_option autoImplicit false

/-!
# Opening beneath a root, component by component

The tree stays as it is during the call. The kernel may refuse any call for reasons of its own.
-/

namespace HttpServer.Resolver

open FileTree

inductive Errno where
  | eperm
  | eloop
  | enametoolong
  | enoent
  | enotdir
  | other (code : Int)
  deriving DecidableEq

inductive Call where
  | fstatat
  | readlinkat
  | fdPath
  | openat
  deriving DecidableEq

section

variable (tree : Node)

-- The node that one component of a path names, links left as they are.
def entry (dir : Position) (name : Bytes) : Except Errno (Position × Node) :=
  match tree.find dir with
  | some (.dir entries) =>
      if name = [] then throw .enoent
      else if name = dot then pure (dir, .dir entries)
      else if name = dotdot then
        match tree.find dir.dropLast with
        | some parent => pure (dir.dropLast, parent)
        | none => throw .enoent
      else
        match (Node.dir entries).child name with
        | some (name, node) => pure (dir ++ [name], node)
        | none => throw .enoent
  | _ => throw .enotdir

def fstatat (dir : Position) (name : Bytes) : Except Errno Node := Prod.snd <$> entry tree dir name

def readlinkat (dir : Position) (name : Bytes) (size : Nat) : Except Errno Bytes := do
  match (← entry tree dir name).2 with
  | .link target => return target.take size
  | _ => throw (.other 22)

-- `O_NOFOLLOW`, and `O_DIRECTORY` where `directory` holds.
def openat (dir : Position) (name : Bytes) (directory : Bool) : Except Errno Position := do
  let (position, node) ← entry tree dir name
  match node with
  | .link _ => throw .eloop
  | .file => if directory then throw .enotdir else return position
  | .dir _ => return position

end

def attempt {α : Type} (refused : Option Errno) (call : Except Errno α) : Except Errno α :=
  match refused with
  | some errno => throw errno
  | none => call

def pathMax : Nat := 4096

structure Scan where
  todo : Bytes
  dirs : Int → Position
  depth : Int
  links : Nat

inductive Progress where
  | scanning (s : Scan)
  | returned (result : Except Errno Position)

def Progress.result? : Progress → Option (Except Errno Position)
  | .scanning _ => none
  | .returned result => some result

def component (todo : Bytes) : Bytes := todo.takeWhile (· != slash)

def remaining (todo : Bytes) : Bytes := (todo.dropWhile (· != slash)).dropWhile (· == slash)

def trimSlashes (path : Bytes) : Bytes :=
  path.take 1 ++ (path.drop 1).rdropWhile (· == slash)

section

variable (tree : Node) (root : Position)

-- What is left of a link's target, and whether it starts again at the root.
def redirect (refused : Option Errno) (link : Bytes) : Option (Bytes × Bool) :=
  if link.head? = some slash then
    match attempt refused (pure (pathOf root)) with
    | .error _ => none
    | .ok rootPath =>
        let base := trimSlashes rootPath
        if !base.isPrefixOf link ||
            1 < base.length && link[base.length]?.any (· != slash) then none
        else some ((link.drop base.length).dropWhile (· == slash), true)
  else some (link, false)

def followLink (refuses : Call → Option Errno) (s : Scan) (comp rest : Bytes) : Progress :=
  let s := { s with links := s.links + 1 }
  if 40 < s.links then .returned (throw .eloop)
  else
    match attempt (refuses .readlinkat) (readlinkat tree (s.dirs s.depth) comp (pathMax - 1)) with
    | .error errno => .returned (throw errno)
    | .ok link =>
        if link.length = pathMax - 1 then .returned (throw .enametoolong)
        else
          match redirect root (refuses .fdPath) link with
          | none => .returned (throw .eperm)
          | some (target, restart) =>
              let next := target ++ (if rest = [] then [] else [slash]) ++ rest
              if pathMax ≤ next.length then .returned (throw .enametoolong)
              else .scanning { s with todo := next, depth := if restart then min s.depth 0 else s.depth }

def descend (refuses : Call → Option Errno) (s : Scan) (comp rest : Bytes) : Progress :=
  match attempt (refuses .openat) (openat tree (s.dirs s.depth) comp (rest ≠ [])) with
  | .error errno => .returned (throw errno)
  | .ok fd =>
      if rest = [] then .returned (pure fd)
      else if s.depth = 255 then .returned (throw .eloop)
      else .scanning { s with
        dirs := Function.update s.dirs (s.depth + 1) fd, depth := s.depth + 1, todo := rest }

def scan (refuses : Call → Option Errno) (s : Scan) : Progress :=
  if s.todo = [] then
    .returned (attempt (refuses .openat) (openat tree (s.dirs s.depth) dot true))
  else
    let comp := component s.todo
    let rest := remaining s.todo
    if comp = dot then .scanning { s with todo := rest }
    else if comp = dotdot then
      if s.depth = 0 then .returned (throw .eperm)
      else .scanning { s with depth := s.depth - 1, todo := rest }
    else
      match attempt (refuses .fstatat) (fstatat tree (s.dirs s.depth) comp) with
      | .error errno => .returned (throw errno)
      | .ok (.link _) => followLink tree root refuses s comp rest
      | .ok _ => descend tree refuses s comp rest

def start (relative : Bytes) : Progress :=
  if pathMax ≤ relative.length then .returned (throw .enametoolong)
  else .scanning {
    todo := if relative = [] then dot else relative
    dirs := fun _ => root
    depth := 0
    links := 0 }

/-- `hs_open_components`; a label holds what the kernel refuses in one round of the loop. -/
def openComponents (relative : Bytes) : Machine Progress (Call → Option Errno) where
  init := start root relative
  step refuses
    | .scanning s => some (scan tree root refuses s)
    | .returned _ => none

end

section

variable {tree : Node}

theorem entry_dot {dir position : Position} {node : Node}
    (found : entry tree dir dot = .ok (position, node)) :
    position = dir ∧ tree.find dir = some node := by
  unfold entry at found
  cases here : tree.find dir with
  | none => simp [here, StateRun.except_throw_ok] at found
  | some dirNode =>
    cases dirNode with
    | dir entries =>
      simp only [here, show dot ≠ [] by decide, if_true, if_false] at found
      obtain ⟨rfl, rfl⟩ := Prod.mk.inj (Except.ok.inj found)
      exact ⟨rfl, rfl⟩
    | file => simp [here, StateRun.except_throw_ok] at found
    | link target => simp [here, StateRun.except_throw_ok] at found

-- A component other than the dots names a child.
theorem entry_child {dir position : Position} {name : Bytes} {node : Node} (notDot : name ≠ dot)
    (notDotdot : name ≠ dotdot) (found : entry tree dir name = .ok (position, node)) :
    ∃ child, position = dir ++ [child] ∧ tree.find position = some node := by
  unfold entry at found
  cases here : tree.find dir with
  | none => simp [here, StateRun.except_throw_ok] at found
  | some dirNode =>
    cases dirNode with
    | dir entries =>
      simp only [here, notDot, notDotdot, if_false] at found
      rw [StateRun.except_ite_ok, StateRun.except_throw_ok, and_false, false_or] at found
      cases child : (Node.dir entries).child name with
      | none => simp [child, StateRun.except_throw_ok] at found
      | some entry =>
        simp only [child] at found
        obtain ⟨rfl, rfl⟩ := Prod.mk.inj (Except.ok.inj found.2)
        exact ⟨_, rfl, find_child here child⟩
    | file => simp [here, StateRun.except_throw_ok] at found
    | link target => simp [here, StateRun.except_throw_ok] at found

theorem openat_ok {dir fd : Position} {name : Bytes} {directory : Bool}
    (opened : openat tree dir name directory = .ok fd) :
    ∃ node, entry tree dir name = .ok (fd, node) ∧ (directory = true → node.isDirectory = true) := by
  rw [openat, StateRun.except_bind_ok] at opened
  obtain ⟨⟨position, node⟩, found, opened⟩ := opened
  cases node with
  | file =>
    simp only [StateRun.except_ite_ok, StateRun.except_throw_ok, and_false, false_or] at opened
    obtain ⟨plain, same⟩ := opened
    obtain rfl := Except.ok.inj same
    exact ⟨.file, found, fun required => absurd required plain⟩
  | link target => simp [StateRun.except_throw_ok] at opened
  | dir entries =>
    obtain rfl := Except.ok.inj opened
    exact ⟨.dir entries, found, fun _ => rfl⟩

-- Without `..` a call leads to the directory itself or down from it.
theorem openat_beneath {dir fd : Position} {name : Bytes} {directory : Bool}
    (notDotdot : name ≠ dotdot) (opened : openat tree dir name directory = .ok fd) :
    dir <+: fd ∧ (tree.find fd).isSome ∧ (directory = true → IsDirectory tree fd) := by
  obtain ⟨node, found, kind⟩ := openat_ok opened
  have located : dir <+: fd ∧ tree.find fd = some node := by
    by_cases isDot : name = dot
    · subst isDot
      obtain ⟨rfl, here⟩ := entry_dot found
      exact ⟨List.prefix_rfl, here⟩
    · obtain ⟨child, rfl, here⟩ := entry_child isDot notDotdot found
      exact ⟨List.prefix_append _ _, here⟩
  rw [IsDirectory, located.2]
  exact ⟨located.1, rfl, kind⟩

theorem attempt_ok {α : Type} {refused : Option Errno} {call : Except Errno α} {a : α}
    (granted : attempt refused call = .ok a) : call = .ok a := by
  cases refused with
  | none => exact granted
  | some errno => simp [attempt, StateRun.except_throw_ok] at granted

end

section

variable (tree : Node) (root : Position)

/-- The descriptors on the stack are directories beneath the root, and the buffers hold. -/
structure Confined (s : Scan) : Prop where
  low : 0 ≤ s.depth
  high : s.depth ≤ 255
  beneath : ∀ i, 0 ≤ i → i ≤ s.depth → root <+: s.dirs i
  directories : ∀ i, 0 ≤ i → i ≤ s.depth → IsDirectory tree (s.dirs i)
  fits : s.todo.length < pathMax

def Progress.Confined : Progress → Prop
  | .scanning s => Resolver.Confined tree root s
  | .returned (.ok fd) => root <+: fd ∧ (tree.find fd).isSome
  | .returned (.error _) => True

variable {tree root}

theorem remaining_le (todo : Bytes) : (remaining todo).length ≤ todo.length :=
  ((List.dropWhile_sublist _).trans (List.dropWhile_sublist _)).length_le

theorem Confined.rest {s : Scan} (confined : Confined tree root s) :
    Confined tree root { s with todo := remaining s.todo } :=
  { confined with fits := Nat.lt_of_le_of_lt (remaining_le s.todo) confined.fits }

theorem confined_up {s : Scan} (confined : Confined tree root s) (inside : s.depth ≠ 0) :
    Confined tree root { s with depth := s.depth - 1, todo := remaining s.todo } := by
  have low := confined.low
  have high := confined.high
  exact {
    low := by dsimp only; omega
    high := by dsimp only; omega
    beneath := fun i first last => confined.beneath i first (by dsimp only at last; omega)
    directories := fun i first last => confined.directories i first (by dsimp only at last; omega)
    fits := confined.rest.fits }

theorem stack_push {P : Position → Prop} {dirs : Int → Position} {depth : Int} {fd : Position}
    (old : ∀ i, 0 ≤ i → i ≤ depth → P (dirs i)) (top : P fd) :
    ∀ i, 0 ≤ i → i ≤ depth + 1 → P (Function.update dirs (depth + 1) fd i) := by
  intro i first last
  by_cases pushed : i = depth + 1
  · rwa [pushed, Function.update_self]
  · rw [Function.update_of_ne pushed]
    exact old i first (by omega)

theorem confined_descend {refuses : Call → Option Errno} {s : Scan} {comp : Bytes}
    (confined : Confined tree root s) (notDotdot : comp ≠ dotdot) :
    (descend tree refuses s comp (remaining s.todo)).Confined tree root := by
  have top := confined.beneath s.depth confined.low (Int.le_refl _)
  unfold descend
  cases opened : attempt (refuses .openat)
      (openat tree (s.dirs s.depth) comp (remaining s.todo ≠ [])) with
  | error errno => trivial
  | ok fd =>
    obtain ⟨below, present, kind⟩ := openat_beneath notDotdot (attempt_ok opened)
    dsimp only
    split_ifs with final deep
    · exact ⟨top.trans below, present⟩
    · trivial
    · have low := confined.low
      have high := confined.high
      exact {
        low := by dsimp only; omega
        high := by dsimp only; omega
        beneath := stack_push confined.beneath (top.trans below)
        directories := stack_push confined.directories (kind (by simpa using final))
        fits := confined.rest.fits }

-- Text put in front of what remains changes neither the stack nor what lies above the root.
theorem confined_followLink {refuses : Call → Option Errno} {s : Scan} {comp rest : Bytes}
    (confined : Confined tree root s) :
    (followLink tree root refuses s comp rest).Confined tree root := by
  unfold followLink
  dsimp only
  by_cases many : 40 < s.links + 1
  · rw [if_pos many]
    trivial
  · rw [if_neg many]
    cases attempt (refuses .readlinkat)
        (readlinkat tree (s.dirs s.depth) comp (pathMax - 1)) with
    | error errno => trivial
    | ok link =>
      dsimp only
      by_cases long : link.length = pathMax - 1
      · rw [if_pos long]
        trivial
      · rw [if_neg long]
        cases redirect root (refuses .fdPath) link with
        | none => trivial
        | some redirected =>
          dsimp only
          by_cases full :
              pathMax ≤ (redirected.1 ++ (if rest = [] then [] else [slash]) ++ rest).length
          · rw [if_pos full]
            trivial
          · rw [if_neg full]
            have low := confined.low
            have kept : (if redirected.2 then min s.depth 0 else s.depth) ≤ s.depth ∧
                0 ≤ (if redirected.2 then min s.depth 0 else s.depth) := by
              split_ifs <;> omega
            exact {
              low := kept.2
              high := Int.le_trans kept.1 confined.high
              beneath := fun i first last => confined.beneath i first (Int.le_trans last kept.1)
              directories := fun i first last =>
                confined.directories i first (Int.le_trans last kept.1)
              fits := Nat.lt_of_not_le full }

theorem confined_scan {refuses : Call → Option Errno} {s : Scan} (confined : Confined tree root s) :
    (scan tree root refuses s).Confined tree root := by
  have top := confined.beneath s.depth confined.low (Int.le_refl _)
  unfold scan
  by_cases finished : s.todo = []
  · rw [if_pos finished]
    cases opened : attempt (refuses .openat) (openat tree (s.dirs s.depth) dot true) with
    | error errno => trivial
    | ok fd =>
      obtain ⟨below, present, -⟩ := openat_beneath (by decide) (attempt_ok opened)
      exact ⟨top.trans below, present⟩
  · rw [if_neg finished]
    dsimp only
    split_ifs with here up bottom
    · exact confined.rest
    · trivial
    · exact confined_up confined bottom
    · cases attempt (refuses .fstatat) (fstatat tree (s.dirs s.depth) (component s.todo)) with
      | error errno => trivial
      | ok node =>
        cases node with
        | link target => exact confined_followLink confined
        | file => exact confined_descend confined up
        | dir entries => exact confined_descend confined up

theorem confined_start (relative : Bytes) (isDirectory : IsDirectory tree root) :
    (start root relative).Confined tree root := by
  have fits : ¬pathMax ≤ relative.length →
      (if relative = [] then dot else relative).length < pathMax := by
    intro short
    split_ifs
    · decide
    · omega
  unfold start
  by_cases long : pathMax ≤ relative.length
  · rw [if_pos long]
    trivial
  · rw [if_neg long]
    exact {
      low := Int.le_refl _
      high := by dsimp only; omega
      beneath := fun i _ _ => List.prefix_rfl
      directories := fun i _ _ => isDirectory
      fits := fits long }

def AbsoluteLink (tree : Node) (s : Scan) (target : Bytes) : Prop :=
  s.todo ≠ [] ∧ component s.todo ≠ dot ∧ component s.todo ≠ dotdot ∧
    fstatat tree (s.dirs s.depth) (component s.todo) = .ok (.link target) ∧
    target.head? = some slash

-- The target is the root's path or goes on below it where a component ends.
def NamesBeneath (root : Position) (target : Bytes) : Prop :=
  ∃ rest, parts target = root.map Name.bytes ++ rest

theorem trimSlashes_pathOf (root : Position) : trimSlashes (pathOf root) = pathOf root := by
  unfold pathOf
  split_ifs with top
  · decide
  · obtain ⟨init, last, rfl⟩ := (List.eq_nil_or_concat' root).resolve_left top
    obtain ⟨front, u, bytes⟩ := (List.eq_nil_or_concat' last.bytes).resolve_left last.notEmpty
    have ends : u ≠ slash := by
      rintro rfl
      exact last.noSlash (by rw [bytes]; simp)
    obtain ⟨text, whole⟩ : ∃ text, ((init ++ [last]).flatMap fun name => slash :: name.bytes) =
        slash :: (text ++ [u]) := by
      rw [List.flatMap_append, List.flatMap_singleton, bytes]
      cases init with
      | nil => exact ⟨front, rfl⟩
      | cons name init => exact ⟨name.bytes ++ (init.flatMap fun name => slash :: name.bytes) ++
          slash :: front, by simp⟩
    rw [whole, trimSlashes, List.drop_one, List.tail_cons, List.rdropWhile_concat_neg]
    · rfl
    · simpa using ends

theorem pathOf_long (below : root ≠ []) : 1 < (pathOf root).length := by
  obtain ⟨name, rest, rfl⟩ := List.exists_cons_of_ne_nil below
  have some := List.length_pos_iff.mpr name.notEmpty
  rw [pathOf, if_neg below, List.flatMap_cons, List.length_append, List.length_cons]
  omega

theorem redirect_names {refused : Option Errno} {link : Bytes} {redirected : Bytes × Bool}
    (isAbsolute : link.head? = some slash)
    (followed : redirect root refused link = some redirected) : NamesBeneath root link := by
  unfold redirect at followed
  rw [if_pos isAbsolute] at followed
  cases path : attempt refused (pure (pathOf root)) with
  | error errno => simp [path] at followed
  | ok rootPath =>
    obtain rfl := Except.ok.inj (attempt_ok path)
    simp only [path, trimSlashes_pathOf] at followed
    split_ifs at followed with outside
    rw [Bool.or_eq_true, not_or, Bool.not_eq_true', Bool.not_eq_false,
      List.isPrefixOf_iff_prefix] at outside
    obtain ⟨⟨tail, rfl⟩, boundary⟩ := outside
    by_cases top : root = []
    · exact ⟨parts (pathOf root ++ tail), by rw [top]; rfl⟩
    · have path : pathOf root = root.flatMap fun name => slash :: name.bytes := if_neg top
      have long := pathOf_long top
      have ends : Boundary tail := by
        cases tail with
        | nil => exact .inl rfl
        | cons u tail =>
          right
          have same : u = slash := by simpa [long] using boundary
          exact ⟨tail, by rw [same]⟩
      exact ⟨parts tail, by rw [path, parts_pathOf root ends]⟩

theorem readlinkat_ok {dir : Position} {name target link : Bytes} {size : Nat}
    (known : fstatat tree dir name = .ok (.link target))
    (read : readlinkat tree dir name size = .ok link) : link = target.take size := by
  rw [readlinkat, StateRun.except_bind_ok] at read
  obtain ⟨⟨position, node⟩, found, read⟩ := read
  rw [fstatat, found] at known
  obtain rfl : node = .link target := Except.ok.inj known
  exact (Except.ok.inj read).symm

theorem names_of_scan {refuses : Call → Option Errno} {s next : Scan} {target : Bytes}
    (isLink : AbsoluteLink tree s target) (followed : scan tree root refuses s = .scanning next) :
    NamesBeneath root target := by
  obtain ⟨some, notDot, notDotdot, known, isAbsolute⟩ := isLink
  unfold scan at followed
  simp only [some, notDot, notDotdot, if_false, known] at followed
  cases granted : attempt (refuses .fstatat) (Except.ok (ε := Errno) (Node.link target)) with
  | error errno => simp [granted] at followed
  | ok node =>
    obtain rfl := Except.ok.inj (attempt_ok granted)
    simp only [granted] at followed
    by_cases many : 40 < s.links + 1
    · simp [followLink, many] at followed
    · cases read : attempt (refuses .readlinkat)
          (readlinkat tree (s.dirs s.depth) (component s.todo) (pathMax - 1)) with
      | error errno => simp [followLink, many, read] at followed
      | ok link =>
        by_cases long : link.length = pathMax - 1
        · simp [followLink, many, read, long] at followed
        · cases redirected : redirect root (refuses .fdPath) link with
          | none => simp [followLink, many, read, long, redirected] at followed
          | some pair =>
            -- A target that did not fill the buffer was read whole.
            have cut := readlinkat_ok known (attempt_ok read)
            have short : target.length ≤ pathMax - 1 := by
              rw [cut, List.length_take] at long
              omega
            rw [List.take_of_length_le short] at cut
            exact redirect_names isAbsolute (cut ▸ redirected)

theorem remaining_lt {todo : Bytes} (some : todo ≠ []) : (remaining todo).length < todo.length := by
  obtain ⟨u, rest, rfl⟩ := List.exists_cons_of_ne_nil some
  unfold remaining
  by_cases start : u = slash
  · subst start
    rw [List.dropWhile_cons_of_neg (by simp), List.dropWhile_cons_of_pos (by simp)]
    exact Nat.lt_succ_of_le (List.dropWhile_sublist _).length_le
  · rw [List.dropWhile_cons_of_pos (by simpa using start)]
    exact Nat.lt_succ_of_le (remaining_le rest)

-- Links left to follow, then text left to read.
def Progress.rank : Progress → Nat ×ₗ Nat
  | .scanning s => toLex (41 - s.links, s.todo.length + 1)
  | .returned _ => toLex (0, 0)

theorem rank_returned (s : Scan) (result : Except Errno Position) :
    (Progress.returned result).rank < (Progress.scanning s).rank := by
  rw [Progress.rank, Progress.rank, Prod.Lex.toLex_lt_toLex]
  rcases Nat.eq_zero_or_pos (41 - s.links) with none | some
  · exact .inr ⟨none.symm, Nat.succ_pos _⟩
  · exact .inl some

theorem rank_shorter {s next : Scan} (links : next.links = s.links)
    (shorter : next.todo.length < s.todo.length) :
    (Progress.scanning next).rank < (Progress.scanning s).rank := by
  rw [Progress.rank, Progress.rank, Prod.Lex.toLex_lt_toLex]
  exact .inr ⟨by dsimp only; rw [links], by dsimp only; omega⟩

theorem rank_descend (refuses : Call → Option Errno) {s : Scan} (comp : Bytes)
    (some : s.todo ≠ []) :
    (descend tree refuses s comp (remaining s.todo)).rank < (Progress.scanning s).rank := by
  unfold descend
  cases attempt (refuses .openat)
      (openat tree (s.dirs s.depth) comp (remaining s.todo ≠ [])) with
  | error errno => exact rank_returned s _
  | ok fd =>
    dsimp only
    split_ifs
    · exact rank_returned s _
    · exact rank_returned s _
    · exact rank_shorter rfl (remaining_lt some)

theorem rank_followLink (refuses : Call → Option Errno) {s : Scan} (comp rest : Bytes) :
    (followLink tree root refuses s comp rest).rank < (Progress.scanning s).rank := by
  unfold followLink
  dsimp only
  by_cases many : 40 < s.links + 1
  · rw [if_pos many]
    exact rank_returned s _
  · rw [if_neg many]
    cases attempt (refuses .readlinkat)
        (readlinkat tree (s.dirs s.depth) comp (pathMax - 1)) with
    | error errno => exact rank_returned s _
    | ok link =>
      dsimp only
      by_cases long : link.length = pathMax - 1
      · rw [if_pos long]
        exact rank_returned s _
      · rw [if_neg long]
        cases redirect root (refuses .fdPath) link with
        | none => exact rank_returned s _
        | some redirected =>
          dsimp only
          by_cases full :
              pathMax ≤ (redirected.1 ++ (if rest = [] then [] else [slash]) ++ rest).length
          · rw [if_pos full]
            exact rank_returned s _
          · rw [if_neg full, Progress.rank, Progress.rank, Prod.Lex.toLex_lt_toLex]
            exact .inl (by dsimp only; omega)

theorem rank_scan (refuses : Call → Option Errno) (s : Scan) :
    (scan tree root refuses s).rank < (Progress.scanning s).rank := by
  unfold scan
  by_cases finished : s.todo = []
  · rw [if_pos finished]
    exact rank_returned s _
  · rw [if_neg finished]
    dsimp only
    split_ifs
    · exact rank_shorter rfl (remaining_lt finished)
    · exact rank_returned s _
    · exact rank_shorter rfl (remaining_lt finished)
    · cases attempt (refuses .fstatat) (fstatat tree (s.dirs s.depth) (component s.todo)) with
      | error errno => exact rank_returned s _
      | ok node =>
        cases node with
        | link target => exact rank_followLink refuses _ _
        | file => exact rank_descend refuses _ finished
        | dir entries => exact rank_descend refuses _ finished

-- The loop ends, whatever the links say and whatever the kernel refuses.
theorem scan_wellFounded (tree : Node) (root : Position) (relative : Bytes) :
    WellFounded fun next s =>
      ∃ refuses, (openComponents tree root relative).step refuses s = some next := by
  apply Subrelation.wf _ (InvImage.wf Progress.rank wellFounded_lt)
  rintro next s ⟨refuses, move⟩
  cases s with
  | scanning s =>
    obtain rfl := Option.some.inj move
    exact rank_scan refuses s
  | returned result => cases move

theorem reachable_confined (root : Directory tree) {relative : Bytes} {progress : Progress}
    (reached : (openComponents tree root.position relative).Reachable progress) :
    progress.Confined tree root.position := by
  apply reached.invariant (confined_start relative root.isDirectory)
  intro s refuses next confined move
  cases s with
  | scanning s =>
    obtain rfl := Option.some.inj move
    exact confined_scan confined
  | returned result => cases move

end

/-- Every directory worked in and the node handed out lie beneath the root, and an absolute link
is followed only where it names the root or something beneath it. -/
theorem openComponents_confined (tree : Node) (root : Directory tree) (relative : Bytes) :
    (∀ s, (openComponents tree root.position relative).Reachable (.scanning s) →
      Confined tree root.position s) ∧
    (∀ fd, (openComponents tree root.position relative).Reachable (.returned (.ok fd)) →
      root.position <+: fd ∧ (tree.find fd).isSome) ∧
    ∀ s next refuses target,
      (openComponents tree root.position relative).Reachable (.scanning s) →
      AbsoluteLink tree s target → scan tree root.position refuses s = .scanning next →
        NamesBeneath root.position target := by
  refine ⟨fun s reached => reachable_confined root reached,
    fun fd reached => reachable_confined root reached, ?_⟩
  intro s next refuses target _ isLink followed
  exact names_of_scan isLink followed

-- `/s/a` is a link to `/s/b/../c`.
def linked (s a b c : Name) : Node :=
  .dir [(s, .dir [(a, .link [0x2F, 0x73, 0x2F, 0x62, 0x2F, 0x2E, 0x2E, 0x2F, 0x63]),
    (b, .dir []), (c, .file)])]

theorem openComponents_confined_link : ∃ (tree : Node) (root : Directory tree) (fd : Position),
    (openComponents tree root.position [0x61]).Reachable (.returned (.ok fd)) ∧
      root.position <+: fd ∧ (tree.find fd).isSome ∧
      NamesBeneath root.position [0x2F, 0x73, 0x2F, 0x62, 0x2F, 0x2E, 0x2E, 0x2F, 0x63] ∧
      Confined tree root.position ⟨[0x61], fun _ => root.position, 0, 0⟩ := by
  let s : Name := ⟨[0x73], by decide, by decide, by decide, by decide⟩
  let a : Name := ⟨[0x61], by decide, by decide, by decide, by decide⟩
  let b : Name := ⟨[0x62], by decide, by decide, by decide, by decide⟩
  let c : Name := ⟨[0x63], by decide, by decide, by decide, by decide⟩
  let root : Directory (linked s a b c) := ⟨[s], by decide⟩
  let calls : Call → Option Errno := fun _ => none
  have opened : ((openComponents (linked s a b c) root.position [0x61]).exec
      [calls, calls, calls, calls] (openComponents (linked s a b c) root.position [0x61]).init).bind
      Progress.result? = some (.ok [s, c]) := by decide +kernel
  have begun : (openComponents (linked s a b c) root.position [0x61]).Reachable
      (.scanning ⟨[0x61], fun _ => root.position, 0, 0⟩) := ⟨[], .here _⟩
  have isLink : AbsoluteLink (linked s a b c) ⟨[0x61], fun _ => root.position, 0, 0⟩
      [0x2F, 0x73, 0x2F, 0x62, 0x2F, 0x2E, 0x2E, 0x2F, 0x63] :=
    ⟨by decide, by decide, by decide, rfl, rfl⟩
  have goesOn : (scan (linked s a b c) root.position calls
      ⟨[0x61], fun _ => root.position, 0, 0⟩).result? = none := by decide +kernel
  obtain ⟨confined, found, follows⟩ := openComponents_confined (linked s a b c) root [0x61]
  obtain ⟨progress, run, returned⟩ := Option.bind_eq_some_iff.mp opened
  have reached := Machine.reachable_of_exec run
  cases progress with
  | scanning s => cases returned
  | returned result =>
    obtain rfl := Option.some.inj returned
    have inside := found _ reached
    cases followed : scan (linked s a b c) root.position calls
        ⟨[0x61], fun _ => root.position, 0, 0⟩ with
    | returned result => simp [followed, Progress.result?] at goesOn
    | scanning next =>
      exact ⟨_, root, _, reached, inside.1, inside.2,
        follows _ next calls _ begun isLink followed, confined _ begun⟩

end HttpServer.Resolver
