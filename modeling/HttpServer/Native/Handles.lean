import HttpServer.Library.Descriptors
import HttpServer.Native.Components
import Mathlib.Data.Fintype.EquivFin

set_option autoImplicit false

/-!
# The descriptors of the resolver

The loop of `Components` once more, with the numbers that `dirs` holds and each `openat` and
`close` written down.
-/

namespace HttpServer.Resolver

open FileTree Descriptors

abbrev Fd := Int

/-- What the kernel answers in one round: what it refuses, and the number it hands out. -/
structure Kernel where
  refuses : Call → Option Errno
  fresh : Fd

structure Walk where
  scan : Scan
  fds : Int → Fd
  log : List (Event Fd)

inductive Work where
  | looping (w : Walk)
  | ended (log : List (Event Fd)) (result : Except Errno (Fd × Position))

def Work.progress : Work → Progress
  | .looping w => .scanning w.scan
  | .ended _ result => .returned (Prod.snd <$> result)

def Work.outcome? : Work → Option (List (Event Fd) × Except Errno (Fd × Position))
  | .looping _ => none
  | .ended log result => some (log, result)

-- The descriptors above the root's, the topmost one first.
def above (fds : Int → Fd) : Nat → List Fd
  | 0 => []
  | depth + 1 => fds (depth + 1) :: above fds depth

namespace Walk

def stack (w : Walk) : List Fd := above w.fds w.scan.depth.toNat

-- `while(depth>0)close(dirs[depth--]);`
def closeAll (w : Walk) : Walk := { w with
  scan.depth := min w.scan.depth 0
  log := w.log ++ w.stack.map .closed }

-- `done:`; the error is kept over the calls of `close`.
def done (w : Walk) (result : Except Errno (Fd × Position)) : Work :=
  .ended w.closeAll.log result

def opened (w : Walk) (fd : Fd) : Walk := { w with log := w.log ++ [.opened fd] }

def closed (w : Walk) (fd : Fd) : Walk := { w with log := w.log ++ [.closed fd] }

section

variable (tree : Node) (root : Position) (kernel : Kernel)

def followLink (w : Walk) (comp rest : Bytes) : Work :=
  let w := { w with scan.links := w.scan.links + 1 }
  if 40 < w.scan.links then w.done (throw .eloop)
  else
    match attempt (kernel.refuses .readlinkat)
        (readlinkat tree (w.scan.dirs w.scan.depth) comp (pathMax - 1)) with
    | .error errno => w.done (throw errno)
    | .ok link =>
        if link.length = pathMax - 1 then w.done (throw .enametoolong)
        else
          match redirect root (kernel.refuses .fdPath) link with
          | none => w.done (throw .eperm)
          | some (target, restart) =>
              let w := if restart then w.closeAll else w
              let next := target ++ (if rest = [] then [] else [slash]) ++ rest
              if pathMax ≤ next.length then w.done (throw .enametoolong)
              else .looping { w with scan.todo := next }

def descend (w : Walk) (comp rest : Bytes) : Work :=
  match attempt (kernel.refuses .openat)
      (openat tree (w.scan.dirs w.scan.depth) comp (rest ≠ [])) with
  | .error errno => w.done (throw errno)
  | .ok node =>
      let w := w.opened kernel.fresh
      if rest = [] then w.done (pure (kernel.fresh, node))
      else if w.scan.depth = 255 then (w.closed kernel.fresh).done (throw .eloop)
      else .looping { w with
        scan.dirs := Function.update w.scan.dirs (w.scan.depth + 1) node
        scan.depth := w.scan.depth + 1
        scan.todo := rest
        fds := Function.update w.fds (w.scan.depth + 1) kernel.fresh }

def round (w : Walk) : Work :=
  if w.scan.todo = [] then
    match attempt (kernel.refuses .openat)
        (openat tree (w.scan.dirs w.scan.depth) dot true) with
    | .error errno => w.done (throw errno)
    | .ok node => (w.opened kernel.fresh).done (pure (kernel.fresh, node))
  else
    let comp := component w.scan.todo
    let rest := remaining w.scan.todo
    if comp = dot then .looping { w with scan.todo := rest }
    else if comp = dotdot then
      if w.scan.depth = 0 then w.done (throw .eperm)
      else .looping { w.closed (w.fds w.scan.depth) with
        scan.depth := w.scan.depth - 1
        scan.todo := rest }
    else
      match attempt (kernel.refuses .fstatat)
          (fstatat tree (w.scan.dirs w.scan.depth) comp) with
      | .error errno => w.done (throw errno)
      | .ok (.link _) => w.followLink tree root kernel comp rest
      | .ok _ => w.descend tree kernel comp rest

end

end Walk

section

variable (tree : Node) (root : Position) (rootFd : Fd)

def begin (relative : Bytes) : Work :=
  if pathMax ≤ relative.length then .ended [] (throw .enametoolong)
  else .looping {
    scan := { todo := if relative = [] then dot else relative
              dirs := fun _ => root
              depth := 0
              links := 0 }
    fds := fun _ => rootFd
    log := [] }

/-- `hs_open_components` with its descriptors. The kernel hands out no number that is in use, be it
the root's or one that the loop still holds. -/
def openHandles (relative : Bytes) : Machine Work Kernel where
  init := begin root rootFd relative
  step kernel
    | .looping w =>
        if kernel.fresh = rootFd ∨ inUse w.log kernel.fresh then none
        else some (w.round tree root kernel)
    | .ended _ _ => none

end

section

variable {tree : Node} {root : Position}

theorem progress_done (w : Walk) (errno : Errno) :
    (w.done (throw errno)).progress = .returned (throw errno) :=
  rfl

theorem progress_followLink (kernel : Kernel) (w : Walk) (comp rest : Bytes) :
    (w.followLink tree root kernel comp rest).progress =
      followLink tree root kernel.refuses w.scan comp rest := by
  unfold Walk.followLink followLink
  dsimp only
  by_cases many : 40 < w.scan.links + 1
  · rw [if_pos many, if_pos many, progress_done]
  · rw [if_neg many, if_neg many]
    cases attempt (kernel.refuses .readlinkat)
        (readlinkat tree (w.scan.dirs w.scan.depth) comp (pathMax - 1)) with
    | error errno => rfl
    | ok link =>
      dsimp only
      by_cases long : link.length = pathMax - 1
      · rw [if_pos long, if_pos long, progress_done]
      · rw [if_neg long, if_neg long]
        cases redirect root (kernel.refuses .fdPath) link with
        | none => rfl
        | some redirected =>
          dsimp only
          by_cases full :
              pathMax ≤ (redirected.1 ++ (if rest = [] then [] else [slash]) ++ rest).length
          · rw [if_pos full, if_pos full, progress_done]
          · rw [if_neg full, if_neg full]
            cases redirected.2 <;> rfl

theorem progress_descend (kernel : Kernel) (w : Walk) (comp rest : Bytes) :
    (w.descend tree kernel comp rest).progress =
      descend tree kernel.refuses w.scan comp rest := by
  unfold Walk.descend descend
  cases attempt (kernel.refuses .openat)
      (openat tree (w.scan.dirs w.scan.depth) comp (rest ≠ [])) with
  | error errno => rfl
  | ok node =>
    dsimp only [Walk.opened]
    split_ifs <;> rfl

theorem progress_round (kernel : Kernel) (w : Walk) :
    (w.round tree root kernel).progress = scan tree root kernel.refuses w.scan := by
  unfold Walk.round scan
  by_cases finished : w.scan.todo = []
  · rw [if_pos finished, if_pos finished]
    cases attempt (kernel.refuses .openat)
        (openat tree (w.scan.dirs w.scan.depth) dot true) <;> rfl
  · rw [if_neg finished, if_neg finished]
    dsimp only
    split_ifs
    · rfl
    · rfl
    · rfl
    · cases attempt (kernel.refuses .fstatat)
          (fstatat tree (w.scan.dirs w.scan.depth) (component w.scan.todo)) with
      | error errno => rfl
      | ok node =>
        cases node with
        | link target => exact progress_followLink kernel w _ _
        | file => exact progress_descend kernel w _ _
        | dir entries => exact progress_descend kernel w _ _

theorem progress_begin (rootFd : Fd) (relative : Bytes) :
    (begin root rootFd relative).progress = start root relative := by
  unfold begin start
  split_ifs <;> rfl

-- One step of the loop with its descriptors is one step of the loop.
theorem step_openHandles {rootFd : Fd} {relative : Bytes} {kernel : Kernel} {work next : Work}
    (move : (openHandles tree root rootFd relative).step kernel work = some next) :
    (openComponents tree root relative).step kernel.refuses work.progress = some next.progress := by
  cases work with
  | looping w =>
    obtain ⟨-, same⟩ := (Option.ite_none_left_eq_some.mp move)
    obtain rfl := Option.some.inj same
    exact congrArg some (progress_round kernel w).symm
  | ended log result => cases move

theorem reachable_progress {rootFd : Fd} {relative : Bytes} {work : Work}
    (reached : (openHandles tree root rootFd relative).Reachable work) :
    (openComponents tree root relative).Reachable work.progress := by
  apply reached.invariant (P := fun work =>
    (openComponents tree root relative).Reachable work.progress)
  · change Machine.Reachable _ (begin root rootFd relative).progress
    rw [progress_begin]
    exact ⟨[], .here _⟩
  · intro work kernel next reached move
    exact reached.next (step_openHandles move)

end

-- What the caller gets.
def kept : Except Errno (Fd × Position) → List Fd
  | .ok (fd, _) => [fd]
  | .error _ => []

/-- The loop holds the descriptors above the root's, each at its own place in `dirs`. -/
structure Walk.Balanced (rootFd : Fd) (w : Walk) : Prop where
  low : 0 ≤ w.scan.depth
  held : replay w.log [] = some w.stack
  apart : .opened rootFd ∉ w.log

def Work.Balanced (rootFd : Fd) : Work → Prop
  | .looping w => w.Balanced rootFd
  | .ended log result => replay log [] = some (kept result) ∧ .opened rootFd ∉ log

section

variable {tree : Node} {root : Position} {rootFd : Fd} {w : Walk}

theorem not_mem_closed {log : List (Event Fd)} (apart : .opened rootFd ∉ log) (gone : List Fd) :
    .opened rootFd ∉ log ++ gone.map .closed := by
  simpa using apart

theorem Walk.Balanced.done (balanced : w.Balanced rootFd) (errno : Errno) :
    (w.done (throw errno)).Balanced rootFd := by
  have held : replay w.log [] = some ([] ++ w.stack ++ []) := by simpa using balanced.held
  exact ⟨replay_closed w.stack held, not_mem_closed balanced.apart _⟩

theorem Walk.Balanced.closeAll (balanced : w.Balanced rootFd) : w.closeAll.Balanced rootFd := by
  have held : replay w.log [] = some ([] ++ w.stack ++ []) := by simpa using balanced.held
  have low := balanced.low
  have bottom : min w.scan.depth 0 = 0 := by omega
  exact {
    low := by rw [Walk.closeAll, bottom]
    held := by
      rw [Walk.stack, Walk.closeAll]
      dsimp only
      rw [bottom]
      exact replay_closed w.stack held
    apart := not_mem_closed balanced.apart _ }

-- The descriptor that is handed out is the only one that stays open.
theorem Walk.Balanced.done_opened (balanced : w.Balanced rootFd) {fd : Fd} (node : Position)
    (fresh : ¬inUse w.log fd) (other : fd ≠ rootFd) :
    ((w.opened fd).done (pure (fd, node))).Balanced rootFd := by
  have held : replay (w.log ++ [.opened fd]) [] = some ([fd] ++ w.stack ++ []) := by
    rw [replay_opened balanced.held fresh]
    simp
  have apart : .opened rootFd ∉ w.log ++ [.opened fd] := by
    simpa [Ne.symm other] using balanced.apart
  exact ⟨replay_closed w.stack held, not_mem_closed apart _⟩

theorem Walk.Balanced.done_closed (balanced : w.Balanced rootFd) {fd : Fd} (errno : Errno)
    (fresh : ¬inUse w.log fd) (other : fd ≠ rootFd) :
    (((w.opened fd).closed fd).done (throw errno)).Balanced rootFd := by
  apply Walk.Balanced.done
  have held : replay (w.log ++ [.opened fd]) [] = some ([] ++ [fd] ++ w.stack) :=
    replay_opened balanced.held fresh
  exact {
    low := balanced.low
    held := replay_closed [fd] held
    apart := by simpa [Walk.closed, Walk.opened, Ne.symm other] using balanced.apart }

theorem above_update (fds : Int → Fd) (fd : Fd) (depth height : Nat) (below : height ≤ depth) :
    above (Function.update fds (depth + 1 : Nat) fd) height = above fds height := by
  induction height with
  | zero => rfl
  | succ height ih =>
    have apart : ((height : Int) + 1) ≠ (depth + 1 : Nat) := by omega
    rw [above, above, ih (by omega), Function.update_of_ne apart]

theorem Walk.Balanced.push (balanced : w.Balanced rootFd) {fd : Fd} (node : Position)
    (rest : Bytes) (fresh : ¬inUse w.log fd) (other : fd ≠ rootFd) :
    Walk.Balanced rootFd { w.opened fd with
      scan.dirs := Function.update w.scan.dirs (w.scan.depth + 1) node
      scan.depth := w.scan.depth + 1
      scan.todo := rest
      fds := Function.update w.fds (w.scan.depth + 1) fd } := by
  obtain ⟨depth, isDepth⟩ := Int.eq_ofNat_of_zero_le balanced.low
  have held := replay_opened balanced.held fresh
  -- The new descriptor comes on top, and the slots below it are as they were.
  have stack : above (Function.update w.fds (w.scan.depth + 1) fd) (w.scan.depth + 1).toNat =
      fd :: w.stack := by
    have next : (w.scan.depth + 1).toNat = depth + 1 := by omega
    rw [next, above, Walk.stack, isDepth, Int.toNat_natCast]
    have below := above_update w.fds fd depth depth (Nat.le_refl _)
    push_cast at below
    rw [below, Function.update_self]
  exact {
    low := by
      have low := balanced.low
      dsimp only [Walk.opened]
      omega
    held := by
      rw [Walk.stack]
      dsimp only [Walk.opened]
      rw [stack]
      exact held
    apart := by simpa [Walk.opened, Ne.symm other] using balanced.apart }

theorem Walk.Balanced.pop (balanced : w.Balanced rootFd) (inside : w.scan.depth ≠ 0)
    (rest : Bytes) :
    Walk.Balanced rootFd { w.closed (w.fds w.scan.depth) with
      scan.depth := w.scan.depth - 1
      scan.todo := rest } := by
  have low := balanced.low
  obtain ⟨depth, isDepth⟩ : ∃ depth : Nat, w.scan.depth = depth + 1 :=
    ⟨(w.scan.depth - 1).toNat, by omega⟩
  have held : replay w.log [] =
      some ([] ++ [w.fds w.scan.depth] ++ above w.fds (w.scan.depth - 1).toNat) := by
    have here : w.scan.depth.toNat = depth + 1 := by omega
    have below : (w.scan.depth - 1).toNat = depth := by omega
    rw [balanced.held, Walk.stack, here, below, above, isDepth]
    rfl
  exact {
    low := by
      dsimp only [Walk.closed]
      omega
    held := replay_closed [w.fds w.scan.depth] held
    apart := not_mem_closed balanced.apart [w.fds w.scan.depth] }

theorem Walk.Balanced.followLink (balanced : w.Balanced rootFd) (kernel : Kernel)
    (comp rest : Bytes) : (w.followLink tree root kernel comp rest).Balanced rootFd := by
  have counted : Walk.Balanced rootFd { w with scan.links := w.scan.links + 1 } :=
    { balanced with }
  unfold Walk.followLink
  dsimp only
  by_cases many : 40 < w.scan.links + 1
  · rw [if_pos many]
    exact counted.done .eloop
  · rw [if_neg many]
    cases attempt (kernel.refuses .readlinkat)
        (readlinkat tree (w.scan.dirs w.scan.depth) comp (pathMax - 1)) with
    | error errno => exact counted.done errno
    | ok link =>
      dsimp only
      by_cases long : link.length = pathMax - 1
      · rw [if_pos long]
        exact counted.done .enametoolong
      · rw [if_neg long]
        cases redirect root (kernel.refuses .fdPath) link with
        | none => exact counted.done .eperm
        | some redirected =>
          dsimp only
          generalize next :
            redirected.1 ++ (if rest = [] then [] else [slash]) ++ rest = text
          -- An absolute link has closed everything before its text is spliced in.
          have rewound : Walk.Balanced rootFd (if redirected.2 = true then
              Walk.closeAll { w with scan.links := w.scan.links + 1 }
              else { w with scan.links := w.scan.links + 1 }) := by
            split_ifs
            · exact counted.closeAll
            · exact counted
          by_cases full : pathMax ≤ text.length
          · rw [if_pos full]
            exact rewound.done .enametoolong
          · rw [if_neg full]
            exact { rewound with }

theorem Walk.Balanced.descend (balanced : w.Balanced rootFd) {kernel : Kernel} (comp rest : Bytes)
    (fresh : ¬inUse w.log kernel.fresh) (other : kernel.fresh ≠ rootFd) :
    (w.descend tree kernel comp rest).Balanced rootFd := by
  unfold Walk.descend
  cases attempt (kernel.refuses .openat)
      (openat tree (w.scan.dirs w.scan.depth) comp (rest ≠ [])) with
  | error errno => exact balanced.done errno
  | ok node =>
    dsimp only
    by_cases final : rest = []
    · rw [if_pos final]
      exact balanced.done_opened node fresh other
    · rw [if_neg final]
      by_cases deep : (w.opened kernel.fresh).scan.depth = 255
      · rw [if_pos deep]
        exact balanced.done_closed .eloop fresh other
      · rw [if_neg deep]
        exact balanced.push node rest fresh other

theorem Walk.Balanced.round (balanced : w.Balanced rootFd) {kernel : Kernel}
    (fresh : ¬inUse w.log kernel.fresh) (other : kernel.fresh ≠ rootFd) :
    (w.round tree root kernel).Balanced rootFd := by
  unfold Walk.round
  by_cases finished : w.scan.todo = []
  · rw [if_pos finished]
    cases attempt (kernel.refuses .openat)
        (openat tree (w.scan.dirs w.scan.depth) dot true) with
    | error errno => exact balanced.done errno
    | ok node => exact balanced.done_opened node fresh other
  · rw [if_neg finished]
    dsimp only
    split_ifs with here up bottom
    · exact { balanced with }
    · exact balanced.done .eperm
    · exact balanced.pop bottom _
    · cases attempt (kernel.refuses .fstatat)
          (fstatat tree (w.scan.dirs w.scan.depth) (component w.scan.todo)) with
      | error errno => exact balanced.done errno
      | ok node =>
        cases node with
        | link target => exact balanced.followLink kernel _ _
        | file => exact balanced.descend _ _ fresh other
        | dir entries => exact balanced.descend _ _ fresh other

theorem reachable_balanced {relative : Bytes} {work : Work}
    (reached : (openHandles tree root rootFd relative).Reachable work) :
    work.Balanced rootFd := by
  apply reached.invariant
  · change (begin root rootFd relative).Balanced rootFd
    unfold begin
    by_cases long : pathMax ≤ relative.length
    · rw [if_pos long]
      exact ⟨rfl, List.not_mem_nil⟩
    · rw [if_neg long]
      exact { low := Int.le_refl _, held := rfl, apart := List.not_mem_nil }
  · intro work kernel next balanced move
    cases work with
    | looping w =>
      obtain ⟨unused, same⟩ := Option.ite_none_left_eq_some.mp move
      obtain rfl := Option.some.inj same
      rw [not_or] at unused
      exact Walk.Balanced.round balanced unused.2 unused.1
    | ended log result => cases move

theorem root_untouched {log : List (Event Fd)} {held : List Fd} (run : replay log [] = some held)
    (apart : .opened rootFd ∉ log) : ∀ event ∈ log, event.fd ≠ rootFd := by
  rintro event member rfl
  have turns := (tidy_of_replay run).alternate log List.prefix_rfl event.fd
  have none := List.count_eq_zero.mpr apart
  cases event with
  | opened fd => exact apart member
  | closed fd =>
    have some := List.count_pos_iff.mpr member
    simp only [Event.fd] at turns none
    omega

-- Some number is free: the loop has opened finitely many.
theorem exists_fresh (rootFd : Fd) (log : List (Event Fd)) :
    ∃ fresh, fresh ≠ rootFd ∧ ¬inUse log fresh := by
  obtain ⟨fresh, free⟩ := Infinite.exists_notMem_finset (rootFd :: log.map Event.fd).toFinset
  simp only [List.mem_toFinset, List.mem_cons, not_or, List.mem_map, not_exists, not_and] at free
  refine ⟨fresh, free.1, ?_⟩
  have never : log.count (.opened fresh) = 0 :=
    List.count_eq_zero.mpr fun member => free.2 _ member rfl
  rw [inUse, never]
  exact Nat.not_lt_zero _

-- Whatever the links say and whatever the kernel refuses, the loop goes on until it ends, and it
-- cannot go on for ever.
theorem openHandles_ends (tree : Node) (root : Position) (rootFd : Fd) (relative : Bytes) :
    (WellFounded fun next work =>
      ∃ kernel, (openHandles tree root rootFd relative).step kernel work = some next) ∧
    ∀ w refuses, ∃ fresh next,
      (openHandles tree root rootFd relative).step ⟨refuses, fresh⟩ (.looping w) = some next := by
  constructor
  · apply Subrelation.wf _ (InvImage.wf Work.progress (scan_wellFounded tree root relative))
    rintro next work ⟨kernel, move⟩
    exact ⟨kernel.refuses, step_openHandles move⟩
  · intro w refuses
    obtain ⟨fresh, other, free⟩ := exists_fresh rootFd w.log
    exact ⟨fresh, _, if_neg (not_or.mpr ⟨other, free⟩)⟩

end

/-- The loop ends with the stack and the buffer in bounds, every descriptor it opened closed once
except for the one it hands out, and the root's never touched. -/
theorem openHandles_tidy (tree : Node) (root : Directory tree) (rootFd : Fd) (relative : Bytes) :
    (WellFounded fun next work =>
      ∃ kernel, (openHandles tree root.position rootFd relative).step kernel work = some next) ∧
    (∀ w refuses, ∃ fresh next, (openHandles tree root.position rootFd relative).step
      ⟨refuses, fresh⟩ (.looping w) = some next) ∧
    (∀ w, (openHandles tree root.position rootFd relative).Reachable (.looping w) →
      w.scan.todo.length < pathMax ∧ 0 ≤ w.scan.depth ∧ w.scan.depth ≤ 255 ∧
        ∀ event ∈ w.log, event.fd ≠ rootFd) ∧
    ∀ log result, (openHandles tree root.position rootFd relative).Reachable (.ended log result) →
      Tidy log (kept result) ∧ ∀ event ∈ log, event.fd ≠ rootFd := by
  obtain ⟨ends, goesOn⟩ := openHandles_ends tree root.position rootFd relative
  refine ⟨ends, goesOn, ?_, ?_⟩
  · intro w reached
    have confined : Confined tree root.position w.scan :=
      reachable_confined root (reachable_progress reached)
    obtain ⟨-, held, apart⟩ := reachable_balanced reached
    exact ⟨confined.fits, confined.low, confined.high, root_untouched held apart⟩
  · intro log result reached
    obtain ⟨held, apart⟩ := reachable_balanced reached
    exact ⟨tidy_of_replay held, root_untouched held apart⟩

-- The link leads through `b`, whose number is free again when `c` is opened.
theorem openHandles_tidy_link : ∃ (tree : Node) (root : Directory tree) (log : List (Event Fd))
    (node : Position),
    (openHandles tree root.position 3 [0x61]).Reachable (.ended log (.ok (7, node))) ∧
      log = [.opened 7, .closed 7, .opened 7] ∧ Tidy log [7] ∧ ∀ event ∈ log, event.fd ≠ 3 := by
  let s : Name := ⟨[0x73], by decide, by decide, by decide, by decide⟩
  let a : Name := ⟨[0x61], by decide, by decide, by decide, by decide⟩
  let b : Name := ⟨[0x62], by decide, by decide, by decide, by decide⟩
  let c : Name := ⟨[0x63], by decide, by decide, by decide, by decide⟩
  let root : Directory (linked s a b c) := ⟨[s], by decide⟩
  let hands (fresh : Fd) : Kernel := ⟨fun _ => none, fresh⟩
  have ran : (((openHandles (linked s a b c) root.position 3 [0x61]).exec
      [hands 7, hands 7, hands 8, hands 7]
      (openHandles (linked s a b c) root.position 3 [0x61]).init).bind Work.outcome?) =
        some ([.opened 7, .closed 7, .opened 7], .ok (7, [s, c])) := by decide +kernel
  obtain ⟨work, run, ended⟩ := Option.bind_eq_some_iff.mp ran
  have reached := Machine.reachable_of_exec run
  cases work with
  | looping w => cases ended
  | ended log result =>
    obtain ⟨rfl, rfl⟩ := Prod.mk.inj (Option.some.inj ended)
    obtain ⟨tidy, apart⟩ := (openHandles_tidy (linked s a b c) root 3 [0x61]).2.2.2 _ _ reached
    exact ⟨_, root, _, _, reached, rfl, tidy, apart⟩

end HttpServer.Resolver
