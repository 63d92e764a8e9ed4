import Mathlib.Data.List.Basic
import Mathlib.Data.List.Count
import Mathlib.Data.List.Infix
import Mathlib.Data.List.Nodup

set_option autoImplicit false

/-!
# Descriptors opened and closed

A number may be handed out again once it was closed, so that what counts is the order of openings
and closings.
-/

namespace Descriptors

inductive Event (Fd : Type) where
  | opened (fd : Fd)
  | closed (fd : Fd)
  deriving DecidableEq

variable {Fd : Type}

def Event.fd : Event Fd → Fd
  | .opened fd => fd
  | .closed fd => fd

variable [DecidableEq Fd]

-- One event, for somebody who holds `held`: a number in use is not handed out, and nothing else
-- is closed.
def settle (held : List Fd) : Event Fd → Option (List Fd)
  | .opened fd => if fd ∈ held then none else some (fd :: held)
  | .closed fd => if fd ∈ held then some (held.erase fd) else none

def replay (log : List (Event Fd)) (held : List Fd) : Option (List Fd) := log.foldlM settle held

def inUse (log : List (Event Fd)) (fd : Fd) : Prop :=
  log.count (.closed fd) < log.count (.opened fd)

instance (log : List (Event Fd)) (fd : Fd) : Decidable (inUse log fd) :=
  inferInstanceAs (Decidable (_ < _))

/-- Openings and closings of each number take turns, and in the end `kept` alone is open. -/
structure Tidy (log : List (Event Fd)) (kept : List Fd) : Prop where
  alternate : ∀ front, front <+: log → ∀ fd, front.count (.closed fd) ≤ front.count (.opened fd) ∧
    front.count (.opened fd) ≤ front.count (.closed fd) + 1
  settled : ∀ fd, log.count (.opened fd) = log.count (.closed fd) + kept.count fd

theorem replay_append (front back : List (Event Fd)) (held : List Fd) :
    replay (front ++ back) held = (replay front held).bind (replay back) := by
  rw [replay, List.foldlM_append]
  rfl

theorem settle_nodup {held next : List Fd} {event : Event Fd} (nodup : held.Nodup)
    (move : settle held event = some next) : next.Nodup := by
  cases event with
  | opened fd =>
    rw [settle, Option.ite_none_left_eq_some, Option.some.injEq] at move
    obtain ⟨fresh, rfl⟩ := move
    exact nodup.cons fresh
  | closed fd =>
    rw [settle, Option.ite_none_right_eq_some, Option.some.injEq] at move
    obtain ⟨-, rfl⟩ := move
    exact nodup.erase fd

theorem settle_count {held next : List Fd} {event : Event Fd} (move : settle held event = some next)
    (fd : Fd) :
    held.count fd + [event].count (.opened fd) = next.count fd + [event].count (.closed fd) := by
  cases event with
  | opened other =>
    rw [settle, Option.ite_none_left_eq_some, Option.some.injEq] at move
    obtain ⟨-, rfl⟩ := move
    by_cases same : other = fd <;> simp [same]
  | closed other =>
    rw [settle, Option.ite_none_right_eq_some, Option.some.injEq] at move
    obtain ⟨member, rfl⟩ := move
    by_cases same : other = fd
    · subst same
      have some := List.count_pos_iff.mpr member
      simp only [List.count_cons, List.count_nil, List.count_erase_self]
      simp
      omega
    · simp [same, List.count_erase_of_ne (Ne.symm same)]

theorem replay_nodup {log : List (Event Fd)} {held last : List Fd} (nodup : held.Nodup)
    (run : replay log held = some last) : last.Nodup := by
  induction log generalizing held with
  | nil =>
    obtain rfl := Option.some.inj run
    exact nodup
  | cons event rest ih =>
    obtain ⟨next, move, more⟩ := Option.bind_eq_some_iff.mp run
    exact ih (settle_nodup nodup move) more

theorem replay_count {log : List (Event Fd)} {held last : List Fd}
    (run : replay log held = some last) (fd : Fd) :
    held.count fd + log.count (.opened fd) = last.count fd + log.count (.closed fd) := by
  induction log generalizing held with
  | nil =>
    obtain rfl := Option.some.inj run
    simp
  | cons event rest ih =>
    obtain ⟨next, move, more⟩ := Option.bind_eq_some_iff.mp run
    have here := settle_count move fd
    have later := ih more
    rw [← List.singleton_append, List.count_append, List.count_append]
    omega

theorem inUse_iff {log : List (Event Fd)} {held : List Fd} (run : replay log [] = some held)
    (fd : Fd) : inUse log fd ↔ fd ∈ held := by
  have count := replay_count run fd
  rw [List.count_nil] at count
  rw [inUse, ← List.count_pos_iff]
  omega

-- A log that replays is in order all along.
theorem tidy_of_replay {log : List (Event Fd)} {kept : List Fd} (run : replay log [] = some kept) :
    Tidy log kept := by
  constructor
  · rintro front ⟨back, rfl⟩ fd
    rw [replay_append] at run
    obtain ⟨held, first, -⟩ := Option.bind_eq_some_iff.mp run
    have count := replay_count first fd
    have once := List.nodup_iff_count_le_one.mp (replay_nodup List.nodup_nil first) fd
    rw [List.count_nil] at count
    omega
  · intro fd
    have count := replay_count run fd
    rw [List.count_nil] at count
    omega

theorem replay_opened {log : List (Event Fd)} {held : List Fd} {fd : Fd}
    (run : replay log [] = some held) (fresh : ¬inUse log fd) :
    replay (log ++ [.opened fd]) [] = some (fd :: held) := by
  rw [inUse_iff run] at fresh
  rw [replay_append, run]
  simp [replay, settle, fresh]

-- A run of open descriptors is closed, the others stay open.
theorem replay_closed {log : List (Event Fd)} {front back : List Fd} (gone : List Fd)
    (run : replay log [] = some (front ++ gone ++ back)) :
    replay (log ++ gone.map .closed) [] = some (front ++ back) := by
  induction gone generalizing log with
  | nil => simpa using run
  | cons fd gone ih =>
    -- What is open is open once, so that the close takes nothing off the front.
    have distinct := replay_nodup List.nodup_nil run
    have later : fd ∉ front := by
      intro member
      rw [List.append_assoc] at distinct
      exact (List.nodup_append.mp distinct).2.2 fd member fd (by simp) rfl
    have next : replay (log ++ [.closed fd]) [] = some (front ++ gone ++ back) := by
      rw [replay_append, run]
      simp [replay, settle, List.erase_append_right _ later]
    have rest := ih next
    rwa [List.append_assoc] at rest

end Descriptors
