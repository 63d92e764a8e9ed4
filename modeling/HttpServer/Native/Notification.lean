import HttpServer.Library.OrderedMap
import HttpServer.Library.Transition

set_option autoImplicit false

/-!
# How the owner hears of a job that is done

Workers announce what is done by one byte in a pipe, and a flag says that there is such a byte. The
tasks that wait for their jobs take turns at a gate; who holds it reads the byte and clears the flag.
-/

namespace HttpServer.Notification

open OrderedMap

/-- A worker before `done` is set, before `hs_notify`, before the byte is written, and after it. -/
inductive Worker where
  | working
  | published
  | writing
  | through
  deriving DecidableEq

/-- Where `Runtime::wait` is: before the test of its loop, at the gate, inside before the second
test, at the pipe, with a byte and before `hs_io_ack`, and at its end. -/
inductive Waiter where
  | top
  | queued
  | holding
  | reading
  | received
  | returned
  deriving DecidableEq

/-- `shielded` is the second `wait` of `Runtime::run`, which follows a cancellation. -/
structure Task where
  worker : Worker
  waiter : Waiter
  shielded : Bool
  deriving DecidableEq

def Task.new : Task where
  worker := .working
  waiter := .top
  shielded := false

def Task.done (t : Task) : Bool := t.worker ≠ .working

structure State where
  notified : Bool
  bytes : Nat
  gate : Option Nat
  queue : List Nat
  tasks : OrderedMap Nat Task

def State.initial : State where
  notified := false
  bytes := 0
  gate := none
  queue := []
  tasks := ∅

namespace State

def setWorker (s : State) (i : Nat) (t : Task) (worker : Worker) : State :=
  { s with tasks := s.tasks.insert i { t with worker } }

def setWaiter (s : State) (i : Nat) (t : Task) (waiter : Waiter) : State :=
  { s with tasks := s.tasks.insert i { t with waiter } }

def hsNotify (s : State) (i : Nat) (t : Task) : State :=
  if s.notified then s.setWorker i t .through
  else { s.setWorker i t .writing with notified := true }

def acquire (s : State) (i : Nat) (t : Task) : State :=
  if s.gate = none then { s.setWaiter i t .holding with gate := some i }
  else { s.setWaiter i t .queued with queue := s.queue ++ [i] }

-- The gate goes to the first that waits for it.
def release (s : State) : State :=
  match s.queue with
  | [] => { s with gate := none }
  | i :: rest =>
      { s with
        gate := some i
        queue := rest
        tasks := s.tasks.modify i fun t => { t with waiter := .holding } }

-- A cancelled wait ends with an error, after which `Runtime::run` waits again.
def cancel (s : State) (i : Nat) (t : Task) : Option State :=
  let again : Task := { t with waiter := .top, shielded := true }
  if t.shielded then none
  else
    match t.waiter with
    | .queued => some { s with tasks := s.tasks.insert i again, queue := s.queue.erase i }
    | .reading => some (release { s with tasks := s.tasks.insert i again })
    | _ => none

end State

inductive Move where
  | publish
  | notify
  | write
  | check
  | inspect
  | read
  | ack
  | cancel
  deriving DecidableEq

inductive Label where
  | spawn (i : Nat)
  | task (i : Nat) (move : Move)
  deriving DecidableEq

namespace State

def move (s : State) (i : Nat) (t : Task) : Move → Option State
  | .publish => if t.worker = .working then some (s.setWorker i t .published) else none
  | .notify => if t.worker = .published then some (s.hsNotify i t) else none
  | .write =>
      if t.worker = .writing then
        some { s.setWorker i t .through with bytes := s.bytes + 1 }
      else none
  | .check =>
      if t.waiter = .top then
        some (if t.done then s.setWaiter i t .returned else s.acquire i t)
      else none
  | .inspect =>
      if t.waiter = .holding then
        some (if t.done then (s.setWaiter i t .top).release else s.setWaiter i t .reading)
      else none
  | .read =>
      if t.waiter = .reading ∧ 0 < s.bytes then
        some { s.setWaiter i t .received with bytes := s.bytes - 1 }
      else none
  -- no worker can tell the release of the gate from the acknowledgement before it
  | .ack =>
      if t.waiter = .received then
        some ({ s.setWaiter i t .top with notified := false }).release
      else none
  | .cancel => s.cancel i t

def step : Label → State → Option State
  | .spawn i, s =>
      if s.tasks.get i = none then some { s with tasks := s.tasks.insert i .new } else none
  | .task i move, s =>
      match s.tasks.get i with
      | none => none
      | some t => s.move i t move

end State

def runtime : Machine State Label where
  init := .initial
  step := State.step

def Task.holds (t : Task) : Prop := t.waiter = .holding ∨ t.waiter = .reading ∨ t.waiter = .received

-- The byte on its way: about to be written, or taken and not acknowledged.
def Task.token (t : Task) : Int :=
  (if t.worker = .writing then 1 else 0) + if t.waiter = .received then 1 else 0

structure Ordered (s : State) : Prop where
  token : (s.tasks.sum fun _ t => t.token) + s.bytes = if s.notified then 1 else 0
  gate : ∀ i t, s.tasks.get i = some t → (s.gate = some i ↔ t.holds)
  queue : ∀ i t, s.tasks.get i = some t → (i ∈ s.queue ↔ t.waiter = .queued)
  known : ∀ i, (i ∈ s.queue ∨ s.gate = some i) → s.tasks.get i ≠ none
  nodup : s.queue.Nodup
  free : s.gate = none → s.queue = []

section

variable {s : State} {i : Nat} {t t' : Task} {notified : Bool} {bytes : Nat}

theorem Ordered.gate_free (ordered : Ordered s) (present : s.tasks.get i = some t)
    (gate : s.gate = none) : ¬ t.holds := by
  rw [← ordered.gate i t present, gate]
  simp

-- A task that stays where it is at the gate may go on.
theorem Ordered.put (ordered : Ordered s) (present : s.tasks.get i = some t)
    (holds : t'.holds ↔ t.holds) (queued : t'.waiter = .queued ↔ t.waiter = .queued)
    (token : t'.token - t.token + bytes - s.bytes =
      (if notified then 1 else 0) - if s.notified then 1 else 0) :
    Ordered { s with tasks := s.tasks.insert i t', notified, bytes } where
  token := by
    have before := ordered.token
    dsimp only
    rw [sum_insert present]
    omega
  gate := by
    apply forall_insert
    · rw [holds]
      exact ordered.gate i t present
    · exact fun key other _ found => ordered.gate key other found
  queue := by
    apply forall_insert
    · rw [queued]
      exact ordered.queue i t present
    · exact fun key other _ found => ordered.queue key other found
  known key waits := mt (get_insert_none present).mp (ordered.known key waits)
  nodup := ordered.nodup
  free := ordered.free

theorem Ordered.work (ordered : Ordered s) (present : s.tasks.get i = some t) (worker : Worker)
    (token : (if worker = .writing then 1 else 0) - (if t.worker = .writing then 1 else 0) + bytes -
      s.bytes = (if notified then 1 else 0) - if s.notified then 1 else (0 : Int)) :
    Ordered { s with tasks := s.tasks.insert i { t with worker }, notified, bytes } := by
  apply ordered.put present
  case holds => rfl
  case queued => rfl
  case token =>
    rw [← token]
    simp only [Task.token]
    omega

theorem Ordered.enter (ordered : Ordered s) (present : s.tasks.get i = some t)
    (top : t.waiter = .top) : Ordered (s.acquire i t) := by
  have outside : i ∉ s.queue := by
    rw [ordered.queue i t present, top]
    simp
  unfold State.acquire
  split_ifs with gate
  · constructor
    case token =>
      have before := ordered.token
      have same : ({ t with waiter := .holding } : Task).token = t.token := by simp [Task.token, top]
      simp only [State.setWaiter]
      rw [sum_insert present, same, sub_add_cancel]
      exact before
    case gate =>
      apply forall_insert
      · simp [Task.holds]
      · intro key other elsewhere found
        have closed := ordered.gate_free found gate
        simp [closed, Ne.symm elsewhere]
    case queue =>
      apply forall_insert
      · simpa [State.setWaiter] using outside
      · exact fun key other _ found => ordered.queue key other found
    case known =>
      rintro key (queued | holds)
      · exact mt (get_insert_none present).mp (ordered.known key (Or.inl queued))
      · obtain rfl := Option.some.inj holds
        simp [State.setWaiter]
    case nodup => exact ordered.nodup
    case free => simp
  · constructor
    case token =>
      have before := ordered.token
      have same : ({ t with waiter := .queued } : Task).token = t.token := by simp [Task.token, top]
      simp only [State.setWaiter]
      rw [sum_insert present, same, sub_add_cancel]
      exact before
    case gate =>
      apply forall_insert
      · have away := ordered.gate i t present
        simpa [Task.holds, top, State.setWaiter] using away
      · exact fun key other _ found => ordered.gate key other found
    case queue =>
      apply forall_insert
      · simp
      · intro key other elsewhere found
        simpa [elsewhere, State.setWaiter] using ordered.queue key other found
    case known =>
      rintro key (queued | holds)
      · rcases List.mem_append.mp queued with before | last
        · exact mt (get_insert_none present).mp (ordered.known key (Or.inl before))
        · obtain rfl := List.mem_singleton.mp last
          simp [State.setWaiter]
      · exact mt (get_insert_none present).mp (ordered.known key (Or.inr holds))
    case nodup =>
      dsimp only
      rw [List.nodup_append]
      refine ⟨ordered.nodup, List.nodup_singleton i, ?_⟩
      intro first member second last
      obtain rfl := List.mem_singleton.mp last
      rintro rfl
      exact outside member
    case free => exact fun none => absurd none gate

theorem Ordered.leave (ordered : Ordered s) (present : s.tasks.get i = some t) (holder : t.holds)
    (top : t'.waiter = .top)
    (token : t'.token - t.token = (if notified then 1 else 0) - if s.notified then 1 else 0) :
    Ordered ({ s with tasks := s.tasks.insert i t', notified } : State).release := by
  have gate : s.gate = some i := (ordered.gate i t present).mpr holder
  have single : ∀ key other, s.tasks.get key = some other → other.holds → key = i := by
    intro key other found holds
    have also := (ordered.gate key other found).mpr holds
    rw [gate] at also
    exact (Option.some.inj also).symm
  have outside : i ∉ s.queue := by
    rw [ordered.queue i t present]
    rcases holder with holding | reading | received
    · simp [holding]
    · simp [reading]
    · simp [received]
  have before := ordered.token
  cases queue : s.queue with
  | nil =>
    simp only [State.release]
    constructor
    case token =>
      dsimp only
      rw [sum_insert present]
      omega
    case gate =>
      apply forall_insert
      · simp [Task.holds, top]
      · intro key other elsewhere found
        have away : ¬ other.holds := fun holds => elsewhere (single key other found holds)
        simp [away]
    case queue =>
      apply forall_insert
      · simp [top]
      · intro key other _ found
        have old := ordered.queue key other found
        rw [queue] at old
        exact old
    case known =>
      intro key waits
      simp only [List.not_mem_nil, reduceCtorEq, or_self] at waits
    case nodup => exact List.nodup_nil
    case free => exact fun _ => rfl
  | cons first rest =>
    have waits : first ∈ s.queue := by simp [queue]
    have other : first ≠ i := by
      rintro rfl
      exact outside waits
    obtain ⟨next, found⟩ := Option.ne_none_iff_exists'.mp (ordered.known first (Or.inl waits))
    have queued := (ordered.queue first next found).mp waits
    have moved : (s.tasks.insert i t').get first = some next := by rw [get_insert_ne _ _ other, found]
    have nodup := ordered.nodup
    rw [queue, List.nodup_cons] at nodup
    simp only [State.release]
    rw [modify_some moved]
    constructor
    case token =>
      have same : ({ next with waiter := .holding } : Task).token = next.token := by
        simp [Task.token, queued]
      dsimp only
      rw [sum_insert moved, same, sum_insert present]
      omega
    case gate =>
      apply forall_insert
      · simp [Task.holds]
      · intro key task here known
        rcases get_insert_eq_some.mp known with ⟨rfl, rfl⟩ | ⟨elsewhere, before⟩
        · simp [other, Task.holds, top]
        · have away : ¬ task.holds := fun holds => elsewhere (single key task before holds)
          simp [away, Ne.symm here]
    case queue =>
      apply forall_insert
      · simp [nodup.1]
      · intro key task here known
        rcases get_insert_eq_some.mp known with ⟨rfl, rfl⟩ | ⟨-, before⟩
        · have gone : key ∉ rest := fun member => outside (by simp [queue, member])
          simp [gone, top]
        · have old := ordered.queue key task before
          rw [queue, List.mem_cons, or_iff_right here] at old
          exact old
    case known =>
      intro key member
      dsimp only at member ⊢
      rw [get_insert]
      split_ifs with here
      · simp
      · rw [get_insert]
        split_ifs with same
        · simp
        · rcases member with later | now
          · exact ordered.known key (Or.inl (by simp [queue, later]))
          · exact absurd (Option.some.inj now).symm here
    case nodup => exact nodup.2
    case free => simp

theorem Ordered.give_up (ordered : Ordered s) (present : s.tasks.get i = some t)
    (queued : t.waiter = .queued) (top : t'.waiter = .top) (worker : t'.worker = t.worker) :
    Ordered { s with tasks := s.tasks.insert i t', queue := s.queue.erase i } := by
  have away : ¬ t.holds := by simp [Task.holds, queued]
  constructor
  case token =>
    have before := ordered.token
    have same : t'.token = t.token := by simp [Task.token, queued, top, worker]
    dsimp only
    rw [sum_insert present, same]
    omega
  case gate =>
    apply forall_insert
    · have free := ordered.gate i t present
      simpa [Task.holds, top, queued] using free
    · exact fun key other _ found => ordered.gate key other found
  case queue =>
    simp only [ordered.nodup.mem_erase_iff]
    apply forall_insert
    · simp [top]
    · intro key other elsewhere found
      simpa [elsewhere] using ordered.queue key other found
  case known =>
    intro key waits
    have before := ordered.known key (waits.imp_left List.mem_of_mem_erase)
    exact mt (get_insert_none present).mp before
  case nodup => exact ordered.nodup.erase i
  case free =>
    intro gate
    dsimp only
    rw [ordered.free gate]
    rfl

theorem ordered_initial : Ordered .initial where
  token := rfl
  gate _ _ found := by cases found
  queue _ _ found := by cases found
  known _ waits := by simp [State.initial] at waits
  nodup := List.nodup_nil
  free _ := rfl

theorem Ordered.spawn (ordered : Ordered s) (absent : s.tasks.get i = none) :
    Ordered { s with tasks := s.tasks.insert i .new } where
  token := by
    have none : Task.token .new = 0 := rfl
    have before := ordered.token
    dsimp only
    rw [sum_insert_absent absent, none, Int.add_zero]
    exact before
  gate := by
    apply forall_insert
    · have away : ¬ s.gate = some i := fun gate => ordered.known i (Or.inr gate) absent
      simp [away, Task.holds, Task.new]
    · exact fun key other _ found => ordered.gate key other found
  queue := by
    apply forall_insert
    · have away : i ∉ s.queue := fun member => ordered.known i (Or.inl member) absent
      simp [away, Task.new]
    · exact fun key other _ found => ordered.queue key other found
  known key waits := by
    dsimp only
    rw [get_insert]
    split_ifs
    · simp
    · exact ordered.known key waits
  nodup := ordered.nodup
  free := ordered.free

theorem Ordered.cancel {s' : State} (ordered : Ordered s) (present : s.tasks.get i = some t)
    (run : s.cancel i t = some s') : Ordered s' := by
  unfold State.cancel at run
  dsimp only at run
  split_ifs at run
  split at run
  · rename_i queued
    cases run
    exact ordered.give_up present queued rfl rfl
  · rename_i reading
    cases run
    apply ordered.leave present (Or.inr (Or.inl reading)) rfl
    simp [Task.token, reading]
  · cases run

theorem Ordered.move {s' : State} {m : Move} (ordered : Ordered s) (present : s.tasks.get i = some t)
    (run : s.move i t m = some s') : Ordered s' := by
  cases m with
  | publish =>
    simp only [State.move] at run
    split_ifs at run with working
    cases run
    exact ordered.work present .published (by simp [working])
  | notify =>
    simp only [State.move] at run
    split_ifs at run with published
    cases run
    unfold State.hsNotify
    split_ifs with notified
    · exact ordered.work present .through (by simp [published])
    · exact ordered.work present .writing (by simp [State.setWorker, published, notified])
  | write =>
    simp only [State.move] at run
    split_ifs at run with writing
    cases run
    have same : ∀ n : Int, n - n = 0 := sub_self
    refine ordered.work present .through (Eq.trans ?_ (same _).symm)
    rw [writing]
    simp
  | check =>
    simp only [State.move] at run
    split_ifs at run with top done
    · cases run
      apply ordered.put present
      · simp [Task.holds, top]
      · simp [top]
      · simp [Task.token, top]
    · cases run
      exact ordered.enter present top
  | inspect =>
    simp only [State.move] at run
    split_ifs at run with holding done
    · cases run
      apply ordered.leave present (Or.inl holding) rfl
      simp [Task.token, holding]
    · cases run
      apply ordered.put present
      · simp [Task.holds, holding]
      · simp [holding]
      · simp [Task.token, holding]
  | read =>
    simp only [State.move] at run
    split_ifs at run with ready
    cases run
    apply ordered.put present
    · simp [Task.holds, ready.1]
    · simp [ready.1]
    · have some_byte := ready.2
      have same : ∀ n : Int, n - n = 0 := sub_self
      simp only [Task.token, ready.1, reduceCtorEq, if_false, if_true]
      refine Eq.trans ?_ (same _).symm
      omega
  | ack =>
    simp only [State.move] at run
    split_ifs at run with received
    cases run
    -- the byte of this task is the only one, so that the flag was set
    have least : t.token ≤ s.tasks.sum fun _ t => t.token :=
      le_sum present fun _ other _ => by
        unfold Task.token
        split_ifs <;> decide
    have before := ordered.token
    have one : 1 ≤ t.token := by
      simp only [Task.token, received, if_true]
      split_ifs <;> decide
    have set : s.notified = true := by
      by_contra clear
      rw [if_neg clear] at before
      omega
    apply ordered.leave present (Or.inr (Or.inr received)) rfl
    simp [Task.token, received, set]
  | cancel => exact ordered.cancel present run

theorem ordered_step {s' : State} {label : Label} (ordered : Ordered s)
    (step : State.step label s = some s') : Ordered s' := by
  cases label with
  | spawn i =>
    simp only [State.step] at step
    split_ifs at step with absent
    cases step
    exact ordered.spawn absent
  | task i m =>
    simp only [State.step] at step
    split at step
    · cases step
    · exact ordered.move ‹_› step

theorem reachable_ordered (reached : runtime.Reachable s) : Ordered s :=
  reached.invariant ordered_initial fun _ _ _ ordered step => ordered_step ordered step

end

def Task.blocked (t : Task) : Bool := t.waiter = .queued ∨ t.waiter = .reading

/-- A job is done and its task does not get to know: it is blocked, the pipe is empty, no worker
goes to write a byte, and nobody has read one that is still to be acknowledged. -/
def State.Lost (s : State) : Prop :=
  (∃ i t, s.tasks.get i = some t ∧ t.done = true ∧ t.blocked = true) ∧ s.bytes = 0 ∧
    ∀ i t, s.tasks.get i = some t →
      t.worker ≠ .published ∧ t.worker ≠ .writing ∧ t.waiter ≠ .received

def State.doneOf (s : State) (i : Nat) : Bool := (s.tasks.get i).any Task.done

-- An acknowledgement leaves nobody behind: of those that wait at the gate only the first, who
-- is let in, may have a job that is done, unless a worker is about to announce another one.
def State.passes : Label → State → Bool
  | .task _ .ack, s =>
      s.queue.tail.all (fun i => !s.doneOf i) || s.tasks.values.any fun t => t.worker = .published
  | _, _ => true

def passing : Machine State Label where
  init := .initial
  step label s := if s.passes label then s.step label else none

-- Where somebody is behind, there is a byte or a worker that goes to write one.
def State.Heard (s : State) : Prop :=
  ∀ i t, s.tasks.get i = some t → t.done = true → t.blocked = true →
    s.notified = true ∨ ∃ key other, s.tasks.get key = some other ∧ other.worker = .published

section

variable {s s' : State} {i : Nat} {t t' : Task} {label : Label}

theorem Task.token_nonneg (t : Task) : 0 ≤ t.token := by
  unfold Task.token
  split_ifs <;> decide

theorem Ordered.token_le (ordered : Ordered s) (present : s.tasks.get i = some t) :
    t.token + s.bytes ≤ if s.notified then 1 else 0 := by
  have least : t.token ≤ s.tasks.sum fun _ t => t.token :=
    le_sum present fun _ other _ => other.token_nonneg
  have whole := ordered.token
  rw [← whole]
  omega

theorem Ordered.one_byte (ordered : Ordered s) : s.bytes ≤ 1 := by
  have least : 0 ≤ s.tasks.sum fun _ t => t.token := sum_nonneg fun _ other _ => other.token_nonneg
  have whole := ordered.token
  split_ifs at whole <;> omega

-- The flag is set while a byte is on its way.
theorem Ordered.set_flag (ordered : Ordered s) :
    s.notified = true ↔ 0 < s.bytes ∨
      ∃ key other, s.tasks.get key = some other ∧ (other.worker = .writing ∨ other.waiter = .received) := by
  constructor
  · intro set
    by_contra none
    obtain ⟨empty, still⟩ := not_or.mp none
    have zero : (s.tasks.sum fun _ t => t.token) = 0 := by
      apply sum_eq_zero
      intro key other found
      have away : other.worker ≠ .writing ∧ other.waiter ≠ .received := by
        constructor
        · exact fun writing => still ⟨key, other, found, Or.inl writing⟩
        · exact fun received => still ⟨key, other, found, Or.inr received⟩
      simp [Task.token, away]
    have whole := ordered.token
    rw [if_pos set, zero] at whole
    omega
  · intro some_byte
    by_contra clear
    have none : ∀ key other, s.tasks.get key = some other → other.token + s.bytes ≤ 0 := by
      intro key other found
      have most := ordered.token_le found
      rwa [if_neg clear] at most
    rcases some_byte with positive | ⟨key, other, found, going⟩
    · have least : 0 ≤ s.tasks.sum fun _ t => t.token :=
        sum_nonneg fun _ other _ => other.token_nonneg
      have whole := ordered.token
      rw [if_neg clear] at whole
      omega
    · have most := none key other found
      have one : 1 ≤ other.token := by
        unfold Task.token
        rcases going with writing | received
        · rw [if_pos writing]
          split_ifs <;> decide
        · rw [if_pos received]
          split_ifs <;> decide
      omega

theorem Ordered.lost_iff (ordered : Ordered s) : s.Lost ↔ ¬ s.Heard := by
  constructor
  · rintro ⟨⟨i, t, found, done, blocked⟩, empty, quiet⟩ heard
    rcases heard i t found done blocked with set | ⟨key, other, present, published⟩
    · rcases ordered.set_flag.mp set with positive | ⟨key, other, present, going⟩
      · omega
      · exact going.elim (quiet key other present).2.1 (quiet key other present).2.2
    · exact (quiet key other present).1 published
  · intro unheard
    simp only [State.Heard, not_forall, not_or] at unheard
    obtain ⟨i, t, found, done, blocked, clear, unpublished⟩ := unheard
    have still := ordered.set_flag.not.mp clear
    refine ⟨⟨i, t, found, done, blocked⟩, ?_, ?_⟩
    · by_contra positive
      exact still (Or.inl (Nat.pos_of_ne_zero positive))
    · intro key other present
      refine ⟨?_, ?_, ?_⟩
      · exact fun published => unpublished ⟨key, other, present, published⟩
      · exact fun writing => still (Or.inr ⟨key, other, present, Or.inl writing⟩)
      · exact fun received => still (Or.inr ⟨key, other, present, Or.inr received⟩)

/-- No worker is taken back, and who is blocked and done now was so before. -/
structure Keeps (s s' : State) : Prop where
  worker : ∀ key t, s.tasks.get key = some t →
    ∃ t', s'.tasks.get key = some t' ∧ (t.worker = .published → t'.worker = .published)
  blocked : ∀ key t', s'.tasks.get key = some t' → t'.done = true → t'.blocked = true →
    ∃ t, s.tasks.get key = some t ∧ t.done = true ∧ t.blocked = true

theorem Keeps.trans {s'' : State} (first : Keeps s s') (second : Keeps s' s'') : Keeps s s'' where
  worker key t found := by
    obtain ⟨middle, now, same⟩ := first.worker key t found
    obtain ⟨last, later, also⟩ := second.worker key middle now
    exact ⟨last, later, fun published => also (same published)⟩
  blocked key last found done blocked := by
    obtain ⟨middle, now, done, blocked⟩ := second.blocked key last found done blocked
    exact first.blocked key middle now done blocked

theorem keeps_insert (present : s.tasks.get i = some t) (tasks : s'.tasks = s.tasks.insert i t')
    (worker : t.worker = .published → t'.worker = .published)
    (blocked : t'.done = true → t'.blocked = true → t.done = true ∧ t.blocked = true) : Keeps s s' where
  worker key other found := by
    rw [tasks, get_insert]
    split_ifs with same
    · rw [same, present] at found
      cases found
      exact ⟨t', rfl, worker⟩
    · exact ⟨other, found, id⟩
  blocked := by
    rw [tasks]
    apply forall_insert
    · exact fun isDone isBlocked => ⟨t, present, blocked isDone isBlocked⟩
    · exact fun key other _ found isDone isBlocked => ⟨other, found, isDone, isBlocked⟩

theorem keeps_waiter (present : s.tasks.get i = some t) (waiter : Waiter) (shielded : Bool)
    (tasks : s'.tasks = s.tasks.insert i { t with waiter, shielded })
    (free : t.done = true → waiter ≠ .queued ∧ waiter ≠ .reading) : Keeps s s' := by
  apply keeps_insert present tasks
  case worker => exact id
  case blocked =>
    intro done blocked
    have still := free done
    simp [Task.blocked, still] at blocked

theorem keeps_release (s : State) : Keeps s s.release := by
  unfold State.release
  cases s.queue with
  | nil => exact ⟨fun _ t found => ⟨t, found, id⟩, fun _ t found done blocked => ⟨t, found, done, blocked⟩⟩
  | cons first rest =>
    cases present : s.tasks.get first with
    | none =>
      simp only [modify_none present]
      exact ⟨fun _ t found => ⟨t, found, id⟩,
        fun _ t found done blocked => ⟨t, found, done, blocked⟩⟩
    | some next =>
      simp only [modify_some present]
      exact keeps_waiter present .holding next.shielded rfl (by simp)

theorem Keeps.heard (keeps : Keeps s s') (notified : s'.notified = s.notified) (heard : s.Heard) :
    s'.Heard := by
  intro key t' found done blocked
  obtain ⟨t, before, done, blocked⟩ := keeps.blocked key t' found done blocked
  rcases heard key t before done blocked with set | ⟨other, task, present, published⟩
  · exact Or.inl (notified.trans set)
  · obtain ⟨task', now, still⟩ := keeps.worker other task present
    exact Or.inr ⟨other, task', now, still published⟩

theorem release_notified (s : State) : s.release.notified = s.notified := by
  unfold State.release
  split <;> rfl

theorem ack_worker (present : s.tasks.get i = some t) {key : Nat}
    (found : ({ s.setWaiter i t .top with notified := false } : State).release.tasks.get key = some t') :
    ∃ old, s.tasks.get key = some old ∧ t'.worker = old.worker := by
  have inserted : ∀ now, (s.tasks.insert i { t with waiter := .top }).get key = some now →
      ∃ old, s.tasks.get key = some old ∧ now.worker = old.worker := by
    intro now found
    rw [get_insert] at found
    split_ifs at found with same
    · cases found
      exact ⟨t, same ▸ present, rfl⟩
    · exact ⟨now, found, rfl⟩
  unfold State.release at found
  split at found
  · exact inserted t' found
  · simp only [State.setWaiter] at found
    rw [get_modify] at found
    split_ifs at found with front
    · obtain ⟨middle, before, rfl⟩ := Option.map_eq_some_iff.mp found
      exact inserted middle (front ▸ before)
    · exact inserted t' found

-- After an acknowledgement those behind the first at the gate are as blocked as before.
theorem Ordered.ack_blocked (ordered : Ordered s) (present : s.tasks.get i = some t)
    (received : t.waiter = .received) (key : Nat) :
    (∃ task, ({ s.setWaiter i t .top with notified := false } : State).release.tasks.get key = some task ∧
      task.done = true ∧ task.blocked = true) ↔ key ∈ s.queue.tail ∧ s.doneOf key = true := by
  have gate : s.gate = some i := (ordered.gate i t present).mpr (Or.inr (Or.inr received))
  have queued_of : ∀ task, s.tasks.get key = some task → key ≠ i →
      (task.blocked = true ↔ key ∈ s.queue) := by
    intro task found other
    have away : ¬ task.holds := by
      intro holds
      have also := (ordered.gate key task found).mpr holds
      rw [gate] at also
      exact other (Option.some.inj also).symm
    rw [ordered.queue key task found]
    simp only [Task.holds, not_or] at away
    simp [Task.blocked, away]
  have outside : i ∉ s.queue := by
    rw [ordered.queue i t present, received]
    simp
  by_cases here : key = i
  · subst here
    have gone : key ∉ s.queue.tail := fun member => outside (List.mem_of_mem_tail member)
    simp only [gone, false_and, iff_false, not_exists]
    rintro task ⟨found, -, blocked⟩
    unfold State.release at found
    cases queue : s.queue with
    | nil =>
      simp only [State.setWaiter, queue, get_insert_self, Option.some.injEq] at found
      subst found
      simp [Task.blocked] at blocked
    | cons first rest =>
      have other : key ≠ first := by
        rintro rfl
        exact outside (by simp [queue])
      simp only [State.setWaiter, queue] at found
      rw [get_modify, if_neg other, get_insert_self] at found
      cases found
      simp [Task.blocked] at blocked
  · cases queue : s.queue with
    | nil =>
      simp only [State.release, State.setWaiter, queue, List.tail_nil, List.not_mem_nil, false_and,
        iff_false, not_exists]
      rintro task ⟨found, -, blocked⟩
      rw [get_insert_ne _ _ here] at found
      rw [queued_of task found here, queue] at blocked
      exact absurd blocked List.not_mem_nil
    | cons first rest =>
      have nodup := ordered.nodup
      rw [queue, List.nodup_cons] at nodup
      simp only [State.release, State.setWaiter, queue, List.tail_cons]
      rw [get_modify]
      by_cases front : key = first
      · rw [if_pos front]
        have gone : key ∉ rest := fun member => nodup.1 (front ▸ member)
        simp only [gone, false_and, iff_false, not_exists]
        rintro task ⟨found, -, blocked⟩
        obtain ⟨before, -, rfl⟩ := Option.map_eq_some_iff.mp found
        simp [Task.blocked] at blocked
      · rw [if_neg front, get_insert_ne _ _ here]
        constructor
        · rintro ⟨task, found, done, blocked⟩
          rw [queued_of task found here, queue, List.mem_cons, or_iff_right front] at blocked
          exact ⟨blocked, by simp [State.doneOf, found, done]⟩
        · rintro ⟨member, done⟩
          simp only [State.doneOf, Option.any_eq_true] at done
          obtain ⟨task, found, done⟩ := done
          refine ⟨task, found, done, (queued_of task found here).mpr ?_⟩
          rw [queue]
          exact List.mem_cons_of_mem _ member

theorem Ordered.heard_move {m : Move} (ordered : Ordered s) (heard : s.Heard)
    (passes : s.passes (.task i m) = true) (present : s.tasks.get i = some t)
    (run : s.move i t m = some s') : s'.Heard := by
  cases m with
  | publish =>
    simp only [State.move] at run
    split_ifs at run
    cases run
    intro _ _ _ _ _
    exact Or.inr ⟨i, _, get_insert_self _ _ _, rfl⟩
  | notify =>
    simp only [State.move] at run
    split_ifs at run
    cases run
    unfold State.hsNotify
    split_ifs with set
    · exact fun _ _ _ _ _ => Or.inl set
    · exact fun _ _ _ _ _ => Or.inl rfl
  | write =>
    simp only [State.move] at run
    split_ifs at run with writing
    cases run
    refine (keeps_insert present rfl ?_ ?_).heard rfl heard
    · simp [writing]
    · intro _ blocked
      exact ⟨by simp [Task.done, writing], blocked⟩
  | check =>
    simp only [State.move] at run
    split_ifs at run with top done
    · cases run
      exact (keeps_waiter present .returned t.shielded rfl (by simp)).heard rfl heard
    · cases run
      unfold State.acquire
      split_ifs
      · exact (keeps_waiter present .holding t.shielded rfl (by simp)).heard rfl heard
      · exact (keeps_waiter present .queued t.shielded rfl fun isDone => absurd isDone done).heard rfl
          heard
  | inspect =>
    simp only [State.move] at run
    split_ifs at run with holding done
    · cases run
      have first : Keeps s (s.setWaiter i t .top) :=
        keeps_waiter present .top t.shielded rfl (by simp)
      exact (first.trans (keeps_release _)).heard (release_notified _) heard
    · cases run
      exact (keeps_waiter present .reading t.shielded rfl fun isDone => absurd isDone done).heard rfl
        heard
  | read =>
    simp only [State.move] at run
    split_ifs at run
    cases run
    exact (keeps_waiter present .received t.shielded rfl (by simp)).heard rfl heard
  | ack =>
    simp only [State.move] at run
    split_ifs at run with received
    cases run
    intro key task found done blocked
    have behind := (ordered.ack_blocked present received key).mp ⟨task, found, done, blocked⟩
    simp only [State.passes, Bool.or_eq_true, List.all_eq_true, List.any_eq_true,
      decide_eq_true_eq] at passes
    rcases passes with still | ⟨other, member, published⟩
    · have undone := still key behind.1
      rw [behind.2] at undone
      cases undone
    · obtain ⟨⟨name, other⟩, entry, rfl⟩ := List.mem_map.mp member
      have first : Keeps s { s.setWaiter i t .top with notified := false } :=
        keeps_waiter present .top t.shielded rfl (by simp)
      obtain ⟨now, later, same⟩ := (first.trans (keeps_release _)).worker name other
        ((s.tasks.get_eq_some name other).mpr entry)
      exact Or.inr ⟨name, now, later, same published⟩
  | cancel =>
    simp only [State.move, State.cancel] at run
    split_ifs at run
    split at run
    · cases run
      exact (keeps_waiter present .top true rfl (by simp)).heard rfl heard
    · cases run
      have first : Keeps s { s with tasks := s.tasks.insert i { t with waiter := .top, shielded := true } } :=
        keeps_waiter present .top true rfl (by simp)
      exact (first.trans (keeps_release _)).heard (release_notified _) heard
    · cases run

theorem Ordered.heard_step (ordered : Ordered s) (heard : s.Heard)
    (step : passing.step label s = some s') : s'.Heard := by
  simp only [passing] at step
  split_ifs at step with passes
  cases label with
  | spawn i =>
    simp only [State.step] at step
    split_ifs at step with absent
    cases step
    apply forall_insert
    · simp [Task.new, Task.blocked]
    · intro key task _ found done blocked
      rcases heard key task found done blocked with set | ⟨other, worker, present, published⟩
      · exact Or.inl set
      · refine Or.inr ⟨other, worker, ?_, published⟩
        dsimp only
        rw [get_insert, if_neg, present]
        rintro rfl
        rw [absent] at present
        cases present
  | task i m =>
    simp only [State.step] at step
    split at step
    · cases step
    · exact ordered.heard_move heard passes ‹_› step

theorem reachable_heard (reached : passing.Reachable s) : Ordered s ∧ s.Heard := by
  apply reached.invariant (P := fun s => Ordered s ∧ s.Heard)
  · refine ⟨ordered_initial, ?_⟩
    intro _ _ found
    cases found
  · rintro s label next ⟨ordered, heard⟩ step
    refine ⟨?_, ordered.heard_step heard step⟩
    simp only [passing] at step
    split_ifs at step
    exact ordered_step ordered step

-- A step that does not pass leaves somebody behind.
theorem Ordered.lost_step (ordered : Ordered s) (step : runtime.step label s = some s')
    (stops : s.passes label = false) : s'.Lost := by
  have after := ordered_step ordered step
  cases label with
  | spawn i => cases stops
  | task i m =>
    cases m with
    | ack =>
      simp only [runtime, State.step] at step
      split at step
      · cases step
      · rename_i t present
        simp only [State.move] at step
        split_ifs at step with received
        cases step
        simp only [State.passes, Bool.or_eq_false_iff] at stops
        obtain ⟨key, member, done⟩ := List.all_eq_false.mp stops.1
        have isDone : s.doneOf key = true := by simpa using done
        obtain ⟨task, found, done, blocked⟩ :=
          (ordered.ack_blocked present received key).mpr ⟨member, isDone⟩
        rw [after.lost_iff]
        intro heard
        rcases heard key task found done blocked with set | ⟨other, worker, now, published⟩
        · rw [release_notified] at set
          cases set
        · -- nobody was published before, and an acknowledgement publishes nothing
          have unpublished : ∀ key old, s.tasks.get key = some old → old.worker ≠ .published := by
            intro key old before
            have none := List.any_eq_false.mp stops.2 old
              (List.mem_map.mpr ⟨(key, old), (s.tasks.get_eq_some key old).mp before, rfl⟩)
            simpa using none
          obtain ⟨old, before, same⟩ := ack_worker present now
          exact unpublished other old before (same.symm.trans published)
    | publish => cases stops
    | notify => cases stops
    | write => cases stops
    | check => cases stops
    | inspect => cases stops
    | read => cases stops
    | cancel => cases stops

end

/-- One byte at most is in the pipe. Nobody is left behind in a run of steps that pass, and
whatever does not pass leaves somebody behind at once. -/
theorem notification_heard (s : State) :
    (runtime.Reachable s → s.bytes ≤ 1) ∧ (passing.Reachable s → ¬ s.Lost) ∧
      ∀ label s', runtime.Reachable s → runtime.step label s = some s' →
        s.passes label = false → s'.Lost := by
  refine ⟨fun reached => (reachable_ordered reached).one_byte, ?_, ?_⟩
  · intro reached
    obtain ⟨ordered, heard⟩ := reachable_heard reached
    rw [ordered.lost_iff, not_not]
    exact heard
  · intro label s' reached step stops
    exact (reachable_ordered reached).lost_step step stops

-- Task 0 reads the byte for job 2, and lets in task 1, which goes on to wait for its own job.
def leftBehind : List Label :=
  [.spawn 0, .spawn 1, .spawn 2, .task 0 .check, .task 0 .inspect, .task 1 .check, .task 2 .check,
    .task 2 .publish, .task 2 .notify, .task 2 .write, .task 0 .read, .task 0 .ack, .task 1 .inspect,
    .task 0 .check]

theorem completion_lost : ∃ s, runtime.Reachable s ∧ s.Lost ∧
    s.tasks.get 2 = some ⟨.through, .queued, false⟩ ∧ s.gate = some 1 ∧
    s.tasks.get 1 = some ⟨.working, .reading, false⟩ := by
  have run : (runtime.exec leftBehind .initial).map (fun s => (s.bytes, s.gate, s.tasks.entries)) =
      some (0, some 1, [(0, ⟨.working, .queued, false⟩), (1, ⟨.working, .reading, false⟩),
        (2, ⟨.through, .queued, false⟩)]) := by decide +kernel
  obtain ⟨s, exec, now⟩ := Option.map_eq_some_iff.mp run
  simp only [Prod.mk.injEq] at now
  obtain ⟨bytes, gate, entries⟩ := now
  have second : s.tasks.get 2 = some ⟨.through, .queued, false⟩ := by
    rw [get_eq_some, entries]
    decide
  refine ⟨s, Machine.reachable_of_exec exec, ⟨⟨2, _, second, rfl, rfl⟩, bytes, ?_⟩, second, gate, ?_⟩
  · intro i t found
    rw [get_eq_some, entries] at found
    simp only [List.mem_cons, Prod.mk.injEq, List.not_mem_nil, or_false] at found
    rcases found with ⟨-, rfl⟩ | ⟨-, rfl⟩ | ⟨-, rfl⟩ <;> decide
  · rw [get_eq_some, entries]
    decide

end HttpServer.Notification
