import Mathlib.Data.Prod.Lex
import HttpServer.CAbi.Scopes
import HttpServer.CAbi.Retirement

set_option autoImplicit false

/-!
# The threads come to rest

Left alone by the host the threads can make only so many steps. Most steps bring an operation closer
to its notice; the others empty the pipe, go on in the round of the owner or put a task back to wait.
-/

namespace HttpServer.CAbi

-- What the threads do by themselves. A server that was not told to stop may run on.
def Label.own : Label → Bool
  | .call _ | .reap | .serverFails _ => false
  | .write | .mark | .owner _ | .task _ _ | .serverStops _ | .notifier _ => true

namespace Stage

-- More than the notice of the operation will weigh.
def weight : Stage → Int
  | spawned => 9
  | waiting _ | stopping _ => 8
  | working | shutting => 7
  | configured | responding _ _ | chunked _ | draining _ => 6

-- Headers that are not set yet.
def left : Stage → Int
  | responding left _ => left
  | _ => 0

def awake : Stage → Int
  | waiting true | stopping true | draining true => 1
  | _ => 0

theorem weight_nonneg (stage : Stage) : 6 ≤ stage.weight := by
  cases stage <;> simp [weight]

theorem left_nonneg (stage : Stage) : 0 ≤ stage.left := by
  cases stage <;> simp [left]

theorem awake_nonneg (stage : Stage) : 0 ≤ stage.awake := by
  unfold awake
  split <;> simp

theorem weight_changed (stage : Stage) : stage.changed.weight = stage.weight := by
  cases stage <;> rfl

theorem left_changed (stage : Stage) : stage.changed.left = stage.left := by
  cases stage <;> rfl

theorem weight_scopeEnds (stage : Stage) : stage.scopeEnds.weight = stage.weight := by
  cases stage <;> rfl

end Stage

namespace Owner

def weight : Owner → Int
  | starting => 5
  | reading | acking | popping | cancelling _ | checking => 4
  | leaving => 3
  | draining none => 2
  -- with a command in hand
  | draining (some _) => 11
  | absent => 0

-- What is left of the round; the sweep looks at `tasks` tasks.
def round (tasks : Nat) : Owner → Nat
  | acking => tasks + 5
  | popping => tasks + 4
  | cancelling rest => rest.length + 3
  | checking => 2
  | _ => 1

theorem weight_nonneg (o : Owner) : 0 ≤ o.weight := by
  unfold weight
  split <;> simp

end Owner

def Notifier.weight : Notifier → Int
  | calling _ => 4
  | waiting => 2
  | joining => 1
  | absent => 0

theorem Notifier.weight_nonneg (n : Notifier) : 0 ≤ n.weight := by
  cases n <;> simp [weight]

def Lock.weight : Lock → Int
  | waking => 3
  | written => 1
  | free => 0

theorem Lock.weight_nonneg (l : Lock) : 0 ≤ l.weight := by
  cases l <;> simp [weight]

def weigh (w : Stage → Int) (tasks : OrderedMap Key Task) : Int := tasks.sum fun _ task => w task.stage

section

variable {w : Stage → Int} {tasks : OrderedMap Key Task} {k : Key}

theorem weigh_nonneg (nonneg : ∀ stage, 0 ≤ w stage) : 0 ≤ weigh w tasks :=
  OrderedMap.sum_nonneg fun _ task _ => nonneg task.stage

theorem weigh_map {f : Key → Task → Task} (same : ∀ k task, w (f k task).stage = w task.stage) :
    weigh w (tasks.mapValues f) = weigh w tasks := by
  simp only [weigh, OrderedMap.sum_mapValues, same]

theorem weigh_changed (same : ∀ stage : Stage, w stage.changed = w stage) :
    weigh w (changed tasks) = weigh w tasks := by
  refine weigh_map fun k task => ?_
  exact same task.stage

theorem weigh_erase {task : Task} (present : tasks.get k = some task) :
    weigh w (tasks.erase k) = weigh w tasks - w task.stage :=
  OrderedMap.sum_erase present

theorem weigh_modify {task : Task} (present : tasks.get k = some task) (f : Task → Task) :
    weigh w (tasks.modify k f) = weigh w tasks - w task.stage + w (f task).stage :=
  OrderedMap.sum_modify present f

theorem weigh_insert (nonneg : ∀ stage, 0 ≤ w stage) (task : Task) :
    weigh w (tasks.insert k task) ≤ weigh w tasks + w task.stage :=
  OrderedMap.sum_insert_le k task fun task => nonneg task.stage

end

namespace State

variable {p : Platform} {s s' : State}

def work (s : State) : Int :=
  10 * s.commands.length + 3 * s.notices.length + weigh Stage.weight s.tasks +
    (s.scopes.sum fun _ _ => 2) + s.owner.weight + s.notifier.weight

-- Headers that are not set, and bytes that are or may get in the pipe.
def motion (s : State) : Int := weigh Stage.left s.tasks + s.pipe + s.lock.weight

def round (s : State) : Nat := s.owner.round s.tasks.keys.length

def awake (s : State) : Int := weigh Stage.awake s.tasks

def rank (s : State) : ℕ ×ₗ ℕ ×ₗ ℕ ×ₗ ℕ :=
  toLex (s.work.toNat, toLex (s.motion.toNat, toLex (s.round, s.awake.toNat)))

theorem work_nonneg (s : State) : 0 ≤ s.work := by
  have tasks : 0 ≤ weigh Stage.weight s.tasks := weigh_nonneg fun stage => by
    have weight := stage.weight_nonneg
    omega
  have scopes : 0 ≤ s.scopes.sum fun _ _ => (2 : Int) := OrderedMap.sum_nonneg fun _ _ _ => by simp
  have owner := s.owner.weight_nonneg
  have notifier := s.notifier.weight_nonneg
  unfold work
  omega

theorem motion_nonneg (s : State) : 0 ≤ s.motion := by
  have tasks : 0 ≤ weigh Stage.left s.tasks := weigh_nonneg Stage.left_nonneg
  have lock := s.lock.weight_nonneg
  unfold motion
  omega

theorem awake_nonneg (s : State) : 0 ≤ s.awake := weigh_nonneg Stage.awake_nonneg

/-- The step counts: what is listed first counts most. -/
inductive Descends (s s' : State) : Prop
  | work (less : s'.work < s.work)
  | motion (work : s'.work = s.work) (less : s'.motion < s.motion)
  | round (work : s'.work = s.work) (motion : s'.motion = s.motion) (less : s'.round < s.round)
  | awake (work : s'.work = s.work) (motion : s'.motion = s.motion) (round : s'.round = s.round)
      (less : s'.awake < s.awake)

theorem Descends.rank (descends : s.Descends s') : s'.rank < s.rank := by
  have work := s'.work_nonneg
  have motion := s'.motion_nonneg
  have awake := s'.awake_nonneg
  simp only [State.rank, Prod.Lex.toLex_lt_toLex]
  cases descends with
  | work less => exact Or.inl (by omega)
  | motion same less => exact Or.inr ⟨by rw [same], Or.inl (by omega)⟩
  | round same same' less => exact Or.inr ⟨by rw [same], Or.inr ⟨by rw [same'], Or.inl less⟩⟩
  | awake same same' same'' less =>
    exact Or.inr ⟨by rw [same], Or.inr ⟨by rw [same'], Or.inr ⟨same'', by omega⟩⟩⟩

theorem effort_descends {k : Key} {o : Operation} {stage stage' : Stage} {m : Memory}
    (effort : Effort p s k o stage m stage') : stage'.weight < stage.weight ∨
      stage'.weight = stage.weight ∧ (stage'.left < stage.left ∨
        stage'.left = stage.left ∧ stage'.awake < stage.awake) := by
  cases effort with
  | header => exact Or.inr ⟨rfl, Or.inl (by simp [Stage.left])⟩
  | waitsAgain | stopsAgain => exact Or.inr ⟨rfl, Or.inr ⟨rfl, by decide⟩⟩
  | drains closing =>
    rcases closing with ⟨rfl, _⟩ | rfl | rfl
    · exact Or.inl (by decide)
    · exact Or.inl (by decide)
    · exact Or.inr ⟨rfl, Or.inr ⟨rfl, by decide⟩⟩
  | _ => exact Or.inl (by simp [Stage.weight])

theorem work_setStage {k : Key} {task : Task} (present : s.tasks.get k = some task) (stage : Stage) :
    (s.setStage k stage).work = s.work - task.stage.weight + stage.weight := by
  simp only [work, setStage, weigh_modify present]
  omega

theorem descends_worked {k : Key} {task : Task} {o : Operation} {m : Memory} {stage : Stage}
    (present : s.tasks.get k = some task) (effort : Effort p s k o task.stage m stage) :
    s.Descends ({ s with memory := m }.setStage k stage) := by
  have work : ({ s with memory := m }.setStage k stage).work =
      s.work - task.stage.weight + stage.weight := work_setStage (s := { s with memory := m }) present stage
  have motion : ({ s with memory := m }.setStage k stage).motion =
      s.motion - task.stage.left + stage.left := by
    simp only [State.motion, setStage, weigh_modify present]
    omega
  have awake : ({ s with memory := m }.setStage k stage).awake =
      s.awake - task.stage.awake + stage.awake := weigh_modify present _
  have round : ({ s with memory := m }.setStage k stage).round = s.round := by
    simp only [State.round, setStage, OrderedMap.keys_modify]
  rcases effort_descends effort with less | ⟨same, less | ⟨same', less⟩⟩
  · exact .work (by omega)
  · exact .motion (by omega) (by omega)
  · exact .awake (by omega) (by omega) round (by omega)

theorem work_cancelOthers (s : State) (k : Key) : (s.cancelOthers k).work = s.work := by
  have tasks : weigh Stage.weight (s.cancelOthers k).tasks = weigh Stage.weight s.tasks := by
    refine weigh_map fun key task => ?_
    split_ifs <;> rfl
  have rest : (s.cancelOthers k).work = 10 * s.commands.length + 3 * s.notices.length +
      weigh Stage.weight (s.cancelOthers k).tasks + (s.scopes.sum fun _ _ => 2) + s.owner.weight +
      s.notifier.weight := rfl
  rw [rest, tasks, work]

theorem descends_settle {k : Key} {t : Ticket} {task : Task} (present : s.tasks.get k = some task)
    (found : s.memory.ticket k = some t) (undone : t.done = false) (code : Code)
    (kind : Option ResultKind) : (s.settle k code kind).work < s.work := by
  have weight := task.stage.weight_nonneg
  rw [settle_eq found undone]
  simp only [work, List.length_append, List.length_singleton, weigh_changed Stage.weight_changed,
    weigh_erase present]
  push_cast
  omega

theorem Custody.descends_works (custody : s.Custody) {k : Key} {task : Task} {o : Operation}
    (present : s.tasks.get k = some task) (op : s.memory.ops.get k = some o)
    (works : Works p s k task o s') : s.Descends s' := by
  obtain ⟨here, undone, _⟩ := custody.op present op
  have found := ticket_of_spot here
  have there : (s.cancelOthers k).tasks.get k = some task := congrArg Spot.task (spot_cancelOthers here)
  cases works with
  | worked effort => exact descends_worked present effort
  | settled => exact .work (descends_settle present found undone _ _)
  | ready =>
    have weight := task.stage.weight_nonneg
    have scopes : ((s.scopes.insert o.owner false).sum fun _ _ => (2 : Int)) ≤
        (s.scopes.sum fun _ _ => (2 : Int)) + 2 :=
      OrderedMap.sum_insert_le o.owner false fun _ => by simp
    refine .work ?_
    rw [ready_eq found undone]
    simp only [work, List.length_append, List.length_singleton, weigh_erase present]
    push_cast
    omega
  | @stops scope _ spawned running =>
    have scopes : ((s.scopes.insert o.owner true).sum fun _ _ => (2 : Int)) =
        s.scopes.sum fun _ _ => 2 := by
      rw [OrderedMap.sum_insert running]
      omega
    have work : ({ s.cancelOthers k with scopes := s.scopes.insert o.owner true } : State).work =
        s.work := by
      have servers : (s.cancelOthers k).scopes = s.scopes := rfl
      rw [← s.work_cancelOthers k]
      simp only [State.work, scopes, servers]
    refine .work ?_
    rw [work_setStage (s := { s.cancelOthers k with scopes := s.scopes.insert o.owner true }) there,
      work, spawned]
    simp only [Stage.weight]
    omega
  | shuts _ spawned | drains _ spawned =>
    refine .work ?_
    rw [work_setStage there, work_cancelOthers, spawned]
    simp only [Stage.weight]
    omega
  | closed _ _ before =>
    rcases before with rfl | rfl
    · exact .work (descends_settle present found undone _ _)
    · refine .work ?_
      rw [← s.work_cancelOthers k]
      exact descends_settle (s := s.cancelOthers k) there found undone _ _

theorem descends_endScope {i : Key} {b : Bool} (scope : s.scopes.get i = some b) :
    (s.endScope i).work < s.work := by
  have tasks : weigh Stage.weight (s.endScope i).tasks = weigh Stage.weight s.tasks := by
    refine (weigh_changed Stage.weight_changed).trans (weigh_map fun key task => ?_)
    split_ifs
    · exact Stage.weight_scopeEnds task.stage
    · rfl
  have rest : (s.endScope i).work = 10 * s.commands.length + 3 * s.notices.length +
      weigh Stage.weight (s.endScope i).tasks + ((s.scopes.erase i).sum fun _ _ => 2) +
      s.owner.weight + s.notifier.weight := rfl
  rw [rest, tasks, OrderedMap.sum_erase scope, work]
  omega

theorem Kept.descends_owner (kept : s.Kept) {move : OwnerMove}
    (made : s.ownerStep move = some s') : s.Descends s' := by
  cases move with
  | attach | bootstrapFails =>
    simp only [ownerStep, Option.ite_none_right_eq_some, Option.some.injEq] at made
    obtain ⟨owner, rfl⟩ := made
    exact .work (by simp [work, wake, owner, Owner.weight])
  | readByte =>
    simp only [ownerStep, Option.ite_none_right_eq_some, Option.some.injEq] at made
    obtain ⟨⟨owner, byte⟩, rfl⟩ := made
    refine .motion (by simp [work, owner, Owner.weight]) ?_
    simp only [motion]
    omega
  | ack =>
    simp only [ownerStep, Option.ite_none_right_eq_some, Option.some.injEq] at made
    obtain ⟨owner, rfl⟩ := made
    refine .round ?_ ?_ ?_
    · simp [work, owner, Owner.weight, weigh_changed Stage.weight_changed]
    · simp [motion, weigh_changed Stage.left_changed]
    · simp [round, owner, Owner.round, changed]
  | pop =>
    simp only [ownerStep, Option.ite_none_right_eq_some] at made
    obtain ⟨owner, made⟩ := made
    split at made
    · cases made
      refine .round (by simp [work, owner, Owner.weight]) rfl ?_
      simp [round, owner, Owner.round, OrderedMap.keys]
    · rename_i k rest commands
      cases made
      have tasks : weigh Stage.weight (s.tasks.insert k ⟨.spawned, false⟩) ≤
          weigh Stage.weight s.tasks + Stage.weight .spawned :=
        weigh_insert (fun stage => by have weight := stage.weight_nonneg; omega) ⟨.spawned, false⟩
      refine .work ?_
      simp only [Stage.weight] at tasks
      simp only [work, commands, List.length_cons]
      push_cast
      omega
  | cancelNext =>
    simp only [ownerStep] at made
    split at made
    · rename_i owner
      cases made
      refine .round (by simp [work, owner, Owner.weight]) rfl ?_
      simp [round, owner, Owner.round]
    · rename_i k rest owner
      cases made
      have same (w : Stage → Int) {hit : Bool} : weigh w (s.tasks.modify k fun task => { task with
          marked := task.marked || hit }) = weigh w s.tasks := by
        cases present : s.tasks.get k with
        | none => rw [OrderedMap.modify_none present]
        | some task => rw [weigh_modify present, sub_add_cancel]
      refine .round ?_ ?_ ?_
      · simp [work, owner, Owner.weight, same]
      · simp [motion, same]
      · simp [round, owner, Owner.round]
    · cases made
  | idle =>
    simp only [ownerStep, Option.ite_none_right_eq_some] at made
    obtain ⟨owner, made⟩ := made
    split_ifs at made
    · cases made
      exact .work (by simp [work, owner, Owner.weight])
    · cases made
      refine .round (by simp [work, owner, Owner.weight]) rfl ?_
      simp [round, owner, Owner.round]
  | leave =>
    simp only [ownerStep, Option.ite_none_right_eq_some, Option.some.injEq] at made
    obtain ⟨⟨owner, _⟩, rfl⟩ := made
    exact .work (by simp [work, owner, Owner.weight])
  | drainPop =>
    simp only [ownerStep] at made
    split at made
    · rename_i owner commands
      cases made
      refine .work ?_
      simp only [work, owner, commands, Owner.weight, List.length_cons]
      push_cast
      omega
    · cases made
  | drainComplete =>
    simp only [ownerStep] at made
    split at made
    · rename_i k owner
      cases made
      obtain ⟨t, here, undone, _⟩ := kept.custody.handed owner
      rw [complete_eq (ticket_of_spot here) undone]
      refine .work ?_
      simp only [work, owner, Owner.weight, List.length_append, List.length_singleton]
      push_cast
      omega
    · cases made
  | drainEnd =>
    simp only [ownerStep, Option.ite_none_right_eq_some, Option.some.injEq] at made
    obtain ⟨⟨owner, _⟩, rfl⟩ := made
    exact .work (by simp [work, owner, Owner.weight])

theorem descends_notifier {move : NotifierMove} (made : s.notifierStep move = some s') :
    s'.work < s.work := by
  cases move with
  | take =>
    simp only [notifierStep] at made
    split at made
    · rename_i notifier notices
      cases made
      simp only [work, notifier, notices, Notifier.weight, List.length_cons]
      push_cast
      omega
    · cases made
  | returned =>
    simp only [notifierStep] at made
    split at made
    · rename_i notifier
      cases made
      simp [work, wake, notifier, Notifier.weight]
    · cases made
  | exit | join =>
    simp only [notifierStep, Option.ite_none_right_eq_some, Option.some.injEq] at made
    obtain ⟨⟨notifier, _⟩, rfl⟩ := made
    simp [work, notifier, Notifier.weight]

theorem descends_write (s : State) (p : Platform) (lock : s.lock = .waking) :
    s.Descends (s.writeByte p) := by
  unfold writeByte
  split_ifs
  · exact .motion rfl (by simp [motion, lock, Lock.weight])
  · refine .motion rfl ?_
    simp only [motion, lock, Lock.weight]
    push_cast
    omega
  · exact .motion rfl (by simp [motion, lock, Lock.weight])

theorem Kept.descends (kept : s.Kept) {label : Label} (own : label.own = true)
    (made : s.step p label = some s') : s.Descends s' := by
  cases kept.steps made with
  | write lock => exact s.descends_write p lock
  | mark lock => exact .motion rfl (by simp [motion, lock, Lock.weight])
  | reads made | owner _ made => exact kept.descends_owner made
  | call | reap | serverFails => cases own
  | task _ present op _ _ works => exact kept.custody.descends_works present op works
  | serverStops _ _ scope => exact .work (descends_endScope scope)
  | notifier _ made => exact .work (descends_notifier made)

/-- The threads cannot go on by themselves for ever. -/
theorem own_wellFounded (p : Platform) : WellFounded fun next s : State =>
    (bridge p).Reachable s ∧ ∃ label : Label, label.own = true ∧ s.step p label = some next := by
  have descent := Machine.own_wellFounded (M := bridge p) (r := (· < ·)) wellFounded_lt
    (fun label => label.own = true) (bridge p).Reachable rank
    fun s label next reached own move => ((kept_of_reachable reached).descends own move).rank
  exact descent

theorem reaches_rest (reached : (bridge p).Reachable s) : ∃ labels last,
    (∀ label ∈ labels, label.own = true) ∧ (bridge p).Path s labels last ∧
      (bridge p).Rests (fun label => label.own = true) last :=
  Machine.reaches_rest (P := (bridge p).Reachable) (fun _ _ _ reached move => reached.next move)
    (own_wellFounded p) s reached

end State

end HttpServer.CAbi
