import HttpServer.CAbi.Work

set_option autoImplicit false

/-!
# Every operation is in one place

An operation that is not finished is in the queue of commands, in the hand of `owner_main`, in a
task, in the queue of notices or with the callback, and its ticket fits the place.
-/

namespace HttpServer.CAbi

namespace Owner

def hand : Owner → List Key
  | draining (some k) => [k]
  | _ => []

def looping : Owner → Bool
  | reading | acking | popping | cancelling _ | checking => true
  | absent | starting | leaving | draining _ => false

def inside : Owner → Bool
  | reading | acking | popping | cancelling _ | checking | leaving => true
  | absent | starting | draining _ => false

end Owner

def Notifier.hand : Notifier → List Key
  | calling k => [k]
  | _ => []

def Notifier.running : Notifier → Bool
  | waiting | calling _ => true
  | absent | joining => false

/-- Where the threads can be in each phase; the last argument is `owner_done`. -/
inductive Roles : Phase → Owner → Notifier → Bool → Prop
  | off {done : Bool} : Roles .off .absent .absent done
  | starting {n : Notifier} (running : n.running) : Roles .starting .starting n false
  | attached {o : Owner} {n : Notifier} (looping : o.looping) (running : n.running) :
      Roles .attached o n false
  | leaving {n : Notifier} (running : n.running) : Roles .retiring .leaving n false
  | draining {hand : Option Key} {n : Notifier} (running : n.running) :
      Roles .retiring (.draining hand) n false
  | done {n : Notifier} (present : n ≠ .absent) : Roles .retiring .absent n true
  | ended {done : Bool} : Roles .ended .absent .absent done

namespace Roles

variable {phase : Phase} {o : Owner} {n : Notifier} {done : Bool}

theorem of_off (roles : Roles .off o n done) : o = .absent ∧ n = .absent := by
  cases roles
  exact ⟨rfl, rfl⟩

theorem of_ended (roles : Roles .ended o n done) : o = .absent ∧ n = .absent := by
  cases roles
  exact ⟨rfl, rfl⟩

theorem of_starting (roles : Roles phase .starting n done) :
    phase = .starting ∧ n.running ∧ done = false := by
  cases roles with
  | starting running => exact ⟨rfl, running, rfl⟩
  | attached looping => cases looping

theorem of_looping (roles : Roles phase o n done) (looping : o.looping) :
    phase = .attached ∧ n.running ∧ done = false := by
  cases roles with
  | attached _ running => exact ⟨rfl, running, rfl⟩
  | _ => cases looping

theorem of_leaving (roles : Roles phase .leaving n done) :
    phase = .retiring ∧ n.running ∧ done = false := by
  cases roles with
  | leaving running => exact ⟨rfl, running, rfl⟩
  | attached looping => cases looping

theorem of_draining {hand : Option Key} (roles : Roles phase (.draining hand) n done) :
    phase = .retiring ∧ n.running ∧ done = false := by
  cases roles with
  | draining running => exact ⟨rfl, running, rfl⟩
  | attached looping => cases looping

theorem notifier {n' : Notifier} (roles : Roles phase o n done) (running : n.running)
    (running' : n'.running) : Roles phase o n' done := by
  cases roles with
  | off | ended => cases running
  | starting => exact .starting running'
  | attached looping => exact .attached looping running'
  | leaving => exact .leaving running'
  | draining => exact .draining running'
  | done => exact .done (by rintro rfl; cases running')

theorem of_done (roles : Roles phase o n true) (running : n.running) :
    phase = .retiring ∧ o = .absent := by
  cases roles with
  | done => exact ⟨rfl, rfl⟩
  | off | ended => cases running

end Roles

/-- What the runtime has of one operation: its ticket, and how often it is at each place. -/
structure Spot where
  ticket : Option Ticket
  queue : Nat
  hand : Nat
  task : Option Task
  notices : Nat
  callback : Nat

namespace Spot

inductive Sound : Spot → Prop
  | absent : Sound ⟨none, 0, 0, none, 0, 0⟩
  | queued {t : Ticket} (undone : t.done = false) (blank : t.event.Blank) :
      Sound ⟨some t, 1, 0, none, 0, 0⟩
  | hand {t : Ticket} (undone : t.done = false) (blank : t.event.Blank) :
      Sound ⟨some t, 0, 1, none, 0, 0⟩
  | task {t : Ticket} {task : Task} (undone : t.done = false) (fits : task.Fits t) :
      Sound ⟨some t, 0, 0, some task, 0, 0⟩
  | notice {t : Ticket} (done : t.done = true) (undelivered : t.delivered = false) :
      Sound ⟨some t, 0, 0, none, 1, 0⟩
  | callback {t : Ticket} (done : t.done = true) (delivered : t.delivered = true) :
      Sound ⟨some t, 0, 0, none, 0, 1⟩

variable {x : Spot}

namespace Sound

theorem of_none (sound : x.Sound) (none : x.ticket = none) : x = ⟨.none, 0, 0, .none, 0, 0⟩ := by
  cases sound <;> first | rfl | cases none

theorem of_undone (sound : x.Sound) {t : Ticket} (some : x.ticket = some t)
    (undone : t.done = false) : x.notices = 0 ∧ x.callback = 0 := by
  cases sound with
  | notice done | callback done =>
    cases some
    simp [undone] at done
  | _ => exact ⟨rfl, rfl⟩

theorem of_elsewhere (sound : x.Sound) {t : Ticket} (some : x.ticket = some t)
    (queue : x.queue = 0) (hand : x.hand = 0) (task : x.task = none) : t.done = true := by
  cases sound with
  | notice done | callback done =>
    cases some
    exact done
  | absent => cases some
  | queued => cases queue
  | hand => cases hand
  | task => cases task

theorem of_queue (sound : x.Sound) (some : 0 < x.queue) :
    ∃ t, x = ⟨.some t, 1, 0, none, 0, 0⟩ ∧ t.done = false ∧ t.event.Blank := by
  cases sound with
  | queued undone blank => exact ⟨_, rfl, undone, blank⟩
  | _ => exact absurd some (Nat.lt_irrefl 0)

theorem of_hand (sound : x.Sound) (some : 0 < x.hand) :
    ∃ t, x = ⟨.some t, 0, 1, none, 0, 0⟩ ∧ t.done = false ∧ t.event.Blank := by
  cases sound with
  | hand undone blank => exact ⟨_, rfl, undone, blank⟩
  | _ => exact absurd some (Nat.lt_irrefl 0)

theorem of_task (sound : x.Sound) {task : Task} (some : x.task = some task) :
    ∃ t, x = ⟨.some t, 0, 0, .some task, 0, 0⟩ ∧ t.done = false ∧ task.Fits t := by
  cases sound with
  | task undone fits =>
    cases some
    exact ⟨_, rfl, undone, fits⟩
  | _ => cases some

theorem of_notices (sound : x.Sound) (some : 0 < x.notices) :
    ∃ t, x = ⟨.some t, 0, 0, none, 1, 0⟩ ∧ t.done = true ∧ t.delivered = false := by
  cases sound with
  | notice done undelivered => exact ⟨_, rfl, done, undelivered⟩
  | _ => exact absurd some (Nat.lt_irrefl 0)

theorem of_callback (sound : x.Sound) (some : 0 < x.callback) :
    ∃ t, x = ⟨.some t, 0, 0, none, 0, 1⟩ ∧ t.done = true ∧ t.delivered = true := by
  cases sound with
  | callback done delivered => exact ⟨_, rfl, done, delivered⟩
  | _ => exact absurd some (Nat.lt_irrefl 0)

theorem of_ticket (sound : x.Sound) {t : Ticket} (some : x.ticket = some t) (queue : x.queue = 0)
    (hand : x.hand = 0) (notices : x.notices = 0) (callback : x.callback = 0) :
    ∃ task, x.task = .some task ∧ t.done = false ∧ task.Fits t := by
  cases sound with
  | task undone fits =>
    cases some
    exact ⟨_, rfl, undone, fits⟩
  | absent => cases some
  | queued => cases queue
  | hand => cases hand
  | notice => cases notices
  | callback => cases callback

theorem map (sound : x.Sound) {f : Task → Task}
    (fits : ∀ task t, x.task = some task → x.ticket = some t → task.Fits t → (f task).Fits t) :
    Sound { x with task := x.task.map f } := by
  cases sound with
  | absent => exact .absent
  | queued undone blank => exact .queued undone blank
  | hand undone blank => exact .hand undone blank
  | task undone fit => exact .task undone (fits _ _ rfl rfl fit)
  | notice done undelivered => exact .notice done undelivered
  | callback done delivered => exact .callback done delivered

theorem cancel (sound : x.Sound) :
    Sound { x with ticket := x.ticket.map fun t => { t with cancelled := true } } := by
  cases sound with
  | absent => exact .absent
  | queued undone blank => exact .queued undone blank
  | hand undone blank => exact .hand undone blank
  | @task t task undone fits =>
    refine .task undone ⟨?_, fits.marked⟩
    have stays := fits.stage
    cases stage : task.stage <;> rw [stage] at stays <;> exact stays
  | notice done undelivered => exact .notice done undelivered
  | callback done delivered => exact .callback done delivered

end Sound

end Spot

namespace State

variable {s : State}

def spot (s : State) (k : Key) : Spot where
  ticket := s.memory.ticket k
  queue := s.commands.count k
  hand := s.owner.hand.count k
  task := s.tasks.get k
  notices := s.notices.count k
  callback := s.notifier.hand.count k

structure Custody (s : State) : Prop where
  tidy : s.memory.Tidy
  sound : ∀ k, (s.spot k).Sound
  outside : s.owner.inside = false → s.tasks.keys = []

namespace Custody

theorem no_tasks (custody : s.Custody) (out : s.owner.inside = false) (k : Key) :
    s.tasks.get k = none :=
  (OrderedMap.get_eq_none _ _).mpr (by simp [custody.outside out])

theorem queued (custody : s.Custody) {k : Key} (member : k ∈ s.commands) :
    ∃ t, s.spot k = ⟨some t, 1, 0, none, 0, 0⟩ ∧ t.done = false ∧ t.event.Blank :=
  (custody.sound k).of_queue (List.count_pos_iff.mpr member)

theorem handed (custody : s.Custody) {k : Key} (owner : s.owner = .draining (some k)) :
    ∃ t, s.spot k = ⟨some t, 0, 1, none, 0, 0⟩ ∧ t.done = false ∧ t.event.Blank :=
  (custody.sound k).of_hand (by simp [spot, owner, Owner.hand])

theorem task (custody : s.Custody) {k : Key} {task : Task} (found : s.tasks.get k = some task) :
    ∃ t, s.spot k = ⟨some t, 0, 0, some task, 0, 0⟩ ∧ t.done = false ∧ task.Fits t :=
  (custody.sound k).of_task found

theorem noticed (custody : s.Custody) {k : Key} (member : k ∈ s.notices) :
    ∃ t, s.spot k = ⟨some t, 0, 0, none, 1, 0⟩ ∧ t.done = true ∧ t.delivered = false :=
  (custody.sound k).of_notices (List.count_pos_iff.mpr member)

theorem calling (custody : s.Custody) {k : Key} (notifier : s.notifier = .calling k) :
    ∃ t, s.spot k = ⟨some t, 0, 0, none, 0, 1⟩ ∧ t.done = true ∧ t.delivered = true :=
  (custody.sound k).of_callback (by simp [spot, notifier, Notifier.hand])

end Custody

theorem ticket_of_spot {k : Key} {x : Spot} (here : s.spot k = x) : s.memory.ticket k = x.ticket :=
  congrArg Spot.ticket here

theorem Custody.same (custody : s.Custody) {s' : State} (tidy : s'.memory.Tidy)
    (ticket : s'.memory.ticket = s.memory.ticket) (commands : s'.commands = s.commands)
    (hand : s'.owner.hand = s.owner.hand) (tasks : s'.tasks = s.tasks)
    (notices : s'.notices = s.notices) (callback : s'.notifier.hand = s.notifier.hand)
    (outside : s'.owner.inside = false → s.tasks.keys = []) : s'.Custody where
  tidy := tidy
  sound k := by
    have sound := custody.sound k
    simpa only [spot, ticket, commands, hand, tasks, notices, callback] using sound
  outside out := tasks ▸ outside out

theorem Custody.memory (custody : s.Custody) {m : Memory} (tidy : m.Tidy)
    (ticket : m.ticket = s.memory.ticket) : { s with memory := m }.Custody :=
  custody.same tidy ticket rfl rfl rfl rfl rfl custody.outside

theorem Custody.cancel (custody : s.Custody) (k : Key) :
    { s with memory := s.memory.cancel k }.Custody where
  tidy := custody.tidy.cancel k
  sound key := by
    have sound := custody.sound key
    by_cases same : key = k
    · subst same
      simpa only [spot, Memory.cancel_ticket, if_true] using sound.cancel
    · simpa only [spot, Memory.cancel_ticket, if_neg same] using sound
  outside := custody.outside

theorem Custody.wake (custody : s.Custody) : s.wake.Custody := ⟨custody.1, custody.2, custody.3⟩

theorem Custody.mapTasks (custody : s.Custody) {f : Key → Task → Task}
    (fits : ∀ k task t, s.tasks.get k = some task → s.memory.ticket k = some t → task.Fits t →
      (f k task).Fits t) :
    { s with tasks := s.tasks.mapValues f }.Custody where
  tidy := custody.tidy
  sound k := by
    have sound := (custody.sound k).map (f := f k) (fits k)
    simpa only [spot, OrderedMap.get_mapValues] using sound
  outside out := (OrderedMap.keys_mapValues _ _).trans (custody.outside out)

theorem Custody.changed (custody : s.Custody) : { s with tasks := changed s.tasks }.Custody :=
  custody.mapTasks fun _ _ _ _ _ fits => { fits with stage := Stage.fits_changed fits.stage }

theorem Custody.modifyTask (custody : s.Custody) (k : Key) {f : Task → Task}
    (fits : ∀ task t, s.tasks.get k = some task → s.memory.ticket k = some t → task.Fits t →
      (f task).Fits t) :
    { s with tasks := s.tasks.modify k f }.Custody where
  tidy := custody.tidy
  sound key := by
    have sound := custody.sound key
    by_cases same : key = k
    · subst same
      simpa only [spot, OrderedMap.get_modify_self] using sound.map fits
    · simpa only [spot, OrderedMap.get_modify, if_neg same] using sound
  outside out := by
    have absent := custody.no_tasks out k
    rw [OrderedMap.modify_none absent]
    exact custody.outside out

theorem Custody.marked (custody : s.Custody) (k : Key) {hit : Bool}
    (other : hit = true → ∀ t, s.memory.ticket k = some t → t.kind.closes = false) :
    { s with tasks := s.tasks.modify k fun task => { task with marked := task.marked || hit } }.Custody := by
  refine custody.modifyTask k fun task t _ found fits => { fits with marked := fun marked => ?_ }
  rw [Bool.or_eq_true] at marked
  rcases marked with marked | hit
  · exact fits.marked marked
  · exact other hit t found

theorem Custody.scoped (custody : s.Custody) (scopes : OrderedMap Key Bool) :
    { s with scopes := scopes }.Custody := ⟨custody.1, custody.2, custody.3⟩

-- A task works on its operation and goes to another stage.
theorem Custody.worked (custody : s.Custody) {m : Memory} {k : Key} {t t' : Ticket} {task : Task}
    {stage : Stage} (here : s.spot k = ⟨some t, 0, 0, some task, 0, 0⟩) (tidy : m.Tidy)
    (ticket : ∀ key, m.ticket key = if key = k then some t' else s.memory.ticket key)
    (undone : t'.done = false) (fits : ({ task with stage } : Task).Fits t') :
    ({ s with memory := m }.setStage k stage).Custody where
  tidy := tidy
  sound key := by
    have sound := custody.sound key
    by_cases same : key = k
    · subst same
      simp only [spot, Spot.mk.injEq] at here
      obtain ⟨_, queue, hand, present, notices, callback⟩ := here
      simp only [spot, setStage, ticket, if_true, queue, hand, OrderedMap.get_modify_self, present,
        Option.map_some, notices, callback]
      exact .task undone fits
    · simpa only [spot, setStage, ticket, OrderedMap.get_modify, if_neg same] using sound
  outside out := by
    have present : s.tasks.get k = some task := congrArg Spot.task here
    simp [custody.no_tasks out] at present

theorem Custody.worked_calm (custody : s.Custody) {m : Memory} {k : Key} {t : Ticket} {task : Task}
    {stage : Stage} (here : s.spot k = ⟨some t, 0, 0, some task, 0, 0⟩) (calm : s.memory.Calm m)
    (undone : t.done = false) (fits : ({ task with stage } : Task).Fits t) :
    ({ s with memory := m }.setStage k stage).Custody := by
  refine custody.worked here (custody.tidy.carried calm.carries) (fun key => ?_) undone fits
  rw [calm.ticket]
  split_ifs with same
  · rw [same]
    exact ticket_of_spot here
  · rfl

theorem Custody.setStage (custody : s.Custody) {k : Key} {t : Ticket} {task : Task} {stage : Stage}
    (here : s.spot k = ⟨some t, 0, 0, some task, 0, 0⟩) (undone : t.done = false)
    (fits : ({ task with stage } : Task).Fits t) : (s.setStage k stage).Custody :=
  custody.worked_calm here ⟨custody.tidy.books, Memory.Quiet.refl _, rfl, rfl⟩ undone fits

theorem complete_eq {k : Key} {t : Ticket} (found : s.memory.ticket k = some t)
    (undone : t.done = false) (code : Code) (kind : Option ResultKind) :
    s.complete k code kind = { s with
      memory := s.memory.complete k code kind
      notices := s.notices ++ [k]
      completed := s.completed ++ [t.entry k]
      lock := .waking } := by
  obtain ⟨o, present, _, rfl⟩ := Memory.ticket_eq_some.mp found
  have undone : o.done = false := undone
  simp only [complete, entries, present, undone, Bool.false_eq_true, if_false]
  rfl

theorem settle_eq {k : Key} {t : Ticket} (found : s.memory.ticket k = some t)
    (undone : t.done = false) (code : Code) (kind : Option ResultKind) :
    s.settle k code kind = { s with
      memory := s.memory.complete k code kind
      notices := s.notices ++ [k]
      completed := s.completed ++ [t.entry k]
      lock := .waking
      tasks := CAbi.changed (s.tasks.erase k) } := by
  rw [settle, complete_eq found undone]

theorem ready_eq {k i : Key} {t : Ticket} (found : s.memory.ticket k = some t)
    (undone : t.done = false) : s.ready k i = { s with
      memory := s.memory.complete k .ok (some .server)
      notices := s.notices ++ [k]
      completed := s.completed ++ [t.entry k]
      lock := .waking
      tasks := s.tasks.erase k
      scopes := s.scopes.insert i false } := by
  rw [ready, complete_eq found undone]

theorem get_changed (tasks : OrderedMap Key Task) (k : Key) :
    (CAbi.changed tasks).get k = (tasks.get k).map fun task =>
      { task with stage := task.stage.changed } :=
  OrderedMap.get_mapValues _ _ _

theorem Custody.answered (custody : s.Custody) {s' : State} {k : Key} {t : Ticket} {code : Code}
    {kind : Option ResultKind} {f : Task → Task} (found : s.memory.ticket k = some t)
    (undone : t.done = false) (unqueued : (s.spot k).queue = 0)
    (memory : s'.memory = s.memory.complete k code kind) (commands : s'.commands = s.commands)
    (notices : s'.notices = s.notices ++ [k]) (notifier : s'.notifier = s.notifier)
    (hand : ∀ key, s'.owner.hand.count key = if key = k then 0 else s.owner.hand.count key)
    (tasks : ∀ key, s'.tasks.get key = if key = k then none else (s.tasks.get key).map f)
    (fits : ∀ task t, task.Fits t → (f task).Fits t)
    (outside : s'.owner.inside = false → s'.tasks.keys = []) : s'.Custody := by
  obtain ⟨tidy, ticket⟩ := custody.tidy.complete found undone code kind
  refine ⟨memory ▸ tidy, fun key => ?_, outside⟩
  have sound := custody.sound key
  simp only [spot, memory, ticket, commands, hand, tasks, notices, notifier, List.count_append,
    List.count_singleton]
  by_cases same : key = k
  · subst same
    obtain ⟨noticed, called⟩ := sound.of_undone found undone
    have undelivered := custody.tidy.undelivered found undone
    simp only [spot] at unqueued noticed called
    simp only [if_true, unqueued, noticed, called, beq_self_eq_true]
    exact .notice rfl undelivered
  · have other : (k == key) = false := by simpa using Ne.symm same
    simpa [spot, same, other] using sound.map (f := f) fun _ _ _ _ => fits _ _

theorem Custody.settle (custody : s.Custody) {k : Key} {task : Task}
    (present : s.tasks.get k = some task) (code : Code) (kind : Option ResultKind) :
    (s.settle k code kind).Custody := by
  obtain ⟨t, here, undone, _⟩ := custody.task present
  have found := ticket_of_spot here
  rw [settle_eq found undone]
  refine custody.answered (f := fun task => { task with stage := task.stage.changed }) found undone
    (by rw [here]) rfl rfl rfl rfl (fun key => ?_) (fun key => ?_)
    (fun _ _ fits => { fits with stage := Stage.fits_changed fits.stage }) (fun out => ?_)
  · split_ifs with same
    · rw [same]
      exact congrArg Spot.hand here
    · rfl
  · rw [get_changed, OrderedMap.get_erase]
    split_ifs <;> rfl
  · simp [custody.no_tasks out] at present

theorem Custody.ready (custody : s.Custody) {k i : Key} {task : Task}
    (present : s.tasks.get k = some task) : (s.ready k i).Custody := by
  obtain ⟨t, here, undone, _⟩ := custody.task present
  have found := ticket_of_spot here
  rw [ready_eq found undone]
  refine custody.answered (f := id) found undone (by rw [here]) rfl rfl rfl rfl (fun key => ?_)
    (fun key => ?_) (fun _ _ => id) (fun out => ?_)
  · split_ifs with same
    · rw [same]
      exact congrArg Spot.hand here
    · rfl
  · simp [OrderedMap.get_erase]
  · simp [custody.no_tasks out] at present

theorem Custody.drained (custody : s.Custody) {k : Key} (owner : s.owner = .draining (some k))
    (code : Code) (kind : Option ResultKind) :
    { s.complete k code kind with owner := .draining none }.Custody := by
  obtain ⟨t, here, undone, _⟩ := custody.handed owner
  have found := ticket_of_spot here
  rw [complete_eq found undone]
  refine custody.answered (f := id) found undone (by rw [here]) rfl rfl rfl rfl (fun key => ?_)
    (fun key => ?_) (fun _ _ => id) (fun _ => ?_)
  · simp only [owner, Owner.hand, List.count_nil, List.count_singleton]
    split_ifs <;> simp_all
  · split_ifs with same
    · rw [same]
      exact congrArg Spot.task here
    · simp
  · exact custody.outside (by rw [owner]; rfl)

theorem Custody.enqueue (custody : s.Custody) {m : Memory} {k : Key} {t : Ticket} (tidy : m.Tidy)
    (absent : s.memory.ticket k = none) (undone : t.done = false) (blank : t.event.Blank)
    (ticket : ∀ key, m.ticket key = if key = k then some t else s.memory.ticket key) :
    ({ s with memory := m }.enqueue k).Custody := by
  refine ⟨tidy, fun key => ?_, custody.outside⟩
  have sound := custody.sound key
  simp only [State.enqueue, State.wake, spot, ticket, List.count_append, List.count_singleton]
  by_cases same : key = k
  · subst same
    have empty := sound.of_none absent
    simp only [spot, Spot.mk.injEq] at empty
    obtain ⟨_, queue, hand, task, notices, callback⟩ := empty
    simp only [if_true, queue, hand, task, notices, callback, beq_self_eq_true]
    exact .queued undone blank
  · have other : (k == key) = false := by simpa using Ne.symm same
    simpa [spot, same, other] using sound

theorem Custody.popped (custody : s.Custody) {k : Key} {rest : List Key}
    (commands : s.commands = k :: rest) (inside : s.owner.inside = true) :
    { s with commands := rest, tasks := s.tasks.insert k ⟨.spawned, false⟩ }.Custody := by
  obtain ⟨t, here, undone, blank⟩ := custody.queued (k := k) (by simp [commands])
  refine ⟨custody.tidy, fun key => ?_, fun out => ?_⟩
  · have sound := custody.sound key
    simp only [spot, commands, List.count_cons, OrderedMap.get_insert] at sound here ⊢
    by_cases same : key = k
    · subst same
      simp only [Spot.mk.injEq, beq_self_eq_true, if_true] at here ⊢
      obtain ⟨ticket, queue, hand, _, notices, callback⟩ := here
      have left : rest.count key = 0 := by omega
      simp only [ticket, left, hand, notices, callback]
      exact .task undone ⟨blank, by simp⟩
    · have other : (k == key) = false := by simpa using Ne.symm same
      simpa [same, other] using sound
  · simp [inside] at out

theorem Custody.taken (custody : s.Custody) {k : Key} {rest : List Key}
    (commands : s.commands = k :: rest) (owner : s.owner = .draining none) :
    { s with commands := rest, owner := .draining (some k) }.Custody := by
  obtain ⟨t, here, undone, blank⟩ := custody.queued (k := k) (by simp [commands])
  refine ⟨custody.tidy, fun key => ?_, fun _ => custody.outside (by rw [owner]; rfl)⟩
  have sound := custody.sound key
  simp only [spot, commands, owner, List.count_cons, Owner.hand, List.count_nil] at sound here ⊢
  by_cases same : key = k
  · subst same
    simp only [Spot.mk.injEq, beq_self_eq_true, if_true] at here ⊢
    obtain ⟨ticket, queue, _, task, notices, callback⟩ := here
    have left : rest.count key = 0 := by omega
    simp only [ticket, left, task, notices, callback]
    exact .hand undone blank
  · have other : (k == key) = false := by simpa using Ne.symm same
    simpa [same, other] using sound

theorem Custody.delivered (custody : s.Custody) {k : Key} {rest : List Key}
    (notices : s.notices = k :: rest) (notifier : s.notifier = .waiting) (taken : List Entry) :
    { s with
      memory := s.memory.deliver k
      notices := rest
      notifier := .calling k
      taken := taken }.Custody := by
  obtain ⟨t, here, done, undelivered⟩ := custody.noticed (k := k) (by simp [notices])
  obtain ⟨tidy, ticket⟩ := custody.tidy.deliver (ticket_of_spot here) done undelivered
  refine ⟨tidy, fun key => ?_, custody.outside⟩
  have sound := custody.sound key
  simp only [spot, ticket, notices, notifier, Notifier.hand, List.count_cons, List.count_nil]
    at sound here ⊢
  by_cases same : key = k
  · subst same
    simp only [Spot.mk.injEq, beq_self_eq_true, if_true] at here ⊢
    obtain ⟨_, queue, hand, task, noticed, _⟩ := here
    have left : rest.count key = 0 := by omega
    simp only [queue, hand, task, left]
    exact .callback done rfl
  · have other : (k == key) = false := by simpa using Ne.symm same
    simpa [same, other] using sound

theorem Custody.finished (custody : s.Custody) {k : Key} (notifier : s.notifier = .calling k) :
    { s with memory := s.memory.finish k, notifier := .waiting }.Custody := by
  obtain ⟨t, here, _, delivered⟩ := custody.calling notifier
  obtain ⟨tidy, ticket⟩ := custody.tidy.finish (ticket_of_spot here) delivered
  refine ⟨tidy, fun key => ?_, custody.outside⟩
  have sound := custody.sound key
  simp only [spot, ticket, notifier, Notifier.hand, List.count_cons, List.count_nil] at sound here ⊢
  by_cases same : key = k
  · subst same
    simp only [Spot.mk.injEq, if_true] at here ⊢
    obtain ⟨_, queue, hand, task, notices, _⟩ := here
    simp only [queue, hand, task, notices]
    exact .absent
  · have other : (k == key) = false := by simpa using Ne.symm same
    simpa [same, other] using sound

end State

end HttpServer.CAbi
