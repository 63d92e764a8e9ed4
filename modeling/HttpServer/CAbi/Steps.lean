import HttpServer.CAbi.Custody

set_option autoImplicit false

namespace HttpServer.CAbi

inductive Steps (p : Platform) (s : State) : Label → State → Prop
  | write (lock : s.lock = .waking) : Steps p s .write (s.writeByte p)
  | mark (lock : s.lock = .written) : Steps p s .mark { s with wakePending := true, lock := .free }
  | reads {next : State} (made : s.ownerStep .readByte = some next) :
      Steps p s (.owner .readByte) next
  | call {c : Call} (free : s.lock = .free) (legal : c.legal s.memory = true)
      (answers : Answers p s c (c.run p s).1 (c.run p s).2) : Steps p s (.call c) (c.run p s).2
  | reap (free : s.lock = .free) (phase : s.phase = .ended) :
      Steps p s .reap { s with phase := .off }
  | owner {move : OwnerMove} {next : State} (free : s.lock = .free)
      (made : s.ownerStep move = some next) : Steps p s (.owner move) next
  | task {k : Key} {move : TaskMove} {task : Task} {o : Operation} {next : State}
      (free : s.lock = .free) (present : s.tasks.get k = some task)
      (op : s.memory.ops.get k = some o) (reading : s.owner = .reading)
      (made : s.taskStep p k task o move = some next) (works : Works p s k task o next) :
      Steps p s (.task k move) next
  | serverStops {i : Key} (free : s.lock = .free) (idling : s.idling)
      (scope : s.scopes.get i = some true) : Steps p s (.serverStops i) (s.endScope i)
  | serverFails {i : Key} (free : s.lock = .free) (idling : s.idling)
      (scope : (s.scopes.get i).isSome) : Steps p s (.serverFails i) (s.endScope i)
  | notifier {move : NotifierMove} {next : State} (free : s.lock = .free)
      (made : s.notifierStep move = some next) : Steps p s (.notifier move) next

namespace State

variable {p : Platform} {s s' : State}

theorem Custody.op (custody : s.Custody) {k : Key} {task : Task} {o : Operation}
    (present : s.tasks.get k = some task) (op : s.memory.ops.get k = some o) :
    s.spot k = ⟨some o.ticket, 0, 0, some task, 0, 0⟩ ∧ o.done = false ∧ task.Fits o.ticket := by
  obtain ⟨t, here, undone, fits⟩ := custody.task present
  obtain ⟨o', op', _, rfl⟩ := Memory.ticket_eq_some.mp (ticket_of_spot here)
  cases op.symm.trans op'
  exact ⟨here, undone, fits⟩

theorem inst_of_ticket {k : Key} {t : Ticket} (found : s.memory.ticket k = some t) :
    s.inst k = some t.owner := by
  obtain ⟨o, op, _, rfl⟩ := Memory.ticket_eq_some.mp found
  simp [inst, op, Operation.ticket]

-- The close operation at `k` is the only one of its instance, so it does not cancel another.
theorem Custody.cancelOthers (custody : s.Custody) {k : Key} {t : Ticket}
    (found : s.memory.ticket k = some t) (closes : t.kind.closes = true) (undone : t.done = false) :
    (s.cancelOthers k).Custody := by
  refine custody.mapTasks fun key task u present there fits => ?_
  split_ifs with other
  · refine { fits with marked := fun _ => ?_ }
    by_contra closes'
    have same : u.owner = t.owner := by
      have same := other.1
      rw [inst_of_ticket there, inst_of_ticket found] at same
      exact Option.some.inj same
    obtain ⟨v, here, undone', _⟩ := custody.task present
    cases there.symm.trans (ticket_of_spot here)
    exact other.2 ((custody.tidy.closing k t found closes undone).only key u there same
      (by simpa using closes') undone')
  · exact fits

theorem spot_cancelOthers {k : Key} {t : Ticket} {task : Task}
    (here : s.spot k = ⟨some t, 0, 0, some task, 0, 0⟩) :
    (s.cancelOthers k).spot k = ⟨some t, 0, 0, some task, 0, 0⟩ := by
  simp only [spot, Spot.mk.injEq] at here ⊢
  obtain ⟨ticket, queue, hand, present, notices, callback⟩ := here
  refine ⟨ticket, queue, hand, ?_, notices, callback⟩
  rw [State.cancelOthers, OrderedMap.get_mapValues, present]
  simp

theorem Custody.effort (custody : s.Custody) {k : Key} {task : Task} {o : Operation} {m : Memory}
    {stage : Stage} (present : s.tasks.get k = some task) (op : s.memory.ops.get k = some o)
    (effort : Effort p s k o task.stage m stage) :
    ({ s with memory := m }.setStage k stage).Custody := by
  obtain ⟨here, undone, fits⟩ := custody.op present op
  have found := ticket_of_spot here
  have stays := fits.stage
  have stage_only {stage : Stage} (fit : stage.Fits o.ticket) : (s.setStage k stage).Custody :=
    custody.setStage here undone { fits with stage := fit }
  generalize before : task.stage = old at effort stays
  cases effort with
  | begins other => exact stage_only ⟨other, stays⟩
  | waits read => exact stage_only ⟨read, stays⟩
  | limits creates =>
    exact custody.worked_calm here (Memory.limits_calm custody.tidy.books _ _ _ _) undone
      { fits with stage := ⟨creates, stays.2⟩ }
  | responds submit made =>
    obtain ⟨tidy, ticket⟩ := custody.tidy.respond found submit undone stays.2.2.1 made
    exact custody.worked here tidy ticket undone { stage := ⟨submit, rfl⟩, marked := fits.marked }
  | header =>
    exact custody.worked_calm here (Memory.setHeader_calm custody.tidy.books _ _ _) undone
      { fits with stage := stays }
  | unchunked read => exact stage_only read
  | chunk read made =>
    obtain ⟨tidy, ticket⟩ := custody.tidy.chunk found read undone stays.2.2.2 made
    exact custody.worked here tidy ticket undone { stage := read, marked := fits.marked }
  | wakes =>
    have read : o.kind = .read := stays.1
    exact stage_only ⟨by simp [Operation.ticket, read, Kind.closes], stays.2⟩
  | waitsAgain => exact stage_only stays
  | stopsAgain => exact stage_only stays
  | drains closing =>
    refine stage_only ?_
    rcases closing with ⟨rfl, _⟩ | rfl | rfl
    · exact stays
    · exact stays
    · exact stays

theorem Custody.works (custody : s.Custody) {k : Key} {task : Task} {o : Operation}
    (present : s.tasks.get k = some task) (op : s.memory.ops.get k = some o)
    (works : Works p s k task o s') : s'.Custody := by
  obtain ⟨here, undone, fits⟩ := custody.op present op
  have found := ticket_of_spot here
  have closing (closes : o.kind.closes = true) : (s.cancelOthers k).Custody ∧
      (s.cancelOthers k).spot k = ⟨some o.ticket, 0, 0, some task, 0, 0⟩ :=
    ⟨custody.cancelOthers found closes undone, spot_cancelOthers here⟩
  cases works with
  | worked effort => exact custody.effort present op effort
  | settled => exact custody.settle present _ _
  | ready => exact custody.ready present
  | stops closes =>
    obtain ⟨custody, here⟩ := closing closes
    exact (custody.scoped _).setStage here undone { fits with stage := closes }
  | shuts closes =>
    obtain ⟨custody, here⟩ := closing closes
    exact custody.setStage here undone { fits with stage := closes }
  | drains closes =>
    obtain ⟨custody, here⟩ := closing closes
    exact custody.setStage here undone { fits with stage := closes }
  | closed closes few before =>
    rcases before with rfl | rfl
    · exact custody.settle present _ _
    · obtain ⟨custody, here⟩ := closing closes
      exact custody.settle (congrArg Spot.task here) _ _

theorem Custody.endScope (custody : s.Custody) (i : Key) : (s.endScope i).Custody := by
  have ended := (custody.mapTasks (f := fun k task =>
    if s.inst k = some i then { task with stage := task.stage.scopeEnds } else task)
    fun k task t _ _ fits => by
      split_ifs
      · exact { fits with stage := Stage.fits_scopeEnds fits.stage }
      · exact fits).changed
  exact ended.scoped _

theorem Custody.answered_all (custody : s.Custody) (owner : s.owner = .draining none)
    (commands : s.commands = []) (k : Key) (t : Ticket) (found : s.memory.ticket k = some t) :
    t.done = true := by
  apply (custody.sound k).of_elsewhere found
  · simp [spot, commands]
  · simp [spot, owner, Owner.hand]
  · exact custody.no_tasks (by rw [owner]; rfl) k

theorem Custody.ownerStep (custody : s.Custody) {move : OwnerMove}
    (made : s.ownerStep move = some s') : s'.Custody := by
  cases move with
  | attach =>
    simp only [State.ownerStep, Option.ite_none_right_eq_some, Option.some.injEq] at made
    obtain ⟨owner, rfl⟩ := made
    refine custody.same custody.tidy rfl rfl ?_ rfl rfl rfl ?_
    · rw [owner]
      rfl
    · exact fun _ => custody.outside (by rw [owner]; rfl)
  | bootstrapFails =>
    simp only [State.ownerStep, Option.ite_none_right_eq_some, Option.some.injEq] at made
    obtain ⟨owner, rfl⟩ := made
    refine custody.same custody.tidy rfl rfl ?_ rfl rfl rfl ?_
    · rw [owner]
      rfl
    · exact fun _ => custody.outside (by rw [owner]; rfl)
  | readByte =>
    simp only [State.ownerStep, Option.ite_none_right_eq_some, Option.some.injEq] at made
    obtain ⟨⟨owner, _⟩, rfl⟩ := made
    refine custody.same custody.tidy rfl rfl ?_ rfl rfl rfl ?_
    · rw [owner]
      rfl
    · exact fun out => absurd out (by simp [Owner.inside])
  | ack =>
    simp only [State.ownerStep, Option.ite_none_right_eq_some, Option.some.injEq] at made
    obtain ⟨owner, rfl⟩ := made
    refine custody.changed.same custody.tidy rfl rfl ?_ rfl rfl rfl ?_
    · rw [owner]
      rfl
    · exact fun out => absurd out (by simp [Owner.inside])
  | pop =>
    simp only [State.ownerStep, Option.ite_none_right_eq_some] at made
    obtain ⟨owner, made⟩ := made
    split at made
    · cases made
      refine custody.same custody.tidy rfl rfl ?_ rfl rfl rfl ?_
      · rw [owner]
        rfl
      · exact fun out => absurd out (by simp [Owner.inside])
    · rename_i commands
      cases made
      exact custody.popped commands (by rw [owner]; rfl)
  | cancelNext =>
    simp only [State.ownerStep] at made
    split at made
    · rename_i owner
      cases made
      refine custody.same custody.tidy rfl rfl ?_ rfl rfl rfl ?_
      · rw [owner]
        rfl
      · exact fun out => absurd out (by simp [Owner.inside])
    · rename_i k rest owner
      cases made
      refine (custody.marked k fun hit t found => ?_).same custody.tidy rfl rfl ?_ rfl rfl rfl ?_
      · obtain ⟨o, op, _, rfl⟩ := Memory.ticket_eq_some.mp found
        simp only [op, Option.any_some, Bool.and_eq_true] at hit
        exact Kind.closes_of_business hit.1
      · rw [owner]
        rfl
      · exact fun out => absurd out (by simp [Owner.inside])
    · cases made
  | idle =>
    simp only [State.ownerStep, Option.ite_none_right_eq_some] at made
    obtain ⟨owner, made⟩ := made
    split_ifs at made
    · cases made
      refine custody.same custody.tidy rfl rfl ?_ rfl rfl rfl ?_
      · rw [owner]
        rfl
      · exact fun out => absurd out (by simp [Owner.inside])
    · cases made
      refine custody.same custody.tidy rfl rfl ?_ rfl rfl rfl ?_
      · rw [owner]
        rfl
      · exact fun out => absurd out (by simp [Owner.inside])
  | leave =>
    simp only [State.ownerStep, Option.ite_none_right_eq_some, Option.some.injEq] at made
    obtain ⟨⟨owner, tasks, _⟩, rfl⟩ := made
    refine custody.same custody.tidy rfl rfl ?_ rfl rfl rfl fun _ => tasks
    rw [owner]
    rfl
  | drainPop =>
    simp only [State.ownerStep] at made
    split at made
    · rename_i owner commands
      cases made
      exact custody.taken commands owner
    · cases made
  | drainComplete =>
    simp only [State.ownerStep] at made
    split at made
    · rename_i owner
      cases made
      exact custody.drained owner _ _
    · cases made
  | drainEnd =>
    simp only [State.ownerStep, Option.ite_none_right_eq_some, Option.some.injEq] at made
    obtain ⟨⟨owner, commands⟩, rfl⟩ := made
    refine custody.same (custody.tidy.retireAll (custody.answered_all owner commands)) ?_ rfl ?_ rfl
      rfl rfl ?_
    · exact (Memory.retireAll_effect _).2.1
    · rw [owner]
      rfl
    · exact fun _ => custody.outside (by rw [owner]; rfl)

theorem Custody.notifierStep (custody : s.Custody) {move : NotifierMove}
    (made : s.notifierStep move = some s') : s'.Custody := by
  cases move with
  | take =>
    simp only [State.notifierStep] at made
    split at made
    · rename_i notifier notices
      cases made
      exact custody.delivered notices notifier _
    · cases made
  | returned =>
    simp only [State.notifierStep] at made
    split at made
    · rename_i notifier
      cases made
      exact (custody.finished notifier).wake
    · cases made
  | exit =>
    simp only [State.notifierStep, Option.ite_none_right_eq_some, Option.some.injEq] at made
    obtain ⟨⟨notifier, _⟩, rfl⟩ := made
    refine custody.same custody.tidy rfl rfl rfl rfl rfl ?_ custody.outside
    rw [notifier]
    rfl
  | join =>
    simp only [State.notifierStep, Option.ite_none_right_eq_some, Option.some.injEq] at made
    obtain ⟨⟨notifier, _⟩, rfl⟩ := made
    refine custody.same custody.tidy rfl rfl rfl rfl rfl ?_ custody.outside
    rw [notifier]
    rfl

theorem Custody.created (custody : s.Custody) {m : Memory} {k : Key} {kind : Kind}
    (made : s.memory.Creates m k kind) (creates : kind.creates = true) :
    ({ s with memory := m }.enqueue k).Custody := by
  refine custody.enqueue (custody.tidy.creates made creates) ?_ rfl ⟨rfl, rfl, rfl⟩ made.ticket
  exact custody.tidy.books.sound.ticket_absent made.fresh.le

theorem Custody.admitted (custody : s.Custody) {m : Memory} {k i : Key} {kind : Kind}
    {response : Option Key} (admits : s.memory.Admits m k (.new kind i response)) (tidy : m.Tidy) :
    ({ s with memory := m }.enqueue k).Custody :=
  custody.enqueue tidy (custody.tidy.books.sound.ticket_absent admits.fresh) rfl ⟨rfl, rfl, rfl⟩
    admits.ticket

theorem Custody.starts (custody : s.Custody)
    (roles : Roles s.phase s.owner s.notifier s.ownerDone) {started : Bool}
    (starts : Starts s started s') : s'.Custody := by
  cases starts with
  | ending | running => exact custody
  | unstarted =>
    exact custody.same (custody.tidy.ids 1) rfl rfl rfl rfl rfl rfl custody.outside
  | unowned phase =>
    rw [phase] at roles
    obtain ⟨_, notifier⟩ := roles.of_off
    refine custody.same (custody.tidy.ids 1) rfl rfl rfl rfl rfl ?_ custody.outside
    rw [notifier]
    rfl
  | fresh phase =>
    rw [phase] at roles
    obtain ⟨owner, notifier⟩ := roles.of_off
    refine custody.same (custody.tidy.ids 1) rfl rfl ?_ rfl rfl ?_ fun _ => ?_
    · rw [owner]
      rfl
    · rw [notifier]
      rfl
    · exact custody.outside (by rw [owner]; rfl)

theorem Custody.answers (custody : s.Custody)
    (roles : Roles s.phase s.owner s.notifier s.ownerDone) {c : Call} {code : Code}
    (answers : Answers p s c code s') : s'.Custody := by
  cases answers with
  | refused | late => exact custody
  | unstarted starts => exact custody.starts roles starts
  | uncreated starts calm =>
    have started := custody.starts roles starts
    exact (started.memory (started.tidy.carried calm.carries) calm.ticket).wake
  | created starts creates made => exact (custody.starts roles starts).created made creates
  | rejected calm | returned calm =>
    exact custody.memory (custody.tidy.carried calm.carries) calm.ticket
  | admitted admits usable creates reads owned closed =>
    exact custody.admitted admits (custody.tidy.admits admits usable.known creates reads owned
      (fun _ => usable.opened) closed)
  | cancelled => exact (custody.cancel _).wake
  | unreleased found held made =>
    obtain ⟨books, live, ticket, effect⟩ :=
      Memory.releaseResponse_without custody.tidy.books found held made
    have shuts := Memory.released_shuts effect
    exact custody.same (custody.tidy.carried (shuts.carries_same books live ticket)) ticket rfl rfl
      rfl rfl rfl custody.outside
  | chunkReturned books shuts live ticket =>
    exact (custody.memory (custody.tidy.carried (shuts.carries_same books live ticket)) ticket).wake

theorem Still.roles (still : s.Still s') (roles : Roles s.phase s.owner s.notifier s.ownerDone) :
    Roles s'.phase s'.owner s'.notifier s'.ownerDone := by
  rw [still.phase, still.owner, still.notifier, still.ownerDone]
  exact roles

theorem Starts.roles {started : Bool} (starts : Starts s started s')
    (roles : Roles s.phase s.owner s.notifier s.ownerDone) :
    Roles s'.phase s'.owner s'.notifier s'.ownerDone := by
  cases starts with
  | ending | running => exact roles
  | unstarted phase =>
    rw [phase] at roles
    obtain ⟨owner, notifier⟩ := roles.of_off
    simp only [phase, owner, notifier]
    exact .off
  | unowned phase =>
    rw [phase] at roles
    obtain ⟨owner, _⟩ := roles.of_off
    simp only [owner]
    exact .done (by simp)
  | fresh => exact .starting rfl

theorem Answers.roles {c : Call} {code : Code} (answers : Answers p s c code s')
    (roles : Roles s.phase s.owner s.notifier s.ownerDone) :
    Roles s'.phase s'.owner s'.notifier s'.ownerDone := by
  cases answers with
  | unstarted starts => exact Starts.roles starts roles
  | uncreated starts | created starts =>
    have started := Starts.roles starts roles
    exact started
  | _ => exact roles

theorem ownerStep_roles {move : OwnerMove} (made : s.ownerStep move = some s')
    (roles : Roles s.phase s.owner s.notifier s.ownerDone) :
    Roles s'.phase s'.owner s'.notifier s'.ownerDone := by
  have loop (looping : s.owner.looping) {o : Owner} (still : o.looping) :
      Roles s.phase o s.notifier s.ownerDone := by
    obtain ⟨phase, running, done⟩ := roles.of_looping looping
    rw [phase, done]
    exact .attached still running
  cases move with
  | attach =>
    simp only [ownerStep, Option.ite_none_right_eq_some, Option.some.injEq] at made
    obtain ⟨owner, rfl⟩ := made
    rw [owner] at roles
    obtain ⟨_, running, done⟩ := roles.of_starting
    simp only [wake, done]
    exact .attached rfl running
  | bootstrapFails =>
    simp only [ownerStep, Option.ite_none_right_eq_some, Option.some.injEq] at made
    obtain ⟨owner, rfl⟩ := made
    rw [owner] at roles
    obtain ⟨_, running, done⟩ := roles.of_starting
    simp only [done]
    exact .draining running
  | readByte =>
    simp only [ownerStep, Option.ite_none_right_eq_some, Option.some.injEq] at made
    obtain ⟨⟨owner, _⟩, rfl⟩ := made
    exact loop (by rw [owner]; rfl) rfl
  | ack =>
    simp only [ownerStep, Option.ite_none_right_eq_some, Option.some.injEq] at made
    obtain ⟨owner, rfl⟩ := made
    exact loop (by rw [owner]; rfl) rfl
  | pop =>
    simp only [ownerStep, Option.ite_none_right_eq_some] at made
    obtain ⟨owner, made⟩ := made
    split at made
    · cases made
      exact loop (by rw [owner]; rfl) rfl
    · cases made
      exact roles
  | cancelNext =>
    simp only [ownerStep] at made
    split at made
    · rename_i owner
      cases made
      exact loop (by rw [owner]; rfl) rfl
    · rename_i owner
      cases made
      exact loop (by rw [owner]; rfl) rfl
    · cases made
  | idle =>
    simp only [ownerStep, Option.ite_none_right_eq_some] at made
    obtain ⟨owner, made⟩ := made
    split_ifs at made
    · cases made
      obtain ⟨_, running, done⟩ := roles.of_looping (by rw [owner]; rfl)
      simp only [done]
      exact .leaving running
    · cases made
      exact loop (by rw [owner]; rfl) rfl
  | leave =>
    simp only [ownerStep, Option.ite_none_right_eq_some, Option.some.injEq] at made
    obtain ⟨⟨owner, _⟩, rfl⟩ := made
    rw [owner] at roles
    obtain ⟨phase, running, done⟩ := roles.of_leaving
    simp only [phase, done]
    exact .draining running
  | drainPop =>
    simp only [ownerStep] at made
    split at made
    · rename_i owner _
      cases made
      rw [owner] at roles
      obtain ⟨phase, running, done⟩ := roles.of_draining
      simp only [phase, done]
      exact .draining running
    · cases made
  | drainComplete =>
    simp only [ownerStep] at made
    split at made
    · rename_i k owner
      cases made
      have still := s.complete_still k .io (some .done)
      rw [owner] at roles
      obtain ⟨phase, running, done⟩ := roles.of_draining
      simp only [still.phase, still.notifier, still.ownerDone, phase, done]
      exact .draining running
    · cases made
  | drainEnd =>
    simp only [ownerStep, Option.ite_none_right_eq_some, Option.some.injEq] at made
    obtain ⟨⟨owner, _⟩, rfl⟩ := made
    rw [owner] at roles
    obtain ⟨phase, running, _⟩ := roles.of_draining
    simp only [phase]
    exact .done (by rintro absent; rw [absent] at running; cases running)

theorem notifierStep_roles {move : NotifierMove} (made : s.notifierStep move = some s')
    (roles : Roles s.phase s.owner s.notifier s.ownerDone) :
    Roles s'.phase s'.owner s'.notifier s'.ownerDone := by
  cases move with
  | take =>
    simp only [notifierStep] at made
    split at made
    · rename_i notifier _
      cases made
      exact roles.notifier (by rw [notifier]; rfl) rfl
    · cases made
  | returned =>
    simp only [notifierStep] at made
    split at made
    · rename_i notifier
      cases made
      exact roles.notifier (by rw [notifier]; rfl) rfl
    · cases made
  | exit =>
    simp only [notifierStep, Option.ite_none_right_eq_some, Option.some.injEq] at made
    obtain ⟨⟨notifier, _, done⟩, rfl⟩ := made
    rw [done] at roles
    obtain ⟨phase, owner⟩ := roles.of_done (by rw [notifier]; rfl)
    simp only [phase, owner, done]
    exact .done (by simp)
  | join =>
    simp only [notifierStep, Option.ite_none_right_eq_some, Option.some.injEq] at made
    obtain ⟨⟨_, owner⟩, rfl⟩ := made
    simp only [owner]
    exact .ended

/-- What holds between two steps. -/
structure Kept (s : State) : Prop where
  custody : s.Custody
  roles : Roles s.phase s.owner s.notifier s.ownerDone

theorem Kept.answers (kept : s.Kept) {c : Call} {code : Code} (answers : Answers p s c code s') :
    s'.Kept :=
  ⟨kept.custody.answers kept.roles answers, Answers.roles answers kept.roles⟩

theorem Kept.steps (kept : s.Kept) {label : Label} (made : s.step p label = some s') :
    Steps p s label s' := by
  have guarded {next : Option State} (made : (if s.lock ≠ .free then none else next) = some s') :
      s.lock = .free ∧ next = some s' := by
    rw [Option.ite_none_left_eq_some, not_not] at made
    exact made
  cases label with
  | write =>
    change (if s.lock = .waking then some (s.writeByte p) else none) = some s' at made
    simp only [Option.ite_none_right_eq_some, Option.some.injEq] at made
    obtain ⟨lock, rfl⟩ := made
    exact .write lock
  | mark =>
    change (if s.lock = .written then some { s with wakePending := true, lock := .free } else none) =
      some s' at made
    simp only [Option.ite_none_right_eq_some, Option.some.injEq] at made
    obtain ⟨lock, rfl⟩ := made
    exact .mark lock
  | call c =>
    obtain ⟨free, made⟩ := guarded made
    simp only [Option.ite_none_right_eq_some, Option.some.injEq] at made
    obtain ⟨legal, rfl⟩ := made
    exact .call free legal (run_answers kept.custody.tidy legal)
  | reap =>
    obtain ⟨free, made⟩ := guarded made
    simp only [Option.ite_none_right_eq_some, Option.some.injEq] at made
    obtain ⟨phase, rfl⟩ := made
    exact .reap free phase
  | owner move =>
    by_cases reads : move = .readByte
    · subst reads
      exact .reads made
    · have made : (if s.lock ≠ .free then none else s.ownerStep move) = some s' := by
        cases move <;> first | exact made | exact absurd rfl reads
      obtain ⟨free, made⟩ := guarded made
      exact .owner free made
  | task k move =>
    obtain ⟨free, made⟩ := guarded made
    split at made
    · rename_i task o present op
      simp only [Option.ite_none_right_eq_some] at made
      obtain ⟨reading, made⟩ := made
      obtain ⟨_, _, fits⟩ := kept.custody.op present op
      exact .task free present op reading made (taskStep_works fits made)
    · cases made
  | serverStops i =>
    obtain ⟨free, made⟩ := guarded made
    simp only [Option.ite_none_right_eq_some, Option.some.injEq] at made
    obtain ⟨⟨idling, scope⟩, rfl⟩ := made
    exact .serverStops free idling scope
  | serverFails i =>
    obtain ⟨free, made⟩ := guarded made
    simp only [Option.ite_none_right_eq_some, Option.some.injEq] at made
    obtain ⟨⟨idling, scope⟩, rfl⟩ := made
    exact .serverFails free idling scope
  | notifier move =>
    obtain ⟨free, made⟩ := guarded made
    exact .notifier free made

theorem writeByte_kept (kept : s.Kept) : (s.writeByte p).Kept := by
  unfold writeByte
  split_ifs
  · exact ⟨⟨kept.1.1, kept.1.2, kept.1.3⟩, kept.2⟩
  · exact ⟨⟨kept.1.1, kept.1.2, kept.1.3⟩, kept.2⟩
  · exact ⟨⟨kept.1.1, kept.1.2, kept.1.3⟩, kept.2⟩

theorem Kept.step (kept : s.Kept) {label : Label} (made : s.step p label = some s') : s'.Kept := by
  cases kept.steps made with
  | write => exact writeByte_kept kept
  | mark => exact ⟨⟨kept.1.1, kept.1.2, kept.1.3⟩, kept.2⟩
  | reads made => exact ⟨kept.custody.ownerStep made, ownerStep_roles made kept.roles⟩
  | call _ _ answers => exact kept.answers answers
  | reap _ phase =>
    have roles := kept.roles
    rw [phase] at roles
    obtain ⟨owner, notifier⟩ := roles.of_ended
    refine ⟨⟨kept.1.1, kept.1.2, kept.1.3⟩, ?_⟩
    simp only [owner, notifier]
    exact .off
  | owner _ made => exact ⟨kept.custody.ownerStep made, ownerStep_roles made kept.roles⟩
  | task _ present op _ _ works =>
    exact ⟨kept.custody.works present op works, (Works.still works).roles kept.roles⟩
  | serverStops | serverFails => exact ⟨kept.custody.endScope _, kept.roles⟩
  | notifier _ made => exact ⟨kept.custody.notifierStep made, notifierStep_roles made kept.roles⟩

theorem kept_initial : initial.Kept where
  custody := by
    refine ⟨Memory.tidy_empty ⟨fun a => ?_, ?_⟩, fun k => ?_, fun _ => rfl⟩
    · cases a <;> simp [Memory.total, Memory.base, Memory.empty, bytesFor]
    · constructor <;> simp [Memory.empty, OrderedMap.each_empty, Memory.cap]
    · exact .absent
  roles := .off

theorem kept_of_reachable (reached : (bridge p).Reachable s) : s.Kept :=
  reached.invariant kept_initial fun _ _ _ kept made => kept.step made

end State

end HttpServer.CAbi
