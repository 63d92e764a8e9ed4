import HttpServer.CAbi.Wakeups

set_option autoImplicit false

/-!
# Servers and the operations that stop them

A server has a scope from when it is ready until it ends. Its instance is live all that time, and a
stop operation waits only for an end that was asked for.
-/

namespace HttpServer.CAbi

namespace Stage

def Agrees (scope : Option Bool) : Stage → Prop
  | stopping woken => scope = some true ∨ woken = true ∧ scope = none
  | shutting | draining _ => scope = none
  | spawned | working | configured | responding _ _ | chunked _ | waiting _ => True

theorem agrees_changed {scope : Option Bool} {stage : Stage} (agrees : stage.Agrees scope) :
    stage.changed.Agrees scope := by
  cases stage <;> exact agrees

theorem agrees_scopeEnds {scope : Option Bool} {stage : Stage} (agrees : stage.Agrees scope) :
    stage.scopeEnds.Agrees none := by
  cases stage with
  | stopping => exact Or.inr ⟨rfl, rfl⟩
  | shutting | draining => rfl
  | _ => exact agrees

-- Only closes have to do with servers that run.
theorem agrees_of_fits {scope : Option Bool} {stage : Stage} {t : Ticket} (fits : stage.Fits t)
    (other : t.kind.closes = false) : stage.Agrees scope := by
  cases stage with
  | stopping | shutting | draining =>
    have closes : t.kind.closes = true := fits
    simp [other] at closes
  | _ => trivial

end Stage

namespace State

variable {p : Platform} {s s' : State}

structure Serves (s : State) : Prop where
  outside : s.owner.inside = false → ∀ i, s.scopes.get i = none
  live : ∀ i b, s.scopes.get i = some b → i ∈ s.memory.live
  unborn : ∀ k t, s.memory.ticket k = some t → t.kind.creates = true → t.done = false →
    s.scopes.get t.owner = none
  agrees : ∀ k task t, s.tasks.get k = some task → s.memory.ticket k = some t →
    task.stage.Agrees (s.scopes.get t.owner)

theorem Serves.same (serves : s.Serves) (custody : s'.Custody)
    (outside : s'.owner.inside = false → ∀ i, s.scopes.get i = none) (scopes : s'.scopes = s.scopes)
    (live : ∀ i b, s.scopes.get i = some b → i ∈ s'.memory.live)
    (tickets : ∀ k t', s'.memory.ticket k = some t' → t'.done = false →
      ∃ t, s.memory.ticket k = some t ∧ t.Like t')
    (tasks : ∀ k task' t', s'.tasks.get k = some task' → s'.memory.ticket k = some t' →
      (∃ task, s.tasks.get k = some task ∧
        (task'.stage = task.stage ∨ task'.stage = task.stage.changed)) ∨
      task'.stage.Agrees (s.scopes.get t'.owner)) : s'.Serves where
  outside out := by
    rw [scopes]
    exact outside out
  live i b found := live i b (scopes ▸ found)
  unborn k t' found creates undone := by
    obtain ⟨t, before, like⟩ := tickets k t' found undone
    rw [scopes, like.owner]
    exact serves.unborn k t before (like.kind ▸ creates) (like.done ▸ undone)
  agrees k task' t' present found := by
    obtain ⟨u, here, undone, _⟩ := custody.task present
    cases found.symm.trans (ticket_of_spot here)
    obtain ⟨t, before, like⟩ := tickets k t' found undone
    rw [scopes]
    rcases tasks k task' t' present found with ⟨task, there, stage⟩ | agrees
    · have agrees := serves.agrees k task t there before
      rw [like.owner]
      rcases stage with stage | stage
      · exact stage ▸ agrees
      · exact stage ▸ Stage.agrees_changed agrees
    · exact agrees

theorem Serves.moves (serves : s.Serves) (custody : s'.Custody)
    (outside : s'.owner.inside = false → s.owner.inside = false) (scopes : s'.scopes = s.scopes)
    (live : s'.memory.live = s.memory.live) (follows : s.memory.Follows s'.memory)
    (tasks : s'.tasks = s.tasks) : s'.Serves := by
  refine serves.same custody (fun out => serves.outside (outside out)) scopes (fun i b found => ?_)
    (fun k t' found _ => follows.tickets k t' found) fun k task' t' present _ => Or.inl ?_
  · rw [live]
    exact serves.live i b found
  · exact ⟨task', tasks ▸ present, Or.inl rfl⟩

theorem Serves.outside_only (serves : s.Serves) (custody : s'.Custody) (scopes : s'.scopes = s.scopes)
    (out : s.owner.inside = false) (out' : s'.owner.inside = false) : s'.Serves where
  outside _ i := scopes ▸ serves.outside out i
  live i b found := by simp [scopes, serves.outside out i] at found
  unborn _ t _ _ _ := scopes ▸ serves.outside out t.owner
  agrees k task t present := by simp [custody.no_tasks out' k] at present

theorem Serves.enqueues (serves : s.Serves) (custody : s.Custody) {m : Memory} {k : Key} {t : Ticket}
    (absent : s.memory.ticket k = none)
    (ticket : ∀ key, m.ticket key = if key = k then some t else s.memory.ticket key)
    (live : ∀ i ∈ s.memory.live, i ∈ m.live)
    (fresh : t.kind.creates = true → s.scopes.get t.owner = none) :
    ({ s with memory := m }.enqueue k).Serves where
  outside := serves.outside
  live i b found := live i (serves.live i b found)
  unborn key t' found creates undone := by
    change m.ticket key = some t' at found
    rw [ticket] at found
    split_ifs at found
    · cases found
      exact fresh creates
    · exact serves.unborn key t' found creates undone
  agrees key task t' present found := by
    change m.ticket key = some t' at found
    rw [ticket] at found
    split_ifs at found with here
    · obtain ⟨u, spot, _⟩ := custody.task present
      rw [here] at spot
      cases absent.symm.trans (ticket_of_spot spot)
    · exact serves.agrees key task t' present found

theorem Serves.unscoped (serves : s.Serves) (tidy : s.memory.Tidy) {i : Key}
    (new : s.memory.fresh ≤ i) : s.scopes.get i = none := by
  by_contra present
  obtain ⟨b, found⟩ := Option.ne_none_iff_exists'.mp present
  exact absurd (tidy.books.sound.addressed i (serves.live i b found)) (not_lt.mpr new)

theorem Kept.starts_memory (kept : s.Kept) {started : Bool} (starts : Starts s started s') :
    s'.memory.live = s.memory.live ∧ s'.memory.ticket = s.memory.ticket ∧ s'.scopes = s.scopes ∧
      s'.tasks = s.tasks ∧ (s'.owner.inside = false → s.owner.inside = false) := by
  have roles := kept.roles
  cases starts with
  | ending | running => exact ⟨rfl, rfl, rfl, rfl, id⟩
  | unstarted | unowned => exact ⟨rfl, rfl, rfl, rfl, id⟩
  | fresh phase =>
    rw [phase] at roles
    refine ⟨rfl, rfl, rfl, rfl, fun _ => ?_⟩
    rw [roles.of_off.1]
    rfl

theorem Kept.serves_starts (kept : s.Kept) (serves : s.Serves) {started : Bool}
    (starts : Starts s started s') : s'.Serves := by
  obtain ⟨live, ticket, scopes, tasks, outside⟩ := kept.starts_memory starts
  have custody := kept.custody.starts kept.roles starts
  refine serves.same custody (fun out => serves.outside (outside out)) scopes (fun i b found => ?_)
    (fun k t' found _ => ⟨t', ticket ▸ found, .refl t'⟩) fun k task' t' present _ => Or.inl ?_
  · rw [live]
    exact serves.live i b found
  · exact ⟨task', tasks ▸ present, Or.inl rfl⟩

theorem Kept.serves_answers (kept : s.Kept) (serves : s.Serves) {c : Call} {code : Code}
    (answers : Answers p s c code s') : s'.Serves := by
  have tidy := kept.custody.tidy
  have custody := kept.custody.answers kept.roles answers
  cases answers with
  | refused | late => exact serves
  | unstarted starts => exact kept.serves_starts serves starts
  | uncreated starts calm =>
    exact (kept.serves_starts serves starts).moves custody id rfl calm.live calm.follows rfl
  | created starts creates made =>
    have custody₁ := kept.custody.starts kept.roles starts
    have serves₁ := kept.serves_starts serves starts
    refine serves₁.enqueues custody₁ (custody₁.tidy.books.sound.ticket_absent made.fresh.le) made.ticket
      (fun i member => ?_) fun _ => serves₁.unscoped custody₁.tidy (le_refl _)
    rw [made.live]
    exact List.mem_cons_of_mem _ member
  | rejected calm | returned calm => exact serves.moves custody id rfl calm.live calm.follows rfl
  | admitted admits usable creates =>
    refine serves.enqueues kept.custody (tidy.books.sound.ticket_absent admits.fresh) admits.ticket
      (fun i member => ?_) fun made => ?_
    · rw [admits.live]
      exact member
    · simp [Ticket.new, creates] at made
  | cancelled => exact serves.moves custody id rfl rfl (Memory.follows_cancel _ _) rfl
  | unreleased found held made =>
    obtain ⟨_, live, ticket, effect⟩ := Memory.releaseResponse_without tidy.books found held made
    exact serves.moves custody id rfl live ((Memory.released_shuts effect).follows ticket) rfl
  | chunkReturned _ shuts live ticket => exact serves.moves custody id rfl live (shuts.follows ticket) rfl

-- The task that has the operation in hand is where it was or further on.
theorem Serves.worked (serves : s.Serves) {m : Memory} {k : Key} {t : Ticket} {stage : Stage}
    (custody : ({ s with memory := m }.setStage k stage).Custody)
    (found : s.memory.ticket k = some t) (live : m.live = s.memory.live)
    (follows : s.memory.Follows m) (agrees : stage.Agrees (s.scopes.get t.owner)) :
    ({ s with memory := m }.setStage k stage).Serves := by
  refine serves.same custody serves.outside rfl (fun i b here => ?_)
    (fun key u there _ => follows.tickets key u there) fun key task u present there => ?_
  · change i ∈ m.live
    rw [live]
    exact serves.live i b here
  · change (s.tasks.modify k _).get key = some task at present
    rw [OrderedMap.get_modify] at present
    split_ifs at present with same
    · obtain ⟨old, _, rfl⟩ := Option.map_eq_some_iff.mp present
      obtain ⟨t', before, like⟩ := follows.tickets key u there
      rw [same, found, Option.some.injEq] at before
      right
      rw [like.owner, ← before]
      exact agrees
    · exact Or.inl ⟨task, present, Or.inl rfl⟩

theorem Custody.live_effort (custody : s.Custody) {k : Key} {task : Task} {o : Operation}
    {m : Memory} {stage : Stage} (present : s.tasks.get k = some task)
    (op : s.memory.ops.get k = some o) (effort : Effort p s k o task.stage m stage) :
    m.live = s.memory.live := by
  obtain ⟨here, undone, fits⟩ := custody.op present op
  have tidy := custody.tidy
  have found := ticket_of_spot here
  have unanswered : o.Unanswered := by
    obtain ⟨o', op', unfinished, _⟩ := Memory.ticket_eq_some.mp found
    cases op.symm.trans op'
    exact ⟨undone, tidy.undelivered found undone, unfinished⟩
  have stays := fits.stage
  generalize task.stage = old at effort stays
  cases effort with
  | limits => rfl
  | header => exact (Memory.setHeader_calm tidy.books _ _ _).live
  | responds submit made =>
    exact (Memory.makeResponse_effect tidy.books op unanswered stays.2.2.1 made).2.1
  | chunk read made =>
    obtain ⟨r, response⟩ := Option.isSome_iff_exists.mp (tidy.reading k o.ticket found read)
    exact (Memory.addChunk_effect tidy.books op unanswered response stays.2.2.2 made).2.1
  | begins | waits | unchunked | wakes | waitsAgain | stopsAgain | drains => rfl

theorem effort_agrees {k : Key} {o : Operation} {scope : Option Bool} {stage stage' : Stage}
    {m : Memory} (effort : Effort p s k o stage m stage') (server : s.scopes.get o.owner = scope)
    (agrees : stage.Agrees scope) : stage'.Agrees scope := by
  cases effort with
  | stopsAgain running =>
    rcases agrees with stopped | ⟨_, ended⟩
    · exact Or.inl stopped
    · simp [server, ended] at running
  | drains closing =>
    rcases closing with ⟨_, ended⟩ | rfl | rfl
    · exact server.symm.trans ended
    · exact agrees
    · exact agrees
  | _ => trivial

-- What is answered has no server that runs, unless it is the operation that starts it.
theorem Serves.answered (serves : s.Serves) (custody : s'.Custody) {k : Key} {t : Ticket}
    {code : Code} {kind : Option ResultKind} (tidy : s.memory.Tidy)
    (found : s.memory.ticket k = some t) (undone : t.done = false)
    (ended : t.kind.creates = true ∨ t.kind.closes = true → s.scopes.get t.owner = none)
    (outside : s'.owner.inside = false → ∀ i, s.scopes.get i = none)
    (memory : s'.memory = s.memory.complete k code kind) (scopes : s'.scopes = s.scopes)
    (tasks : ∀ key task, s'.tasks.get key = some task → ∃ old, s.tasks.get key = some old ∧
      (task.stage = old.stage ∨ task.stage = old.stage.changed)) : s'.Serves := by
  obtain ⟨_, ticket⟩ := tidy.complete found undone code kind
  obtain ⟨o, op, _, rfl⟩ := Memory.ticket_eq_some.mp found
  refine serves.same custody outside scopes (fun i b here => ?_) (fun key u there open' => ?_)
    fun key task u present _ => Or.inl (tasks key task present)
  · rw [memory, Memory.complete_live op undone]
    have member := serves.live i b here
    split_ifs with retired
    · refine (tidy.books.sound.live.mem_erase_iff).mpr ⟨?_, member⟩
      rintro rfl
      have status : o.kind.creates = true ∨ o.kind.closes = true := by
        simp only [Memory.retires, Bool.or_eq_true, Bool.and_eq_true] at retired
        exact retired.imp_left And.left
      have none : s.scopes.get o.owner = none := ended status
      rw [none] at here
      cases here
    · exact member
  · rw [memory, ticket] at there
    split_ifs at there
    · cases there
      simp [Ticket.answered] at open'
    · exact ⟨u, there, .refl u⟩

theorem get_settled {k key : Key} {task : Task}
    (present : (CAbi.changed (s.tasks.erase k)).get key = some task) :
    key ≠ k ∧ ∃ old, s.tasks.get key = some old ∧ task.stage = old.stage.changed := by
  rw [get_changed, OrderedMap.get_erase] at present
  obtain ⟨old, before, rfl⟩ := Option.map_eq_some_iff.mp present
  split_ifs at before with other
  exact ⟨other, old, before, rfl⟩

theorem Serves.ready (serves : s.Serves) (custody : s.Custody) {k : Key} {t : Ticket}
    (found : s.memory.ticket k = some t) (undone : t.done = false) (server : t.kind = .startServer)
    (inside : s.owner.inside = true) : (s.ready k t.owner).Serves := by
  have tidy := custody.tidy
  have unborn := tidy.creating k t found (by rw [server]; rfl) undone
  obtain ⟨_, ticket⟩ := tidy.complete found undone .ok (some .server)
  have live : (s.memory.complete k .ok (some .server)).live = s.memory.live := by
    obtain ⟨o, op, _, rfl⟩ := Memory.ticket_eq_some.mp found
    have server : o.kind = .startServer := server
    simp [Memory.complete_live op undone, Memory.retires, server, Kind.closes]
  -- no other operation of the instance is there
  have others {key : Key} {u : Ticket} (there : (s.memory.complete k .ok (some .server)).ticket key =
      some u) (other : key ≠ k) : s.memory.ticket key = some u ∧ u.owner ≠ t.owner := by
    rw [ticket, if_neg other] at there
    exact ⟨there, fun same => other (unborn.only key u there same)⟩
  rw [ready_eq found undone]
  constructor
  · intro out
    simp [inside] at out
  · intro i b here
    change i ∈ (s.memory.complete k .ok (some .server)).live
    rw [live]
    change (s.scopes.insert t.owner false).get i = some b at here
    rw [OrderedMap.get_insert] at here
    split_ifs at here with same
    · exact same ▸ unborn.live
    · exact serves.live i b here
  · intro key u there creates open'
    change (s.scopes.insert t.owner false).get u.owner = none
    by_cases same : key = k
    · change (s.memory.complete k .ok (some .server)).ticket key = some u at there
      rw [ticket, if_pos same] at there
      cases there
      simp [Ticket.answered] at open'
    · obtain ⟨before, other⟩ := others there same
      rw [OrderedMap.get_insert_ne _ _ other]
      exact serves.unborn key u before creates open'
  · intro key task u present there
    change (s.tasks.erase k).get key = some task at present
    rw [OrderedMap.get_erase] at present
    split_ifs at present with same
    obtain ⟨before, other⟩ := others there same
    change task.stage.Agrees ((s.scopes.insert t.owner false).get u.owner)
    rw [OrderedMap.get_insert_ne _ _ other]
    exact serves.agrees key task u present before

theorem Serves.stops (serves : s.Serves) (custody : s.Custody) {k : Key} {t : Ticket} {scope : Bool}
    (found : s.memory.ticket k = some t) (undone : t.done = false) (closes : t.kind.closes = true)
    (running : s.scopes.get t.owner = some scope) :
    ({ s.cancelOthers k with
      scopes := s.scopes.insert t.owner true }.setStage k (.stopping false)).Serves where
  outside out i := by
    change (s.scopes.insert t.owner true).get i = none
    simp [serves.outside out] at running
  live i b here := by
    change (s.scopes.insert t.owner true).get i = some b at here
    rw [OrderedMap.get_insert] at here
    split_ifs at here with same
    · exact same ▸ serves.live t.owner scope running
    · exact serves.live i b here
  unborn key u there creates open' := by
    change (s.scopes.insert t.owner true).get u.owner = none
    rw [OrderedMap.get_insert_none running]
    exact serves.unborn key u there creates open'
  agrees key task u present there := by
    change ((s.cancelOthers k).tasks.modify k _).get key = some task at present
    change s.memory.ticket key = some u at there
    change task.stage.Agrees ((s.scopes.insert t.owner true).get u.owner)
    rw [OrderedMap.get_modify] at present
    split_ifs at present with here
    · obtain ⟨old, _, rfl⟩ := Option.map_eq_some_iff.mp present
      rw [here, found, Option.some.injEq] at there
      rw [← there]
      exact Or.inl (OrderedMap.get_insert_self _ _ _)
    · obtain ⟨old, before, stage, _⟩ := get_cancelOthers present
      have agrees := serves.agrees key old u before there
      rw [stage]
      by_cases same : u.owner = t.owner
      · obtain ⟨v, spot, open', fits⟩ := custody.task before
        cases there.symm.trans (ticket_of_spot spot)
        apply Stage.agrees_of_fits fits.stage
        by_contra closes'
        exact here ((custody.tidy.closing k t found closes undone).only key u there same
          (by simpa using closes') open')
      · rwa [OrderedMap.get_insert_ne _ _ same]

theorem Serves.cancels (serves : s.Serves) (k : Key) : (s.cancelOthers k).Serves where
  outside := serves.outside
  live := serves.live
  unborn := serves.unborn
  agrees key task u present there := by
    obtain ⟨old, before, stage, _⟩ := get_cancelOthers present
    rw [stage]
    exact serves.agrees key old u before there

theorem Custody.serves_works (custody : s.Custody) {k : Key} {task : Task} {o : Operation}
    (present : s.tasks.get k = some task) (op : s.memory.ops.get k = some o)
    (works : Works p s k task o s') (inside : s.owner.inside = true) (serves : s.Serves) :
    s'.Serves := by
  have after := custody.works present op works
  obtain ⟨here, undone, fits⟩ := custody.op present op
  have tidy := custody.tidy
  have found := ticket_of_spot here
  have agrees := serves.agrees k task o.ticket present found
  have erased {s₀ : State} (key : Key) (task : Task)
      (there : (CAbi.changed (s₀.tasks.erase k)).get key = some task) :
      ∃ old, s₀.tasks.get key = some old ∧ (task.stage = old.stage ∨ task.stage = old.stage.changed) := by
    obtain ⟨_, old, before, stage⟩ := get_settled there
    exact ⟨old, before, Or.inr stage⟩
  cases works with
  | worked effort =>
    exact serves.worked after found (custody.live_effort present op effort)
      (custody.follows_effort present op effort) (effort_agrees effort rfl agrees)
  | settled other =>
    rw [settle_eq found undone] at after ⊢
    refine serves.answered after tidy found undone ?_ serves.outside rfl rfl erased
    rintro (creates | closes)
    · exact serves.unborn k o.ticket found creates undone
    · simp [Operation.ticket, other] at closes
  | ready server => exact serves.ready custody found undone server inside
  | stops closes _ running => exact serves.stops custody found undone closes running
  | shuts closes _ unscoped | drains closes _ unscoped =>
    exact (serves.cancels k).worked after found rfl (Memory.Follows.refl _) unscoped
  | closed closes few before unscoped =>
    have ended : s.scopes.get o.owner = none := by
      rcases unscoped with none | stage | stage
      · exact none
      · rw [stage] at agrees
        exact agrees
      · rw [stage] at agrees
        exact agrees
    rcases before with rfl | rfl
    · rw [settle_eq found undone] at after ⊢
      exact serves.answered after tidy found undone (fun _ => ended) serves.outside rfl rfl erased
    · rw [settle_eq (s := s.cancelOthers k) found undone] at after ⊢
      exact (serves.cancels k).answered after tidy found undone (fun _ => ended) serves.outside rfl rfl
        erased

theorem Serves.endScope (serves : s.Serves) (i : Key) : (s.endScope i).Serves where
  outside out j := by
    change (s.scopes.erase i).get j = none
    rw [OrderedMap.get_erase, serves.outside out j, ite_self]
  live j b here := by
    change (s.scopes.erase i).get j = some b at here
    rw [OrderedMap.get_erase] at here
    split_ifs at here
    exact serves.live j b here
  unborn k t found creates undone := by
    change (s.scopes.erase i).get t.owner = none
    rw [OrderedMap.get_erase, serves.unborn k t found creates undone, ite_self]
  agrees k task t present found := by
    change (CAbi.changed (s.tasks.mapValues _)).get k = some task at present
    change s.memory.ticket k = some t at found
    change task.stage.Agrees ((s.scopes.erase i).get t.owner)
    rw [get_changed, OrderedMap.get_mapValues, Option.map_map, Option.map_eq_some_iff] at present
    obtain ⟨old, before, rfl⟩ := present
    have agrees := serves.agrees k old t before found
    have owner : s.inst k = some t.owner := inst_of_ticket found
    simp only [Function.comp_apply, owner, Option.some.injEq, OrderedMap.get_erase]
    split_ifs
    · exact Stage.agrees_changed (Stage.agrees_scopeEnds agrees)
    · exact Stage.agrees_changed agrees

theorem Kept.serves_owner (kept : s.Kept) {move : OwnerMove} (made : s.ownerStep move = some s')
    (serves : s.Serves) : s'.Serves := by
  have after := kept.custody.ownerStep made
  cases move with
  | attach =>
    simp only [ownerStep, Option.ite_none_right_eq_some, Option.some.injEq] at made
    obtain ⟨owner, rfl⟩ := made
    exact serves.moves after (fun _ => by rw [owner]; rfl) rfl rfl (Memory.Follows.refl _) rfl
  | bootstrapFails =>
    simp only [ownerStep, Option.ite_none_right_eq_some, Option.some.injEq] at made
    obtain ⟨owner, rfl⟩ := made
    exact serves.outside_only after rfl (by rw [owner]; rfl) rfl
  | readByte =>
    simp only [ownerStep, Option.ite_none_right_eq_some, Option.some.injEq] at made
    obtain ⟨_, rfl⟩ := made
    exact serves.moves after (fun out => by cases out) rfl rfl (Memory.Follows.refl _) rfl
  | ack =>
    simp only [ownerStep, Option.ite_none_right_eq_some, Option.some.injEq] at made
    obtain ⟨_, rfl⟩ := made
    refine serves.same after (fun out => by cases out) rfl serves.live
      (fun k t there _ => ⟨t, there, .refl t⟩) fun k task t present _ => Or.inl ?_
    obtain ⟨old, before, rfl⟩ := Option.map_eq_some_iff.mp ((get_changed _ _).symm.trans present)
    exact ⟨old, before, Or.inr rfl⟩
  | pop =>
    simp only [ownerStep, Option.ite_none_right_eq_some] at made
    obtain ⟨owner, made⟩ := made
    split at made
    · cases made
      exact serves.moves after (fun out => by cases out) rfl rfl (Memory.Follows.refl _) rfl
    · cases made
      refine serves.same after serves.outside rfl serves.live
        (fun k t there _ => ⟨t, there, .refl t⟩) fun k task t present _ => ?_
      change (s.tasks.insert _ _).get k = some task at present
      rw [OrderedMap.get_insert] at present
      split_ifs at present
      · cases present
        exact Or.inr trivial
      · exact Or.inl ⟨task, present, Or.inl rfl⟩
  | cancelNext =>
    simp only [ownerStep] at made
    split at made
    · cases made
      exact serves.moves after (fun out => by cases out) rfl rfl (Memory.Follows.refl _) rfl
    · cases made
      refine serves.same after (fun out => by cases out) rfl serves.live
        (fun k t there _ => ⟨t, there, .refl t⟩) fun k task t present _ => Or.inl ?_
      change (s.tasks.modify _ _).get k = some task at present
      rw [OrderedMap.get_modify] at present
      split_ifs at present with here
      · subst here
        obtain ⟨old, before, rfl⟩ := Option.map_eq_some_iff.mp present
        exact ⟨old, before, Or.inl rfl⟩
      · exact ⟨task, present, Or.inl rfl⟩
    · cases made
  | idle =>
    simp only [ownerStep, Option.ite_none_right_eq_some] at made
    obtain ⟨_, made⟩ := made
    split_ifs at made <;> cases made <;>
      exact serves.moves after (fun out => by cases out) rfl rfl (Memory.Follows.refl _) rfl
  | leave =>
    simp only [ownerStep, Option.ite_none_right_eq_some, Option.some.injEq] at made
    obtain ⟨⟨_, _, scopes⟩, rfl⟩ := made
    refine serves.same after (fun _ i => ?_) rfl serves.live (fun k t there _ => ⟨t, there, .refl t⟩)
      fun k task t present _ => Or.inl ⟨task, present, Or.inl rfl⟩
    exact (OrderedMap.get_eq_none _ _).mpr (by simp [scopes])
  | drainPop =>
    simp only [ownerStep] at made
    split at made
    · rename_i owner _
      cases made
      exact serves.outside_only after rfl (by rw [owner]; rfl) rfl
    · cases made
  | drainComplete =>
    simp only [ownerStep] at made
    split at made
    · rename_i k owner
      cases made
      obtain ⟨t, here, undone, _⟩ := kept.custody.handed owner
      rw [complete_eq (ticket_of_spot here) undone] at after ⊢
      exact serves.outside_only after rfl (by rw [owner]; rfl) rfl
    · cases made
  | drainEnd =>
    simp only [ownerStep, Option.ite_none_right_eq_some, Option.some.injEq] at made
    obtain ⟨⟨owner, _⟩, rfl⟩ := made
    exact serves.outside_only after rfl (by rw [owner]; rfl) rfl

theorem Kept.serves_notifier (kept : s.Kept) {move : NotifierMove}
    (made : s.notifierStep move = some s') (serves : s.Serves) : s'.Serves := by
  have tidy := kept.custody.tidy
  have after := kept.custody.notifierStep made
  cases move with
  | take =>
    simp only [notifierStep] at made
    split at made
    · rename_i k rest _ notices
      cases made
      obtain ⟨t, here, done, undelivered⟩ := kept.custody.noticed (k := k) (by simp [notices])
      have found := ticket_of_spot here
      obtain ⟨o, op, unfinished, rfl⟩ := Memory.ticket_eq_some.mp found
      have live := (Memory.deliver_effect tidy.books op done undelivered unfinished).2.1
      exact serves.moves after id rfl live (tidy.follows_deliver found done undelivered).1 rfl
    · cases made
  | returned =>
    simp only [notifierStep] at made
    split at made
    · rename_i k notifier
      cases made
      obtain ⟨t, here, done, delivered⟩ := kept.custody.calling notifier
      have found := ticket_of_spot here
      obtain ⟨o, op, unfinished, rfl⟩ := Memory.ticket_eq_some.mp found
      have live := (Memory.finish_effect tidy.books op delivered unfinished).2.2.1
      exact serves.moves after id rfl live (tidy.follows_finish found done delivered).1 rfl
    · cases made
  | exit | join =>
    simp only [notifierStep, Option.ite_none_right_eq_some, Option.some.injEq] at made
    obtain ⟨_, rfl⟩ := made
    exact serves.moves after id rfl rfl (Memory.Follows.refl _) rfl

theorem Kept.serves_step (kept : s.Kept) {label : Label} (made : s.step p label = some s')
    (serves : s.Serves) : s'.Serves := by
  have after := (kept.step made).custody
  cases kept.steps made with
  | write =>
    obtain ⟨owner, memory⟩ := s.writeByte_same p
    have rest : (s.writeByte p).scopes = s.scopes ∧ (s.writeByte p).tasks = s.tasks := by
      unfold writeByte
      split_ifs <;> exact ⟨rfl, rfl⟩
    refine serves.moves after (fun out => owner ▸ out) rest.1 (by rw [memory]) ?_ rest.2
    rw [memory]
    exact Memory.Follows.refl _
  | mark | reap => exact serves.moves after id rfl rfl (Memory.Follows.refl _) rfl
  | reads made | owner _ made => exact kept.serves_owner made serves
  | call _ _ answers => exact kept.serves_answers serves answers
  | task _ present op reading _ works =>
    exact kept.custody.serves_works present op works (by rw [reading]; rfl) serves
  | serverStops | serverFails => exact serves.endScope _
  | notifier _ made => exact kept.serves_notifier made serves

theorem serves_of_reachable (reached : (bridge p).Reachable s) : s.Serves := by
  refine reached.invariant_with (P := Serves) ⟨?_, ?_, ?_, ?_⟩ (fun _ => kept_of_reachable)
    fun _ _ _ serves kept made => kept.serves_step made serves
  all_goals simp [bridge, initial, Memory.empty, Memory.ticket]

end State

end HttpServer.CAbi
