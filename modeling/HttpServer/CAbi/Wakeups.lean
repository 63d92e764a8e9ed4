import HttpServer.CAbi.Notices

set_option autoImplicit false

/-!
# No wake-up is lost

While the owner is in its loop, whatever it has to look at comes with a byte in the pipe, with a
thread that is about to write one, or with the part of the round that is still to come.
-/

namespace HttpServer.CAbi

namespace Memory

variable {m m' : Memory} {refused refused' : List Key}

-- The sweep of the owner cancels the task. The release of a response in `refused` could not tell
-- the owner.
def Flagged (m : Memory) (refused : List Key) (t : Ticket) : Prop :=
  t.kind.business = true ∧
    (t.cancelled = true ∨ (∃ s, m.insts.get t.owner = some s ∧ s.closing = true) ∨
      t.kind = .read ∧ ∃ r x, t.response = some r ∧ m.responses.get r = some x ∧
        x.released = true ∧ r ∉ refused)

def Ready (m : Memory) (t : Ticket) : Prop :=
  ∃ r x, t.response = some r ∧ m.responses.get r = some x ∧ x.chunks = 0

def Shared (m : Memory) (k : Key) (t : Ticket) : Prop :=
  ∃ key u, key ≠ k ∧ m.ticket key = some u ∧ u.owner = t.owner ∧ u.done = false

theorem cancelled_of_flagged {k : Key} {t : Ticket} (found : m.ticket k = some t)
    (flagged : m.Flagged refused t) :
    (m.ops.get k).any (·.kind.business) = true ∧ m.cancelled k = true := by
  obtain ⟨o, op, _, rfl⟩ := ticket_eq_some.mp found
  obtain ⟨business, why⟩ := flagged
  have business : o.kind.business = true := business
  refine ⟨by simp [op, business], ?_⟩
  simp only [cancelled, op, business, Bool.true_and, Bool.or_eq_true]
  rcases why with cancelled | ⟨s, owner, closing⟩ | ⟨read, r, x, uses, present, released, _⟩
  · exact Or.inl (Or.inl cancelled)
  · have owner : m.insts.get o.owner = some s := owner
    exact Or.inl (Or.inr (by simp [owner, closing]))
  · have read : o.kind = .read := read
    have uses : o.response = some r := uses
    exact Or.inr (by simp [read, uses, present, released])

theorem ready_of_readReady {k : Key} {t : Ticket} (found : m.ticket k = some t) :
    State.readReady m k = true ↔ m.Ready t := by
  obtain ⟨o, op, _, rfl⟩ := ticket_eq_some.mp found
  simp only [State.readReady, op, Option.bind_some, Option.any_eq_true, Option.bind_eq_some_iff,
    decide_eq_true_eq, Ready]
  constructor
  · rintro ⟨x, ⟨r, uses, present⟩, none⟩
    exact ⟨r, x, uses, present, none⟩
  · rintro ⟨r, x, uses, present, none⟩
    exact ⟨x, ⟨r, uses, present⟩, none⟩

structure Heeds (m m' : Memory) (refused refused' : List Key) : Prop where
  follows : m.Follows m'
  flagged : ∀ k t', m'.ticket k = some t' → m'.Flagged refused' t' →
    ∃ t, m.ticket k = some t ∧ m.Flagged refused t
  ready : ∀ k t', m'.ticket k = some t' → m'.Ready t' → ∃ t, m.ticket k = some t ∧ m.Ready t

theorem Heeds.refl (m : Memory) (refused : List Key) : m.Heeds m refused refused :=
  ⟨Follows.refl m, fun _ t found flagged => ⟨t, found, flagged⟩,
    fun _ t found ready => ⟨t, found, ready⟩⟩

theorem heeds_of (tidy : m.Tidy) (follows : m.Follows m')
    (cancelled : ∀ k t t', m.ticket k = some t → m'.ticket k = some t' → t'.cancelled = t.cancelled)
    (insts : ∀ i s', m'.insts.get i = some s' →
      ∃ s, m.insts.get i = some s ∧ s'.closing = s.closing)
    (responses : ∀ r x', m'.responses.get r = some x' → ∀ x, m.responses.get r = some x →
      x.chunks ≤ x'.chunks ∧ (x'.released = true → r ∉ refused' →
        x.released = true ∧ r ∉ refused ∨
          ∃ s, m.insts.get x.owner = some s ∧ s.closing = true)) :
    m.Heeds m' refused refused' where
  follows := follows
  flagged k t' found flagged := by
    obtain ⟨t, before, like⟩ := follows.tickets k t' found
    obtain ⟨business, why⟩ := flagged
    refine ⟨t, before, like.kind ▸ business, ?_⟩
    rcases why with marked | ⟨s', present, closing⟩ | ⟨read, r, x', uses, present, released, told⟩
    · exact Or.inl ((cancelled k t t' before found).symm.trans marked)
    · rw [like.owner] at present
      obtain ⟨s, there, same⟩ := insts _ s' present
      exact Or.inr (Or.inl ⟨s, there, same.symm.trans closing⟩)
    · have uses : t.response = some r := like.response ▸ uses
      obtain ⟨x, there⟩ := response_of_ticket tidy.books before uses
      rcases (responses r x' present x there).2 released told with ⟨old, told⟩ | ⟨s, owner, closing⟩
      · exact Or.inr (Or.inr ⟨like.kind ▸ read, r, x, uses, there, old, told⟩)
      · -- the instance of the response is that of the operation
        rw [tidy.paired k t r x before uses there] at owner
        exact Or.inr (Or.inl ⟨s, owner, closing⟩)
  ready k t' found ready := by
    obtain ⟨t, before, like⟩ := follows.tickets k t' found
    obtain ⟨r, x', uses, present, none⟩ := ready
    have uses : t.response = some r := like.response ▸ uses
    obtain ⟨x, there⟩ := response_of_ticket tidy.books before uses
    have fewer := (responses r x' present x there).1
    have chunks := tidy.books.conserved.chunks r x there
    exact ⟨t, before, r, x, uses, there, by omega⟩

theorem Quiet.heeds_of (quiet : m.Quiet m') (tidy : m.Tidy) (follows : m.Follows m')
    (cancelled : ∀ k t t', m.ticket k = some t → m'.ticket k = some t' →
      t'.cancelled = t.cancelled) : m.Heeds m' refused refused := by
  refine Memory.heeds_of tidy follows cancelled (fun i s' present => ?_) fun r x' present x there => ?_
  · obtain ⟨s, before, same, _⟩ := quiet.insts i s' present
    exact ⟨s, before, same⟩
  · obtain ⟨y, before, _, released, more⟩ := quiet.responses r x' present
    cases there.symm.trans before
    exact ⟨more, fun gone told => Or.inl ⟨released.symm.trans gone, told⟩⟩

theorem Quiet.heeds (quiet : m.Quiet m') (tidy : m.Tidy) (ticket : m'.ticket = m.ticket) :
    m.Heeds m' refused refused :=
  quiet.heeds_of tidy (quiet.shuts.follows ticket) fun k t t' before found => by
    rw [ticket, before, Option.some.injEq] at found
    rw [found]

theorem Calm.heeds (calm : m.Calm m') (tidy : m.Tidy) : m.Heeds m' refused refused :=
  calm.quiet.heeds tidy calm.ticket

theorem cancelled_at {k : Key} {t t' : Ticket} (found : m.ticket k = some t)
    (same : t'.cancelled = t.cancelled)
    (ticket : ∀ key, m'.ticket key = if key = k then some t' else m.ticket key) (key : Key)
    (u u' : Ticket) (before : m.ticket key = some u) (after : m'.ticket key = some u') :
    u'.cancelled = u.cancelled := by
  rw [ticket] at after
  split_ifs at after with here
  · subst here
    cases found.symm.trans before
    cases after
    exact same
  · cases before.symm.trans after
    rfl

-- A release that finds no operation is in `refused` unless the instance closes anyway.
theorem Tidy.heeds_released (tidy : m.Tidy) {r : Key} {response : Response}
    (found : m.responses.get r = some response) (ticket : m'.ticket = m.ticket)
    (effect : if response.released then m.Quiet m' else (m.marked r).Quiet m') :
    m.Heeds m' refused (if !response.released ∧
      !(m.insts.get response.owner).any (·.closing) then r :: refused else refused) := by
  cases released : response.released with
  | true =>
    simp only [released, if_true] at effect
    simpa using Quiet.heeds effect tidy ticket
  | false =>
    simp only [released, Bool.false_eq_true, if_false] at effect
    have shuts := (shuts_marked r).trans effect.shuts
    refine heeds_of tidy (shuts.follows ticket) (fun k t t' before after => ?_)
      (fun i s' present => ?_) fun key x' present x there => ?_
    · rw [ticket, before, Option.some.injEq] at after
      rw [after]
    · obtain ⟨s, before, same, _⟩ := effect.insts i s' present
      exact ⟨s, before, same⟩
    · obtain ⟨y, before, _, same, more⟩ := effect.responses key x' present
      simp only [marked, onResponse, OrderedMap.get_modify] at before
      by_cases here : key = r
      · subst here
        cases found.symm.trans there
        simp only [if_true, found, Option.map_some, Option.some.injEq] at before
        subst before
        refine ⟨more, fun _ told => Or.inr ?_⟩
        by_contra opened
        simp only [not_exists, not_and, Bool.not_eq_true] at opened
        have closing : (m.insts.get response.owner).any (·.closing) = false := by
          cases owner : m.insts.get response.owner with
          | none => rfl
          | some s => exact opened s owner
        simp [closing] at told
      · simp only [if_neg here] at before
        cases there.symm.trans before
        refine ⟨more, fun gone told => Or.inl ⟨same.symm.trans gone, fun member => told ?_⟩⟩
        split_ifs
        · exact List.mem_cons_of_mem _ member
        · exact member

theorem Tidy.heeds_deliver (tidy : m.Tidy) {k : Key} {t : Ticket} (found : m.ticket k = some t)
    (done : t.done = true) (undelivered : t.delivered = false) :
    m.Heeds (m.deliver k) refused refused := by
  obtain ⟨follows, _⟩ := tidy.follows_deliver found done undelivered
  obtain ⟨o, present, unfinished, rfl⟩ := ticket_eq_some.mp found
  obtain ⟨_, _, _, insts, responses, ticket⟩ :=
    deliver_effect tidy.books present done undelivered unfinished
  refine heeds_of tidy follows (cancelled_at found (by rfl) ticket) (fun i s' there => ?_)
    fun r x' there x before => ?_
  · obtain ⟨s, before, same, _⟩ := insts i s' there
    exact ⟨s, before, same⟩
  · obtain ⟨y, old, _, released, more⟩ := responses r x' there
    cases before.symm.trans old
    exact ⟨more, fun gone told => Or.inl ⟨released.symm.trans gone, told⟩⟩

end Memory

namespace State

variable {p : Platform} {s s' : State}

-- There is a byte in the pipe, or a thread is about to write one, or the owner has read one and
-- not yet acknowledged it.
def Roused (s : State) : Prop := 0 < s.pipe ∨ s.lock = .waking ∨ s.owner = .acking

structure Alert (s : State) : Prop where
  pending : s.wakePending = true ∨ s.lock = .written → 0 < s.pipe ∨ s.owner = .acking
  commands : s.commands ≠ [] → s.Roused ∨ s.owner = .popping
  flagged : ∀ k task t, s.tasks.get k = some task → s.memory.ticket k = some t →
    task.marked = false → s.memory.Flagged s.refused t →
    s.Roused ∨ s.owner = .popping ∨ ∃ rest, s.owner = .cancelling rest ∧ k ∈ rest
  -- a task that waits and need not
  waiting : ∀ k task t, s.tasks.get k = some task → s.memory.ticket k = some t →
    task.stage = .waiting false → s.memory.Ready t → s.Roused
  draining : ∀ k task t, s.tasks.get k = some task → s.memory.ticket k = some t →
    task.stage = .draining false → s.Roused ∨ s.memory.Shared k t

theorem alert_of_roused (roused : s.Roused)
    (pending : s.wakePending = true ∨ s.lock = .written → 0 < s.pipe ∨ s.owner = .acking) :
    s.Alert where
  pending := pending
  commands _ := Or.inl roused
  flagged _ _ _ _ _ _ _ := Or.inl roused
  waiting _ _ _ _ _ _ _ := roused
  draining _ _ _ _ _ _ := Or.inl roused

theorem Alert.wakes (alert : s.Alert) (lock : s'.lock = .waking)
    (wakePending : s'.wakePending = s.wakePending) (pipe : s'.pipe = s.pipe)
    (owner : s'.owner = s.owner) : s'.Alert := by
  refine alert_of_roused (Or.inr (Or.inl lock)) ?_
  rintro (set | written)
  · rw [pipe, owner]
    exact alert.pending (Or.inl (wakePending ▸ set))
  · simp [lock] at written

theorem Alert.stays (alert : s.Alert)
    (heeds : s.memory.Heeds s'.memory s.refused s'.refused) (owner : s'.owner = s.owner)
    (pipe : s'.pipe = s.pipe) (lock : s'.lock = s.lock) (wakePending : s'.wakePending = s.wakePending)
    (commands : s'.commands = s.commands)
    (tasks : ∀ k task', s'.tasks.get k = some task' → ∃ task, s.tasks.get k = some task ∧
      (task'.marked = false → task.marked = false) ∧
      (task'.stage = .waiting false → task.stage = .waiting false ∨
        ∀ t, s'.memory.ticket k = some t → ¬s'.memory.Ready t) ∧
      (task'.stage = .draining false → task.stage = .draining false ∨
        ∀ t, s'.memory.ticket k = some t → s'.memory.Shared k t)) : s'.Alert := by
  have roused : s'.Roused ↔ s.Roused := by rw [Roused, Roused, owner, pipe, lock]
  constructor
  · rw [wakePending, lock, pipe, owner]
    exact alert.pending
  · rw [roused, commands, owner]
    exact alert.commands
  · intro k task' t' present found unmarked flagged
    obtain ⟨task, before, marks, _⟩ := tasks k task' present
    obtain ⟨t, there, flagged⟩ := heeds.flagged k t' found flagged
    rw [roused, owner]
    exact alert.flagged k task t before there (marks unmarked) flagged
  · intro k task' t' present found stage ready
    obtain ⟨task, before, _, waits, _⟩ := tasks k task' present
    rcases waits stage with waited | unready
    · obtain ⟨t, there, ready⟩ := heeds.ready k t' found ready
      exact roused.mpr (alert.waiting k task t before there waited ready)
    · exact absurd ready (unready t' found)
  · intro k task' t' present found stage
    obtain ⟨task, before, _, _, drains⟩ := tasks k task' present
    rcases drains stage with drained | shared
    · obtain ⟨t, there, like⟩ := heeds.follows.tickets k t' found
      rw [roused]
      refine (alert.draining k task t before there drained).imp_right ?_
      rintro ⟨key, u, other, present, owner, undone⟩
      obtain ⟨u', after, like'⟩ := heeds.follows.stays key u present undone
      exact ⟨key, u', other, after, like'.owner.trans (owner.trans like.owner.symm),
        like'.done.trans undone⟩
    · exact Or.inr (shared t' found)

theorem changed_awake (stage : Stage) :
    stage.changed ≠ .waiting false ∧ stage.changed ≠ .draining false := by
  cases stage <;> simp [Stage.changed]

theorem Custody.shared (custody : s.Custody) {k : Key} {t : Ticket} (found : s.memory.ticket k = some t)
    (more : 1 < active s.memory k) : s.memory.Shared k t := by
  obtain ⟨o, op, _, rfl⟩ := Memory.ticket_eq_some.mp found
  have books := custody.tidy.books
  obtain ⟨inst, owned⟩ := books.owner_found op (le_refl 0)
  have counter := (books.conserved.counters o.owner inst owned).1
  simp only [active, op, Option.bind_some, owned, Option.elim_some, counter] at more
  obtain ⟨key, v, other, present, holds⟩ := OrderedMap.exists_other k (m := s.memory.ops)
    (P := fun v => v.owner = o.owner && !v.done) (by omega)
  simp only [Bool.and_eq_true, decide_eq_true_eq, Bool.not_eq_true'] at holds
  have unfinished : v.finished = false := by
    by_contra finished
    have sound := books.sound.ops key v present
    simp [sound.delivered (sound.finished (by simpa using finished))] at holds
  exact ⟨key, v.ticket, other, Memory.ticket_of_get present unfinished, holds.1, holds.2⟩

theorem Custody.heeds_effort (custody : s.Custody) {k : Key} {task : Task} {o : Operation}
    {m : Memory} {stage : Stage} (present : s.tasks.get k = some task)
    (op : s.memory.ops.get k = some o) (effort : Effort p s k o task.stage m stage) :
    s.memory.Heeds m s.refused s.refused := by
  have follows := custody.follows_effort present op effort
  obtain ⟨here, undone, fits⟩ := custody.op present op
  have tidy := custody.tidy
  have found := ticket_of_spot here
  have unanswered : o.Unanswered := by
    obtain ⟨o', op', unfinished, _⟩ := Memory.ticket_eq_some.mp found
    cases op.symm.trans op'
    exact ⟨undone, tidy.undelivered found undone, unfinished⟩
  have stays := fits.stage
  generalize task.stage = old at effort stays
  cases effort with
  | limits => exact (Memory.limits_calm tidy.books _ _ _ _).heeds tidy
  | header => exact (Memory.setHeader_calm tidy.books _ _ _).heeds tidy
  | responds submit made =>
    obtain ⟨_, _, insts, responses, ticket⟩ :=
      Memory.makeResponse_effect tidy.books op unanswered stays.2.2.1 made
    refine Memory.heeds_of tidy follows (Memory.cancelled_at found (by rfl) ticket)
      (fun i s' there => ?_) fun r x' there x before => ?_
    · obtain ⟨inst, before, same, _⟩ := insts i s' there
      exact ⟨inst, before, same⟩
    · rcases responses r x' there with ⟨new, _⟩ | ⟨y, old, _, released, more⟩
      · exact absurd new (Nat.ne_of_lt (tidy.books.sound.responses r x before).addressed)
      · cases before.symm.trans old
        exact ⟨more, fun gone told => Or.inl ⟨released.symm.trans gone, told⟩⟩
  | chunk read made =>
    obtain ⟨r, response⟩ := Option.isSome_iff_exists.mp (tidy.reading k o.ticket found read)
    obtain ⟨_, _, quiet, ticket⟩ :=
      Memory.addChunk_effect tidy.books op unanswered response stays.2.2.2 made
    exact quiet.heeds_of tidy follows (Memory.cancelled_at found (by rfl) ticket)
  | begins | waits | unchunked | wakes | waitsAgain | stopsAgain | drains =>
    exact Memory.Heeds.refl _ _

theorem effort_waits {k : Key} {o : Operation} {stage stage' : Stage} {m : Memory}
    (effort : Effort p s k o stage m stage') (waits : stage' = .waiting false) :
    m = s.memory ∧ readReady s.memory k = false := by
  cases effort with
  | waits _ unready | waitsAgain unready => exact ⟨rfl, unready⟩
  | _ => cases waits

theorem effort_drains {k : Key} {o : Operation} {stage stage' : Stage} {m : Memory}
    (effort : Effort p s k o stage m stage') (drains : stage' = .draining false) :
    m = s.memory ∧ 1 < active s.memory k := by
  cases effort with
  | drains _ more => exact ⟨rfl, more⟩
  | _ => cases drains

theorem Custody.alert_effort (custody : s.Custody) {k : Key} {task : Task} {o : Operation}
    {m : Memory} {stage : Stage} (present : s.tasks.get k = some task)
    (op : s.memory.ops.get k = some o) (effort : Effort p s k o task.stage m stage)
    (alert : s.Alert) : ({ s with memory := m }.setStage k stage).Alert := by
  have heeds := custody.heeds_effort present op effort
  have found := ticket_of_spot (custody.op present op).1
  refine alert.stays heeds rfl rfl rfl rfl rfl fun key task' there => ?_
  change (s.tasks.modify k _).get key = some task' at there
  rw [OrderedMap.get_modify] at there
  split_ifs at there with here
  · subst here
    rw [present, Option.map_some, Option.some.injEq] at there
    subst there
    refine ⟨task, present, id, fun waits => Or.inr fun t after ready => ?_,
      fun drains => Or.inr fun t after => ?_⟩
    · obtain ⟨rfl, unready⟩ := effort_waits effort waits
      have ready : readReady s.memory key = true := (Memory.ready_of_readReady after).mpr ready
      simp [ready] at unready
    · obtain ⟨rfl, more⟩ := effort_drains effort drains
      exact custody.shared after more
  · exact ⟨task', there, id, Or.inl, Or.inl⟩

theorem Alert.setStage (alert : s.Alert) {k : Key} {stage : Stage} (waits : stage ≠ .waiting false)
    (drains : stage = .draining false → ∀ t, s.memory.ticket k = some t → s.memory.Shared k t) :
    (s.setStage k stage).Alert := by
  refine alert.stays (Memory.Heeds.refl _ _) rfl rfl rfl rfl rfl fun key task' there => ?_
  change (s.tasks.modify k _).get key = some task' at there
  rw [OrderedMap.get_modify] at there
  split_ifs at there with here
  · subst here
    obtain ⟨task, present, rfl⟩ := Option.map_eq_some_iff.mp there
    exact ⟨task, present, id, fun waited => absurd waited waits, fun drained => Or.inr (drains drained)⟩
  · exact ⟨task', there, id, Or.inl, Or.inl⟩

theorem get_cancelOthers {k key : Key} {task' : Task}
    (there : (s.cancelOthers k).tasks.get key = some task') : ∃ task, s.tasks.get key = some task ∧
      task'.stage = task.stage ∧ (task'.marked = false → task.marked = false) := by
  rw [cancelOthers, OrderedMap.get_mapValues] at there
  obtain ⟨task, present, rfl⟩ := Option.map_eq_some_iff.mp there
  refine ⟨task, present, ?_, fun unmarked => ?_⟩
  · split_ifs <;> rfl
  · split_ifs at unmarked
    exact unmarked

-- The task of a close asks the others to end.
theorem Alert.cancels (alert : s.Alert) (k : Key) (scopes : OrderedMap Key Bool) :
    { s.cancelOthers k with scopes }.Alert := by
  refine alert.stays (Memory.Heeds.refl _ _) rfl rfl rfl rfl rfl fun key task' there => ?_
  obtain ⟨task, present, stage, marks⟩ := get_cancelOthers there
  rw [stage]
  exact ⟨task, present, marks, Or.inl, Or.inl⟩

theorem Alert.settle (alert : s.Alert) {k : Key} {t : Ticket} (found : s.memory.ticket k = some t)
    (undone : t.done = false) (code : Code) (kind : Option ResultKind) :
    (s.settle k code kind).Alert := by
  rw [settle_eq found undone]
  exact alert.wakes rfl rfl rfl rfl

theorem Custody.alert_works (custody : s.Custody) {k : Key} {task : Task} {o : Operation}
    (present : s.tasks.get k = some task) (op : s.memory.ops.get k = some o)
    (works : Works p s k task o s') (alert : s.Alert) : s'.Alert := by
  obtain ⟨here, undone, _⟩ := custody.op present op
  have found := ticket_of_spot here
  cases works with
  | worked effort => exact custody.alert_effort present op effort alert
  | settled => exact alert.settle found undone _ _
  | ready =>
    rw [ready_eq found undone]
    exact alert.wakes rfl rfl rfl rfl
  | stops => exact (alert.cancels k _).setStage (by simp) (by simp)
  | shuts => exact (alert.cancels k s.scopes).setStage (by simp) (by simp)
  | drains _ _ _ more =>
    exact (alert.cancels k s.scopes).setStage (by simp) fun _ _ there => custody.shared there more
  | closed closes few before =>
    rcases before with rfl | rfl
    · exact alert.settle found undone _ _
    · rw [settle_eq (s := s.cancelOthers k) found undone]
      exact alert.wakes rfl rfl rfl rfl

theorem Alert.endScope (alert : s.Alert) (i : Key) : (s.endScope i).Alert := by
  refine alert.stays (Memory.Heeds.refl _ _) rfl rfl rfl rfl rfl fun key task' there => ?_
  change (CAbi.changed (s.tasks.mapValues _)).get key = some task' at there
  rw [get_changed, OrderedMap.get_mapValues, Option.map_map, Option.map_eq_some_iff] at there
  obtain ⟨task, present, rfl⟩ := there
  refine ⟨task, present, fun unmarked => ?_, fun waits => ?_, fun drains => ?_⟩
  · dsimp only [Function.comp_apply] at unmarked
    split_ifs at unmarked <;> exact unmarked
  · dsimp only [Function.comp_apply] at waits
    exact absurd waits (changed_awake _).1
  · dsimp only [Function.comp_apply] at drains
    exact absurd drains (changed_awake _).2

-- The owner is in its loop and looks at everything in time.
def Awake (s : State) : Prop := s.owner.looping = true → s.Alert

-- Between two places of the round only what the owner may skip has to be checked.
theorem Roused.moves (roused : s.Roused) (acking : s.owner ≠ .acking) (pipe : s'.pipe = s.pipe)
    (lock : s'.lock = s.lock) : s'.Roused := by
  rcases roused with byte | waking | here
  · exact Or.inl (pipe ▸ byte)
  · exact Or.inr (Or.inl (lock ▸ waking))
  · exact absurd here acking

theorem Alert.pending_moves (alert : s.Alert) (acking : s.owner ≠ .acking) (pipe : s'.pipe = s.pipe)
    (lock : s'.lock = s.lock) (wakePending : s'.wakePending = s.wakePending) :
    s'.wakePending = true ∨ s'.lock = .written → 0 < s'.pipe ∨ s'.owner = .acking := by
  rw [wakePending, lock, pipe]
  exact fun set => Or.inl ((alert.pending set).resolve_right acking)

theorem alert_attach (s : State) :
    { s with phase := .attached, wakePending := false, pipe := 0, owner := .reading }.wake.Alert :=
  alert_of_roused (Or.inr (Or.inl rfl)) (by simp [State.wake])

theorem alert_readByte (s : State) :
    { s with pipe := s.pipe - 1, owner := .acking }.Alert :=
  alert_of_roused (Or.inr (Or.inr rfl)) fun _ => Or.inr rfl

theorem alert_ack (free : s.lock = .free) :
    { s with wakePending := false, owner := .popping, tasks := CAbi.changed s.tasks }.Alert where
  pending set := by simp [free] at set
  commands _ := Or.inr rfl
  flagged _ _ _ _ _ _ _ := Or.inr (Or.inl rfl)
  waiting k task t present _ stage _ := by
    obtain ⟨task, _, rfl⟩ := Option.map_eq_some_iff.mp ((get_changed _ _).symm.trans present)
    exact absurd stage (changed_awake _).1
  draining k task t present _ stage := by
    obtain ⟨task, _, rfl⟩ := Option.map_eq_some_iff.mp ((get_changed _ _).symm.trans present)
    exact absurd stage (changed_awake _).2

theorem Alert.popLast (alert : s.Alert) (owner : s.owner = .popping) (commands : s.commands = []) :
    { s with owner := .cancelling s.tasks.keys }.Alert := by
  have acking : s.owner ≠ .acking := by simp [owner]
  have moves (roused : s.Roused) : { s with owner := .cancelling s.tasks.keys }.Roused :=
    roused.moves acking rfl rfl
  constructor
  · exact alert.pending_moves acking rfl rfl rfl
  · exact fun some => absurd commands some
  · refine fun k task t present _ _ _ => Or.inr (Or.inr ⟨_, rfl, ?_⟩)
    by_contra absent
    rw [(OrderedMap.get_eq_none _ _).mpr absent] at present
    cases present
  · exact fun k task t present found stage ready => moves (alert.waiting k task t present found stage ready)
  · exact fun k task t present found stage => (alert.draining k task t present found stage).imp_left moves

theorem Alert.pop (alert : s.Alert) (owner : s.owner = .popping) (k : Key) (rest : List Key) :
    { s with commands := rest, tasks := s.tasks.insert k ⟨.spawned, false⟩ }.Alert := by
  have old {key : Key} {task : Task} (there : (s.tasks.insert k ⟨.spawned, false⟩).get key = some task)
      (stage : task.stage ≠ .spawned) : s.tasks.get key = some task := by
    rw [OrderedMap.get_insert] at there
    split_ifs at there
    · cases there
      exact absurd rfl stage
    · exact there
  constructor
  · exact alert.pending
  · exact fun _ => Or.inr owner
  · exact fun _ _ _ _ _ _ _ => Or.inr (Or.inl owner)
  · intro key task t there found stage ready
    exact alert.waiting key task t (old there (by simp [stage])) found stage ready
  · intro key task t there found stage
    exact alert.draining key task t (old there (by simp [stage])) found stage

theorem Alert.sweepEnds (alert : s.Alert) (owner : s.owner = .cancelling []) :
    { s with owner := .checking }.Alert := by
  have acking : s.owner ≠ .acking := by simp [owner]
  have moves (roused : s.Roused) : { s with owner := .checking }.Roused := roused.moves acking rfl rfl
  constructor
  · exact alert.pending_moves acking rfl rfl rfl
  · exact fun some => Or.inl (moves ((alert.commands some).resolve_right (by simp [owner])))
  · intro k task t present found unmarked flagged
    rcases alert.flagged k task t present found unmarked flagged with roused | popping | ⟨rest, here, member⟩
    · exact Or.inl (moves roused)
    · simp [owner] at popping
    · rw [owner] at here
      cases here
      cases member
  · exact fun k task t present found stage ready => moves (alert.waiting k task t present found stage ready)
  · exact fun k task t present found stage => (alert.draining k task t present found stage).imp_left moves

theorem Alert.sweeps (alert : s.Alert) {k : Key} {rest : List Key} {hit : Bool}
    (owner : s.owner = .cancelling (k :: rest))
    (sees : ∀ t, s.memory.ticket k = some t → s.memory.Flagged s.refused t → hit = true) :
    { s with
      owner := .cancelling rest
      tasks := s.tasks.modify k fun task => { task with marked := task.marked || hit } }.Alert := by
  have acking : s.owner ≠ .acking := by simp [owner]
  have moves {tasks : OrderedMap Key Task} (roused : s.Roused) :
      { s with owner := .cancelling rest, tasks }.Roused := roused.moves acking rfl rfl
  have same {key : Key} {task' : Task} (there : (s.tasks.modify k fun task => { task with
      marked := task.marked || hit }).get key = some task') : ∃ task, s.tasks.get key = some task ∧
      task'.stage = task.stage ∧ (task'.marked = false → task.marked = false) ∧
      (key = k → hit = true → task'.marked = true) := by
    rw [OrderedMap.get_modify] at there
    split_ifs at there with here
    · subst here
      obtain ⟨task, present, rfl⟩ := Option.map_eq_some_iff.mp there
      exact ⟨task, present, rfl, fun unmarked => (Bool.or_eq_false_iff.mp unmarked).1,
        fun _ hit => by simp [hit]⟩
    · exact ⟨task', there, rfl, id, fun other => absurd other here⟩
  constructor
  · exact alert.pending_moves acking rfl rfl rfl
  · exact fun some => Or.inl (moves ((alert.commands some).resolve_right (by simp [owner])))
  · intro key task' t there found unmarked flagged
    obtain ⟨task, present, _, marks, marked⟩ := same there
    by_cases here : key = k
    · -- the sweep has just looked at this one
      subst here
      simp [marked rfl (sees t found flagged)] at unmarked
    · rcases alert.flagged key task t present found (marks unmarked) flagged with
        roused | popping | ⟨keys, sweep, member⟩
      · exact Or.inl (moves roused)
      · simp [owner] at popping
      · rw [owner] at sweep
        cases sweep
        exact Or.inr (Or.inr ⟨rest, rfl, (List.mem_cons.mp member).resolve_left here⟩)
  · intro key task' t there found stage ready
    obtain ⟨task, present, kept, _⟩ := same there
    exact moves (alert.waiting key task t present found (kept ▸ stage) ready)
  · intro key task' t there found stage
    obtain ⟨task, present, kept, _⟩ := same there
    exact (alert.draining key task t present found (kept ▸ stage)).imp_left moves

theorem Alert.roundEnds (alert : s.Alert) (owner : s.owner = .checking) :
    { s with owner := .reading }.Alert := by
  have acking : s.owner ≠ .acking := by simp [owner]
  have moves (roused : s.Roused) : { s with owner := .reading }.Roused := roused.moves acking rfl rfl
  constructor
  · exact alert.pending_moves acking rfl rfl rfl
  · exact fun some => Or.inl (moves ((alert.commands some).resolve_right (by simp [owner])))
  · intro k task t present found unmarked flagged
    rcases alert.flagged k task t present found unmarked flagged with roused | popping | ⟨rest, here, _⟩
    · exact Or.inl (moves roused)
    · simp [owner] at popping
    · simp [owner] at here
  · exact fun k task t present found stage ready => moves (alert.waiting k task t present found stage ready)
  · exact fun k task t present found stage => (alert.draining k task t present found stage).imp_left moves

theorem awake_owner {move : OwnerMove} (made : s.ownerStep move = some s')
    (free : move = .readByte ∨ s.lock = .free) (awake : s.Awake) : s'.Awake := by
  intro looping
  cases move with
  | attach =>
    simp only [ownerStep, Option.ite_none_right_eq_some, Option.some.injEq] at made
    obtain ⟨_, rfl⟩ := made
    exact alert_attach s
  | bootstrapFails | leave | drainEnd =>
    simp only [ownerStep, Option.ite_none_right_eq_some, Option.some.injEq] at made
    obtain ⟨_, rfl⟩ := made
    cases looping
  | readByte =>
    simp only [ownerStep, Option.ite_none_right_eq_some, Option.some.injEq] at made
    obtain ⟨_, rfl⟩ := made
    exact alert_readByte s
  | ack =>
    simp only [ownerStep, Option.ite_none_right_eq_some, Option.some.injEq] at made
    obtain ⟨_, rfl⟩ := made
    exact alert_ack (free.resolve_left (by simp))
  | pop =>
    simp only [ownerStep, Option.ite_none_right_eq_some] at made
    obtain ⟨owner, made⟩ := made
    have alert := awake (by rw [owner]; rfl)
    split at made
    · rename_i commands
      cases made
      exact alert.popLast owner commands
    · cases made
      exact alert.pop owner _ _
  | cancelNext =>
    simp only [ownerStep] at made
    split at made
    · rename_i owner
      cases made
      exact (awake (by rw [owner]; rfl)).sweepEnds owner
    · rename_i owner
      cases made
      refine (awake (by rw [owner]; rfl)).sweeps owner fun t found flagged => ?_
      obtain ⟨business, cancelled⟩ := Memory.cancelled_of_flagged found flagged
      rw [business, cancelled]
      rfl
    · cases made
  | idle =>
    simp only [ownerStep, Option.ite_none_right_eq_some] at made
    obtain ⟨owner, made⟩ := made
    split_ifs at made
    · cases made
      cases looping
    · cases made
      exact (awake (by rw [owner]; rfl)).roundEnds owner
  | drainPop | drainComplete =>
    simp only [ownerStep] at made
    split at made
    · cases made
      cases looping
    · cases made

theorem Alert.memory (alert : s.Alert) {m : Memory} {refused : List Key}
    (heeds : s.memory.Heeds m s.refused refused) : { s with memory := m, refused }.Alert :=
  alert.stays heeds rfl rfl rfl rfl rfl fun _ task there => ⟨task, there, id, Or.inl, Or.inl⟩

-- A call that starts the runtime finds no owner in its loop.
theorem Starts.awake {started : Bool} (starts : Starts s started s')
    (roles : Roles s.phase s.owner s.notifier s.ownerDone) (awake : s.Awake) : s'.Awake := by
  intro looping
  cases starts with
  | ending | running => exact awake looping
  | unstarted phase | unowned phase =>
    rw [phase] at roles
    obtain ⟨owner, _⟩ := roles.of_off
    change s.owner.looping = true at looping
    rw [owner] at looping
    cases looping
  | fresh => cases looping

theorem Kept.awake_answers (kept : s.Kept) {c : Call} {code : Code} (answers : Answers p s c code s')
    (awake : s.Awake) : s'.Awake := by
  have tidy := kept.custody.tidy
  cases answers with
  | refused | late => exact awake
  | unstarted starts => exact Starts.awake starts kept.roles awake
  | uncreated starts | created starts =>
    intro looping
    exact (Starts.awake starts kept.roles awake looping).wakes rfl rfl rfl rfl
  | rejected calm | returned calm =>
    exact fun looping => (awake looping).memory (calm.heeds tidy)
  | admitted | cancelled | chunkReturned =>
    exact fun looping => (awake looping).wakes rfl rfl rfl rfl
  | unreleased found held made =>
    obtain ⟨_, _, ticket, effect⟩ := Memory.releaseResponse_without tidy.books found held made
    exact fun looping => (awake looping).memory (tidy.heeds_released found ticket effect)

theorem Kept.awake_notifier (kept : s.Kept) {move : NotifierMove}
    (made : s.notifierStep move = some s') (awake : s.Awake) : s'.Awake := by
  intro looping
  have tidy := kept.custody.tidy
  cases move with
  | take =>
    simp only [notifierStep] at made
    split at made
    · rename_i k rest _ notices
      cases made
      obtain ⟨t, here, done, undelivered⟩ := kept.custody.noticed (k := k) (by simp [notices])
      have found := ticket_of_spot here
      have heeds : s.memory.Heeds (s.memory.deliver k) s.refused s.refused :=
        tidy.heeds_deliver found done undelivered
      exact (awake looping).stays heeds rfl rfl rfl rfl rfl
        fun _ task there => ⟨task, there, id, Or.inl, Or.inl⟩
    · cases made
  | returned =>
    simp only [notifierStep] at made
    split at made
    · cases made
      exact (awake looping).wakes rfl rfl rfl rfl
    · cases made
  | exit | join =>
    simp only [notifierStep, Option.ite_none_right_eq_some, Option.some.injEq] at made
    obtain ⟨_, rfl⟩ := made
    exact (awake looping).stays (Memory.Heeds.refl _ _) rfl rfl rfl rfl rfl
      fun _ task there => ⟨task, there, id, Or.inl, Or.inl⟩

theorem Kept.awake_write (kept : s.Kept) (awake : s.Awake) :
    (s.writeByte p).Awake := by
  intro looping
  rw [(s.writeByte_same p).1] at looping
  have alert := awake looping
  have attached := (kept.roles.of_looping looping).1
  unfold writeByte
  split_ifs with set room
  · -- somebody else has woken the owner before
    have pending := alert.pending (Or.inl (set.resolve_right (by simp [attached])))
    exact alert_of_roused (pending.imp_right Or.inr) fun _ => pending
  · exact alert_of_roused (Or.inl (Nat.succ_pos _)) fun _ => Or.inl (Nat.succ_pos _)
  · have full : 0 < s.pipe := p.pipe_pos.trans_le (Nat.le_of_not_lt room)
    exact alert_of_roused (Or.inl full) fun _ => Or.inl full

theorem Alert.mark (alert : s.Alert) (lock : s.lock = .written) :
    { s with wakePending := true, lock := .free }.Alert := by
  have pending := alert.pending (Or.inr lock)
  exact alert_of_roused (pending.imp_right Or.inr) fun _ => pending

theorem Kept.awake_step (kept : s.Kept) {label : Label} (made : s.step p label = some s')
    (awake : s.Awake) : s'.Awake := by
  cases kept.steps made with
  | write => exact kept.awake_write awake
  | mark lock => exact fun looping => (awake looping).mark lock
  | reap _ phase =>
    intro looping
    have roles := kept.roles
    rw [phase] at roles
    change s.owner.looping = true at looping
    rw [roles.of_ended.1] at looping
    cases looping
  | reads made => exact awake_owner made (Or.inl rfl) awake
  | owner free made => exact awake_owner made (Or.inr free) awake
  | call _ _ answers => exact kept.awake_answers answers awake
  | task _ present op reading _ works =>
    intro _
    exact kept.custody.alert_works present op works (awake (by rw [reading]; rfl))
  | serverStops | serverFails => exact fun looping => (awake looping).endScope _
  | notifier _ made => exact kept.awake_notifier made awake

theorem awake_of_reachable (reached : (bridge p).Reachable s) : s.Awake :=
  reached.invariant_with (P := Awake) (fun looping => by cases looping)
    (fun _ => kept_of_reachable) fun _ _ _ awake kept made => kept.awake_step made awake

end State

end HttpServer.CAbi
