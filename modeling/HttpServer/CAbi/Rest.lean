import HttpServer.CAbi.Progress

set_option autoImplicit false

/-!
# What is open at rest

When no thread can go on by itself every operation has its notice, but for reads that wait for a
chunk which the host has not returned.
-/

namespace HttpServer.CAbi

namespace Memory

variable {m : Memory}

theorem chunk_held (books : m.Books) {k : Key} {c : Chunk} (found : m.chunks.get k = some c)
    (given : ∀ key o, m.ops.get key = some o → o.delivered = false → o.event.chunk ≠ some k) :
    0 < c.held := by
  have account := books.accounts (.chunkOwner k)
  have ops : (m.ops.sum fun key o => o.net key (.chunkOwner k)) = 0 := by
    refine OrderedMap.sum_eq_zero fun key o there => ?_
    have other : ¬(o.delivered = false ∧ o.event.chunk = some k) := fun event =>
      given key o there event.1 event.2
    simp [Operation.net, one, other]
  rw [ops] at account
  simp only [base, Instance.net, Response.net, Chunk.net, OrderedMap.sum_zero, sum_own, found,
    Option.elim_some] at account
  omega

theorem chunk_of_unready (books : m.Books) {r : Key} {x : Response}
    (found : m.responses.get r = some x) (some : x.chunks ≠ 0) :
    ∃ k c, m.chunks.get k = .some c ∧ c.response = r := by
  have count := books.conserved.chunks r x found
  obtain ⟨k, c, there, response⟩ := OrderedMap.exists_of_count (m := m.chunks)
    (P := fun c => c.response = r) (by omega)
  exact ⟨k, c, there, by simpa using response⟩

end Memory

namespace State

variable {p : Platform} {s : State}

/-- The read at `k` waits for a chunk of its response that the host holds. Nobody has cancelled it
or closed its instance, and a release of its response can only be one in `refused`. -/
structure HeldUp (s : State) (k : Key) : Prop where
  waiting : ∃ task, s.tasks.get k = some task ∧ task.stage = .waiting false ∧ task.marked = false
  read : ∃ t r, s.memory.ticket k = some t ∧ t.kind = .read ∧ t.done = false ∧
    ¬s.memory.Flagged s.refused t ∧ t.response = some r ∧
      ∃ c chunk, s.memory.chunks.get c = some chunk ∧ chunk.response = r ∧ 0 < chunk.held

structure Rested (s : State) : Prop where
  free : s.lock = .free
  owner : s.owner = .reading ∨ s.owner = .absent
  commands : s.commands = []
  notices : s.notices = []
  waiting : ∀ k t, s.memory.ticket k = some t → s.HeldUp k

theorem rests_of (free : s.lock = .free) (owner : ∀ move, s.ownerStep move = none)
    (tasks : s.owner = .reading → ∀ k task, s.tasks.get k = some task →
      task.stage = .waiting false ∧ task.marked = false)
    (scopes : ∀ i, s.scopes.get i ≠ some true) (notifier : ∀ move, s.notifierStep move = none) :
    (bridge p).Rests (fun label => label.own = true) s := by
  intro label own
  have guarded {next : Option State} (none : next = none) :
      (if s.lock ≠ .free then Option.none else next) = Option.none := by
    rw [none, ite_self]
  cases label with
  | call | reap | serverFails => cases own
  | write =>
    change (if s.lock = .waking then some (s.writeByte p) else none) = none
    simp [free]
  | mark =>
    change (if s.lock = .written then some { s with wakePending := true, lock := .free } else none) = none
    simp [free]
  | owner move =>
    by_cases reads : move = .readByte
    · subst reads
      exact owner .readByte
    · have none := guarded (owner move)
      cases move <;> first | exact none | exact absurd rfl reads
  | serverStops i =>
    have none : (if s.idling ∧ s.scopes.get i = some true then some (s.endScope i) else none) = none := by
      rw [if_neg fun running => scopes i running.2]
    exact guarded none
  | notifier move => exact guarded (notifier move)
  | task k move =>
    refine guarded ?_
    split
    · rename_i task o present _
      by_cases reading : s.owner = .reading
      · obtain ⟨stage, unmarked⟩ := tasks reading k task present
        rw [if_pos reading]
        cases move <;> simp [taskStep, stage, unmarked]
      · rw [if_neg reading]
    · rfl

section

variable (rests : (bridge p).Rests (fun label => label.own = true) s)

include rests

theorem rests_free : s.lock = .free := by
  cases lock : s.lock with
  | free => rfl
  | waking =>
    have none : (if s.lock = .waking then some (s.writeByte p) else Option.none) = Option.none :=
      rests .write rfl
    simp [lock] at none
  | written =>
    have none : (if s.lock = .written then some { s with wakePending := true, lock := .free }
      else Option.none) = Option.none := rests .mark rfl
    simp [lock] at none

theorem rests_owner (move : OwnerMove) : s.ownerStep move = none := by
  have free := rests_free rests
  have none := rests (.owner move) rfl
  by_cases reads : move = .readByte
  · subst reads
    exact none
  · have none : (if s.lock ≠ .free then Option.none else s.ownerStep move) = Option.none := by
      cases move <;> first | exact none | exact absurd rfl reads
    rwa [if_neg (not_not.mpr free)] at none

theorem rests_notifier (move : NotifierMove) : s.notifierStep move = none := by
  have none : (if s.lock ≠ .free then Option.none else s.notifierStep move) = Option.none :=
    rests (.notifier move) rfl
  rwa [if_neg (not_not.mpr (rests_free rests))] at none

theorem rests_task {k : Key} {task : Task} {o : Operation} (present : s.tasks.get k = some task)
    (op : s.memory.ops.get k = some o) (reading : s.owner = .reading) (move : TaskMove) :
    s.taskStep p k task o move = none := by
  have none : s.step p (.task k move) = Option.none := rests (.task k move) rfl
  have free := rests_free rests
  unfold step at none
  simpa [free, present, op, reading] using none

theorem rests_server (idling : s.idling = true) (i : Key) : s.scopes.get i ≠ some true := by
  intro scope
  have none : (if s.lock ≠ .free then Option.none else
      if s.idling ∧ s.scopes.get i = some true then some (s.endScope i) else Option.none) =
      Option.none := rests (.serverStops i) rfl
  rw [if_neg (not_not.mpr (rests_free rests)), if_pos ⟨idling, scope⟩] at none
  cases none

theorem rests_unroused (owner : s.owner = .reading) : ¬s.Roused := by
  rintro (byte | waking | acking)
  · have none := rests_owner rests .readByte
    simp [ownerStep, owner, byte] at none
  · simp [rests_free rests] at waking
  · simp [owner] at acking

theorem rests_at (reached : (bridge p).Reachable s) : s.owner = .reading ∨ s.owner = .absent := by
  have stuck := rests_owner rests
  cases owner : s.owner with
  | absent => exact Or.inr rfl
  | reading => exact Or.inl rfl
  | starting => simpa [ownerStep, owner] using stuck .attach
  | acking => simpa [ownerStep, owner] using stuck .ack
  | popping =>
    have none := stuck .pop
    simp only [ownerStep, owner, if_true] at none
    split at none <;> cases none
  | cancelling rest =>
    have none := stuck .cancelNext
    cases rest <;> simp [ownerStep, owner] at none
  | checking =>
    have none := stuck .idle
    simp only [ownerStep, owner, if_true] at none
    split_ifs at none
  | leaving =>
    -- nothing is left to do, so the group of tasks is empty
    obtain ⟨live, tickets⟩ := (quits_of_reachable reached).leaving owner
    have custody := (kept_of_reachable reached).custody
    have tasks : s.tasks = ∅ := OrderedMap.eq_empty fun k => by
      by_contra present
      obtain ⟨task, present⟩ := Option.ne_none_iff_exists'.mp present
      obtain ⟨t, here, _⟩ := custody.task present
      cases (tickets k).symm.trans (ticket_of_spot here)
    have scopes : s.scopes = ∅ := OrderedMap.eq_empty fun i => by
      by_contra present
      obtain ⟨b, scope⟩ := Option.ne_none_iff_exists'.mp present
      have member := (serves_of_reachable reached).live i b scope
      simp [live] at member
    have none := stuck .leave
    simp [ownerStep, owner, tasks, scopes, OrderedMap.keys] at none
  | draining hand =>
    cases hand with
    | some k => simpa [ownerStep, owner] using stuck .drainComplete
    | none =>
      cases commands : s.commands with
      | nil => simpa [ownerStep, owner, commands] using stuck .drainEnd
      | cons k rest => simpa [ownerStep, owner, commands] using stuck .drainPop

theorem rests_commands (reached : (bridge p).Reachable s) : s.commands = [] := by
  rcases rests_at rests reached with owner | owner
  · by_contra some
    rcases (awake_of_reachable reached (by rw [owner]; rfl)).commands some with roused | popping
    · exact rests_unroused rests owner roused
    · simp [owner] at popping
  · exact (quits_of_reachable reached).commands (Or.inr owner)

theorem rests_notices (reached : (bridge p).Reachable s) :
    s.notices = [] ∧ ∀ k, s.notifier ≠ .calling k := by
  have stuck := rests_notifier rests
  have calling (k : Key) : s.notifier ≠ .calling k := by
    intro notifier
    simpa [notifierStep, notifier] using stuck .returned
  refine ⟨?_, calling⟩
  by_cases running : s.notifier.running = true
  · cases notifier : s.notifier with
    | waiting =>
      cases notices : s.notices with
      | nil => rfl
      | cons k rest => simpa [notifierStep, notifier, notices] using stuck .take
    | calling k => exact absurd notifier (calling k)
    | absent | joining => simp [notifier, Notifier.running] at running
  · rcases rests_at rests reached with owner | owner
    · have roles := (kept_of_reachable reached).roles
      rw [owner] at roles
      exact absurd (roles.of_looping rfl).2.1 running
    · exact (quits_of_reachable reached).notices owner (by simpa using running)

theorem rests_stage {k : Key} {task : Task} {t : Ticket}
    (present : s.tasks.get k = some task) (found : s.memory.ticket k = some t)
    (reading : s.owner = .reading) (fits : task.Fits t) : task.marked = false ∧
      (task.stage = .waiting false ∨ task.stage = .stopping false ∨ task.stage = .draining false) := by
  obtain ⟨o, op, _, rfl⟩ := Memory.ticket_eq_some.mp found
  have stuck := rests_task rests present op reading
  have stays := fits.stage
  have unmarked (suspended : task.stage.suspended = true) : task.marked = false := by
    by_contra marked
    have none := stuck .interrupt
    simp [taskStep, suspended, marked] at none
  cases stage : task.stage with
  | spawned => simpa [taskStep, stage] using stuck (.begin true)
  | working => simpa [taskStep, stage] using stuck (.finish .io)
  | configured => simpa [taskStep, stage] using stuck (.finish .io)
  | responding left valid =>
    cases left with
    | zero => simpa [taskStep, stage] using stuck .responded
    | succ left =>
      rw [stage] at stays
      obtain ⟨r, response⟩ := Option.isSome_iff_exists.mp stays.2
      have response : o.event.response = some r := response
      simpa [taskStep, stage, response] using stuck (.header 0 true)
  | chunked code => simpa [taskStep, stage] using stuck .chunked
  | shutting => simpa [taskStep, stage] using stuck .shut
  | waiting woken =>
    cases woken with
    | false => exact ⟨unmarked (by rw [stage]; rfl), Or.inl rfl⟩
    | true => simpa [taskStep, stage] using stuck .check
  | stopping woken =>
    cases woken with
    | false => exact ⟨unmarked (by rw [stage]; rfl), Or.inr (Or.inl rfl)⟩
    | true => simpa [taskStep, stage] using stuck .check
  | draining woken =>
    cases woken with
    | false => exact ⟨unmarked (by rw [stage]; rfl), Or.inr (Or.inr rfl)⟩
    | true => simpa [taskStep, stage] using stuck .check

theorem rests_open (reached : (bridge p).Reachable s) {k : Key} {t : Ticket}
    (found : s.memory.ticket k = some t) :
    ∃ task, s.tasks.get k = some task ∧ t.done = false ∧ task.Fits t := by
  obtain ⟨notices, calling⟩ := rests_notices rests reached
  apply ((kept_of_reachable reached).custody.sound k).of_ticket found
  · simp [spot, rests_commands rests reached]
  · rcases rests_at rests reached with owner | owner <;> simp [spot, owner, Owner.hand]
  · simp [spot, notices]
  · cases notifier : s.notifier with
    | calling key => exact absurd notifier (calling key)
    | _ => simp [spot, notifier, Notifier.hand]

theorem rests_reading (reached : (bridge p).Reachable s) {k : Key} {task : Task}
    (present : s.tasks.get k = some task) : s.owner = .reading := by
  refine (rests_at rests reached).resolve_right fun owner => ?_
  simp [(kept_of_reachable reached).custody.no_tasks (by rw [owner]; rfl) k] at present

-- No close waits at rest: what it waits for has been told to end.
theorem rests_waiting (reached : (bridge p).Reachable s) {k : Key} {t : Ticket}
    (found : s.memory.ticket k = some t) : ∃ task, s.tasks.get k = some task ∧ t.done = false ∧
      task.Fits t ∧ task.stage = .waiting false ∧ task.marked = false := by
  have custody := (kept_of_reachable reached).custody
  obtain ⟨task, present, undone, fits⟩ := rests_open rests reached found
  have reading := rests_reading rests reached present
  have idling : s.idling = true := by simp [idling, reading]
  have alert := awake_of_reachable reached (by rw [reading]; rfl)
  have unroused := rests_unroused rests reading
  have scope {key : Key} {other : Task} {u : Ticket} (there : s.tasks.get key = some other)
      (open' : s.memory.ticket key = some u) : other.stage ≠ .stopping false := by
    intro stage
    have agrees := (serves_of_reachable reached).agrees key other u there open'
    rw [stage] at agrees
    rcases agrees with running | ⟨woken, _⟩
    · exact rests_server rests idling u.owner running
    · cases woken
  obtain ⟨unmarked, stage | stage | stage⟩ := rests_stage rests present found reading fits
  · exact ⟨task, present, undone, fits, stage, unmarked⟩
  · exact absurd stage (scope present found)
  · exfalso
    have closes : t.kind.closes = true := by
      have stays := fits.stage
      rwa [stage] at stays
    have dying := custody.tidy.closing k t found closes undone
    obtain ⟨key, u, other, found', owner, undone'⟩ :=
      (alert.draining k task t present found stage).resolve_left unroused
    obtain ⟨task', present', _, fits'⟩ := rests_open rests reached found'
    have stays := fits'.stage
    obtain ⟨unmarked', stage' | stage' | stage'⟩ := rests_stage rests present' found' reading fits'
    · -- a read of an instance that closes is cancelled
      rw [stage'] at stays
      have read : u.kind = .read := stays.1
      obtain ⟨o, op, _, rfl⟩ := Memory.ticket_eq_some.mp found'
      obtain ⟨inst, owned⟩ := custody.tidy.books.owner_found op (le_refl 0)
      have closing := dying.closing inst (owner ▸ owned)
      have flagged : s.memory.Flagged s.refused o.ticket :=
        ⟨by rw [read]; rfl, Or.inr (Or.inl ⟨inst, owned, closing⟩)⟩
      rcases alert.flagged key task' _ present' found' unmarked' flagged with
        roused | popping | ⟨rest, sweep, _⟩
      · exact unroused roused
      · simp [reading] at popping
      · simp [reading] at sweep
    · exact scope present' found' stage'
    · rw [stage'] at stays
      exact other (dying.only key u found' owner stays undone')

theorem rests_heldUp (reached : (bridge p).Reachable s) {k : Key} {t : Ticket}
    (found : s.memory.ticket k = some t) : s.HeldUp k := by
  have custody := (kept_of_reachable reached).custody
  have books := custody.tidy.books
  obtain ⟨task, present, undone, fits, stage, unmarked⟩ := rests_waiting rests reached found
  have reading := rests_reading rests reached present
  have alert := awake_of_reachable reached (by rw [reading]; rfl)
  have unroused := rests_unroused rests reading
  have read : t.kind = .read := by
    have stays := fits.stage
    rw [stage] at stays
    exact stays.1
  refine ⟨⟨task, present, stage, unmarked⟩, ?_⟩
  obtain ⟨r, uses⟩ := Option.isSome_iff_exists.mp (custody.tidy.reading k t found read)
  obtain ⟨x, response⟩ := Memory.response_of_ticket books found uses
  have unready : x.chunks ≠ 0 := fun none =>
    unroused (alert.waiting k task t present found stage ⟨r, x, uses, response, none⟩)
  obtain ⟨c, chunk, there, belongs⟩ := Memory.chunk_of_unready books response unready
  refine ⟨t, r, found, read, undone, fun flagged => ?_, uses, c, chunk, there, belongs, ?_⟩
  · rcases alert.flagged k task t present found unmarked flagged with
      roused | popping | ⟨rest, sweep, _⟩
    · exact unroused roused
    · simp [reading] at popping
    · simp [reading] at sweep
  · -- the event of what is open at rest has no chunk
    refine Memory.chunk_held books there fun key o op undelivered event => ?_
    have unfinished : o.finished = false := by
      by_contra finished
      have delivered := (books.sound.ops key o op).finished (by simpa using finished)
      simp [undelivered] at delivered
    obtain ⟨task', _, _, fits', stage', _⟩ :=
      rests_waiting rests reached (Memory.ticket_of_get op unfinished)
    have stays := fits'.stage
    rw [stage'] at stays
    have blank : o.event.chunk = none := stays.2.2.2
    simp [blank] at event

theorem rested (reached : (bridge p).Reachable s) : s.Rested where
  free := rests_free rests
  owner := rests_at rests reached
  commands := rests_commands rests reached
  notices := (rests_notices rests reached).1
  waiting _ _ found := rests_heldUp rests reached found

end

end State

end HttpServer.CAbi
