import HttpServer.Native.Counters

set_option autoImplicit false

namespace HttpServer.Native

open OrderedMap

/-- The workers of a budget: who is there, and who is not asleep while there is something to do. -/
structure Threads (owner : Owner) (nextPool : PoolId) (b : Budget) : Prop where
  ids : ∀ w, (b.workers.get w).isSome = true ↔ w < b.threadCount
  awake : b.queue ≠ [] → (∃ w, b.workers.get w = some .ready) ∨ 0 < b.active
  exited : ∀ w, b.workers.get w = some .exited → b.stopping = true
  joining : b.stopping = true ↔ owner = .joining
  last : b.stopping = true ↔ b.refs = 0
  limits : ∀ p q, b.pools.get p = some q → 1 ≤ q.workerLimit ∧
    (q.workerLimit ≤ b.threadCount ∨ owner = .failed p ∨ ∃ woken, owner = .freeing p woken)
  fresh : ∀ p, nextPool ≤ p → b.pools.get p = none

def State.queue (s : State) : List JobRef := (s.budget.map Budget.queue).getD []

def holds (j : JobRef) (w : Worker) : Int := if w.job? = some j then 1 else 0

def State.held (s : State) (j : JobRef) : Int :=
  (s.budget.map fun b => b.workers.sum fun _ => holds j).getD 0

/-- What became of every job that was accepted. -/
structure Records (s : State) : Prop where
  fifo : s.accepted = s.dequeued ++ s.queue
  ids : s.accepted.map JobRef.id = List.range s.nextJob
  once : ∀ j, (s.accepted.count j : Int) = s.published.count j + s.held j + s.queue.count j
  pending : ∀ j ∈ s.accepted, j ∉ s.published →
    ∃ job, s.jobs.get j.id = some job ∧ job.done = false
  done : ∀ j ∈ s.published, ∀ job, s.jobs.get j.id = some job → job.done = true

structure Good (s : State) : Prop where
  counted : ∀ b, s.budget = some b → Counted b
  threads : ∀ b, s.budget = some b → Threads s.owner s.nextPool b
  records : Records s

section

variable {s : State} {b b' : Budget} {jobs : OrderedMap Nat Job}

theorem SameWork.limit (same : SameWork b b') {p : PoolId} {q' : Pool}
    (present : b'.pools.get p = some q') :
    ∃ q, b.pools.get p = some q ∧ q'.workerLimit = q.workerLimit := by
  have both := same.pools p
  rw [present] at both
  cases found : b.pools.get p with
  | none => simp [found] at both
  | some q =>
    rw [found] at both
    simp only [Option.map_some, Option.some.injEq, Prod.mk.injEq] at both
    exact ⟨q, rfl, both.2.2⟩

theorem SameWork.absent (same : SameWork b b') {p : PoolId} (absent : b.pools.get p = none) :
    b'.pools.get p = none := by
  have both := same.pools p
  rw [absent] at both
  simpa using both

theorem Threads.same {owner : Owner} {nextPool : PoolId} (threads : Threads owner nextPool b)
    (same : SameWork b b') : Threads owner nextPool b' where
  ids := by
    rw [same.workers, same.threadCount]
    exact threads.ids
  awake := by
    rw [same.queue, same.workers, same.active]
    exact threads.awake
  exited := by
    rw [same.workers, same.stopping]
    exact threads.exited
  joining := by
    rw [same.stopping]
    exact threads.joining
  last := by
    rw [same.stopping, same.refs]
    exact threads.last
  limits p q' present := by
    obtain ⟨q, found, limit⟩ := same.limit present
    rw [limit, same.threadCount]
    exact threads.limits p q found
  fresh p out := same.absent (threads.fresh p out)

/-- Jobs may change in what the executor does not read, and done ones may go. -/
structure SameJobs (jobs jobs' : OrderedMap Nat Job) : Prop where
  pending : ∀ id job, jobs.get id = some job → job.done = false →
    ∃ job', jobs'.get id = some job' ∧ job'.done = false
  done : ∀ id job', jobs'.get id = some job' → ∃ job, jobs.get id = some job ∧ job.done = job'.done

theorem SameJobs.refl (jobs : OrderedMap Nat Job) : SameJobs jobs jobs where
  pending _ job found pending := ⟨job, found, pending⟩
  done _ job found := ⟨job, found, rfl⟩

theorem sameJobs_insert {id : Nat} {job job' : Job} (present : jobs.get id = some job)
    (done : job'.done = job.done) : SameJobs jobs (jobs.insert id job') where
  pending key old found pending := by
    rw [get_insert]
    split_ifs with here
    · rw [here, present] at found
      cases found
      exact ⟨job', rfl, done.trans pending⟩
    · exact ⟨old, found, pending⟩
  done key new found := by
    rw [get_insert] at found
    split_ifs at found with here
    · cases found
      exact ⟨job, here ▸ present, done.symm⟩
    · exact ⟨new, found, rfl⟩

theorem sameJobs_erase {id : Nat} {job : Job} (present : jobs.get id = some job)
    (done : job.done = true) : SameJobs jobs (jobs.erase id) where
  pending key old found pending := by
    rw [get_erase]
    split_ifs with here
    · rw [here, present] at found
      cases found
      rw [done] at pending
      cases pending
    · exact ⟨old, found, pending⟩
  done key new found := by
    rw [get_erase] at found
    split_ifs at found
    exact ⟨new, found, rfl⟩

theorem Records.same {s' : State} (records : Records s) (jobs : SameJobs s.jobs s'.jobs)
    (queue : s'.queue = s.queue) (held : s'.held = s.held) (accepted : s'.accepted = s.accepted)
    (dequeued : s'.dequeued = s.dequeued) (published : s'.published = s.published)
    (nextJob : s'.nextJob = s.nextJob) : Records s' where
  fifo := by rw [accepted, dequeued, queue, records.fifo]
  ids := by rw [accepted, nextJob, records.ids]
  once j := by rw [accepted, published, queue, held, records.once]
  pending j member left := by
    rw [accepted] at member
    rw [published] at left
    obtain ⟨job, found, pending⟩ := records.pending j member left
    exact jobs.pending j.id job found pending
  done j member job' found := by
    rw [published] at member
    obtain ⟨job, before, same⟩ := jobs.done j.id job' found
    rw [← same]
    exact records.done j member job before

theorem Good.credits (good : Good s) (here : s.budget = some b) (same : SameWork b b')
    (sameJobs : SameJobs s.jobs jobs) (acquires : List Acquire) :
    Good { s with budget := some b', jobs, acquires } where
  counted other found := by
    cases found
    exact (good.counted b here).same same
  threads other found := by
    cases found
    exact (good.threads b here).same same
  records := by
    apply good.records.same sameJobs
    · simp [State.queue, here, same.queue]
    · funext j
      simp [State.held, here, same.workers]
    all_goals rfl

end

section

variable {b : Budget} {p : PoolId} {q : Pool}

theorem Counted.active_nonneg (counted : Counted b) : 0 ≤ b.active := by
  rw [counted.busy]
  apply sum_nonneg
  intro _ worker _
  unfold Native.busy
  split_ifs <;> decide

theorem Counted.refs_nonneg (counted : Counted b) : 0 ≤ b.refs := by
  rw [counted.refs]
  exact sum_nonneg fun _ _ _ => by decide

theorem Counted.refs_pos (counted : Counted b) (present : b.pools.get p = some q) : 0 < b.refs := by
  have one : (1 : Int) ≤ b.pools.sum fun _ _ => 1 := le_sum present fun _ _ _ => by decide
  rw [counted.refs]
  omega

theorem Counted.active_pos (counted : Counted b) {w : WorkerId} {worker : Worker}
    (present : b.workers.get w = some worker) (on : worker.pool? ≠ none) : 0 < b.active := by
  have part : Native.busy worker ≤ b.workers.sum fun _ => Native.busy :=
    le_sum present fun _ other _ => by
      unfold Native.busy
      split_ifs <;> decide
  rw [Native.busy, if_neg on] at part
  rw [counted.busy]
  omega

structure Started (b b' : Budget) (more : Nat) : Prop where
  counted : Counted b'
  ids : ∀ w, (b'.workers.get w).isSome = true ↔ w < b'.threadCount
  threadCount : b'.threadCount = b.threadCount + more
  kept : ∀ w worker, b.workers.get w = some worker → b'.workers.get w = some worker
  exited : ∀ w, b'.workers.get w = some .exited → b.workers.get w = some .exited
  held : ∀ j, (b'.workers.sum fun _ => holds j) = b.workers.sum fun _ => holds j
  others : b'.pools = b.pools ∧ b'.queue = b.queue ∧ b'.active = b.active ∧
    b'.stopping = b.stopping ∧ b'.refs = b.refs

theorem start_started (more : Nat) (b : Budget) (counted : Counted b)
    (ids : ∀ w, (b.workers.get w).isSome = true ↔ w < b.threadCount) :
    Started b (b.start more) more := by
  induction more generalizing b with
  | zero =>
    exact ⟨counted, ids, rfl, fun _ _ => id, fun _ => id, fun _ => rfl, rfl, rfl, rfl, rfl, rfl⟩
  | succ more ih =>
    have absent : b.workers.get b.threadCount = none := by
      have there := ids b.threadCount
      simpa using there
    have later := ih { b with
        workers := b.workers.insert b.threadCount .ready, threadCount := b.threadCount + 1 }
      (counted.startOne absent _) (fun w => by
        dsimp only
        rw [get_insert]
        split_ifs with here
        · simp [here]
        · rw [ids]
          exact (Nat.lt_succ_iff_lt_or_eq.trans (or_iff_left here)).symm)
    refine ⟨later.counted, later.ids, ?_, ?_, ?_, ?_, later.others⟩
    · have count := later.threadCount
      dsimp only at count
      rw [Budget.start, count]
      omega
    · intro w worker present
      apply later.kept
      have other : w ≠ b.threadCount := by
        rintro rfl
        rw [absent] at present
        cases present
      rw [get_insert_ne _ _ other, present]
    · intro w gone
      have before := later.exited w gone
      rw [get_insert] at before
      split_ifs at before
      · cases before
      · exact before
    · intro j
      rw [Budget.start, later.held]
      dsimp only
      rw [sum_insert_absent absent]
      exact Int.add_zero _

/-- A budget that a pool may join: the owner is idle, so that every pool has its workers. -/
structure Open (nextPool : PoolId) (b : Budget) : Prop where
  ids : ∀ w, (b.workers.get w).isSome = true ↔ w < b.threadCount
  awake : b.queue ≠ [] → (∃ w, b.workers.get w = some .ready) ∨ 0 < b.active
  exited : ∀ w, b.workers.get w ≠ some .exited
  stopping : b.stopping = false
  limits : ∀ p q, b.pools.get p = some q → 1 ≤ q.workerLimit ∧ q.workerLimit ≤ b.threadCount
  fresh : ∀ p, nextPool ≤ p → b.pools.get p = none

theorem Threads.opened {nextPool : PoolId} (threads : Threads .idle nextPool b) : Open nextPool b := by
  have stopping : b.stopping = false := by
    rw [← Bool.not_eq_true, threads.joining]
    simp
  refine ⟨threads.ids, threads.awake, ?_, stopping, ?_, threads.fresh⟩
  · intro w gone
    have stopped := threads.exited w gone
    rw [stopping] at stopped
    cases stopped
  · intro p q present
    obtain ⟨positive, enough | failed | ⟨_, freeing⟩⟩ := threads.limits p q present
    · exact ⟨positive, enough⟩
    · cases failed
    · cases freeing

theorem fresh_open (nextPool : PoolId) : Counted .fresh ∧ Open nextPool .fresh := by
  refine ⟨⟨rfl, rfl, rfl, rfl, fun _ => rfl, fun _ => rfl, rfl⟩, ?_⟩
  constructor
  case ids => simp [Budget.fresh]
  case awake => simp [Budget.fresh]
  case exited => simp [Budget.fresh]
  case stopping => rfl
  case limits => simp [Budget.fresh]
  case fresh => simp [Budget.fresh]

theorem linked_threads {b' : Budget} {nextPool more : Nat} {owner : Owner} (counted : Counted b)
    (opened : Open nextPool b) (positive : 1 ≤ q.workerLimit)
    (started : Started { b with pools := b.pools.insert nextPool q, refs := b.refs + 1 } b' more)
    (now : owner = if q.workerLimit ≤ b'.threadCount then .idle else .failed nextPool) :
    Threads owner (nextPool + 1) b' := by
  obtain ⟨pools, queue, active, stopping, refs⟩ := started.others
  have count := started.threadCount
  have least := counted.refs_nonneg
  dsimp only at pools queue active stopping refs count
  constructor
  case ids => exact started.ids
  case awake =>
    intro more
    rw [queue] at more
    rw [active]
    rcases opened.awake more with ⟨w, ready⟩ | busy
    · exact Or.inl ⟨w, started.kept w _ ready⟩
    · exact Or.inr busy
  case exited => exact fun w gone => absurd (started.exited w gone) (opened.exited w)
  case joining =>
    rw [stopping, opened.stopping, now]
    split_ifs <;> simp
  case last =>
    rw [stopping, refs, opened.stopping]
    simp only [Bool.false_eq_true, false_iff]
    omega
  case limits =>
    intro p other present
    rw [pools, get_insert] at present
    split_ifs at present with here
    · cases present
      refine ⟨positive, ?_⟩
      rw [now, here]
      split_ifs with enough
      · exact Or.inl enough
      · exact Or.inr (Or.inl rfl)
    · obtain ⟨one, enough⟩ := opened.limits p other present
      refine ⟨one, Or.inl ?_⟩
      omega
  case fresh =>
    intro p out
    have other : p ≠ nextPool := by
      rintro rfl
      exact Nat.not_succ_le_self _ out
    rw [pools, get_insert_ne _ _ other]
    exact opened.fresh p (Nat.le_of_succ_le out)

theorem NewPool.positive {a : NewPool} (accepted : a.refused = false) : 1 ≤ a.count := by
  simp only [NewPool.refused, Bool.or_eq_false_iff, decide_eq_false_iff_not] at accepted
  omega

theorem Good.link {s : State} {a : NewPool} (records : Records s) (counted : Counted b)
    (opened : Open s.nextPool b) (accepted : a.refused = false) (queue : s.queue = b.queue)
    (held : s.held = fun j => b.workers.sum fun _ => holds j) : Good (s.link b a) := by
  have absent := opened.fresh s.nextPool (Nat.le_refl _)
  have linked : Counted { b with
      pools := b.pools.insert s.nextPool a.pool, refs := b.refs + 1 } :=
    counted.link absent rfl rfl
  have started := start_started (min a.threads (a.count.toNat - b.threadCount)) _ linked opened.ids
  constructor
  case counted =>
    intro b' here
    cases here
    exact started.counted
  case threads =>
    intro b' here
    cases here
    exact linked_threads counted opened (q := a.pool) (NewPool.positive accepted) started rfl
  case records =>
    refine records.same ?_ ?_ ?_ rfl rfl rfl rfl
    · exact .refl s.jobs
    · rw [queue]
      exact started.others.2.1
    · rw [held]
      exact funext started.held

theorem Good.poolNew {s : State} (good : Good s) (idle : s.owner = .idle) (a : NewPool) :
    Good (hsIoPoolNew s a) := by
  unfold hsIoPoolNew
  cases accepted : a.refused with
  | true => exact good
  | false =>
    simp only [Bool.false_eq_true, if_false]
    cases here : s.budget with
    | some b =>
      have threads := good.threads b here
      rw [idle] at threads
      exact .link good.records (good.counted b here) threads.opened accepted
        (by simp [State.queue, here]) (by funext j; simp [State.held, here])
    | none =>
      dsimp only
      split_ifs
      · obtain ⟨counted, opened⟩ := fresh_open s.nextPool
        have records : Records { s with budget := none, serial := s.serial + 1 } := by
          refine good.records.same (.refl s.jobs) ?_ ?_ rfl rfl rfl rfl
          · simp [State.queue, here]
          · funext j
            simp [State.held, here]
        exact .link records counted opened accepted rfl rfl
      · exact good

def Owner.Frees (p : PoolId) (owner : Owner) : Prop :=
  owner = .idle ∨ owner = .failed p ∨ ∃ woken, owner = .freeing p woken

theorem Owner.Frees.working {owner : Owner} (frees : owner.Frees p) : owner ≠ .joining := by
  rcases frees with rfl | rfl | ⟨woken, rfl⟩ <;> simp

theorem Threads.enough {owner : Owner} {nextPool : PoolId} (threads : Threads owner nextPool b)
    (frees : owner.Frees p) (key : PoolId) (other : Pool) (present : b.pools.get key = some other) :
    1 ≤ other.workerLimit ∧ (other.workerLimit ≤ b.threadCount ∨ key = p) := by
  obtain ⟨one, enough⟩ := threads.limits key other present
  refine ⟨one, ?_⟩
  rcases enough with enough | failed | ⟨woken, freeing⟩
  · exact Or.inl enough
  · rcases frees with rfl | rfl | ⟨_, rfl⟩
    · cases failed
    · exact Or.inr (Owner.failed.inj failed).symm
    · cases failed
  · rcases frees with rfl | rfl | ⟨_, rfl⟩
    · cases freeing
    · cases freeing
    · exact Or.inr (Owner.freeing.inj freeing).1.symm

theorem Threads.wait {owner : Owner} {nextPool : PoolId} (threads : Threads owner nextPool b)
    (frees : owner.Frees p) : Threads (.freeing p false) nextPool b where
  ids := threads.ids
  awake := threads.awake
  exited := threads.exited
  joining := by
    rw [threads.joining]
    simp [frees.working]
  last := threads.last
  limits key other present := by
    obtain ⟨one, enough | rfl⟩ := threads.enough frees key other present
    · exact ⟨one, Or.inl enough⟩
    · exact ⟨one, Or.inr (Or.inr ⟨false, rfl⟩)⟩
  fresh := threads.fresh

theorem wake_exited {worker : Worker} : worker.wake = .exited ↔ worker = .exited := by
  cases worker <;> simp [Worker.wake]

theorem holds_wake (j : JobRef) (worker : Worker) : holds j worker.wake = holds j worker := by
  cases worker <;> rfl

theorem Threads.unlink {owner : Owner} {nextPool : PoolId} (threads : Threads owner nextPool b)
    (frees : owner.Frees p) :
    Threads (if (b.unlink p q).refs = 0 then .joining else .idle) nextPool
      { b.unlink p q with workers := (b.unlink p q).workers.mapValues fun _ => Worker.wake } := by
  have running : b.stopping = false := by
    rw [← Bool.not_eq_true, threads.joining]
    exact frees.working
  have stops : (b.unlink p q).stopping = true ↔ (b.unlink p q).refs = 0 := by
    simp [Budget.unlink, running]
  constructor
  case ids =>
    intro w
    dsimp only
    rw [get_mapValues, Option.isSome_map]
    exact threads.ids w
  case awake =>
    intro more
    rcases threads.awake more with ⟨w, ready⟩ | busy
    · refine Or.inl ⟨w, ?_⟩
      simp [Budget.unlink, ready, Worker.wake]
    · exact Or.inr busy
  case exited =>
    intro w gone
    dsimp only at gone
    rw [get_mapValues, Option.map_eq_some_iff] at gone
    obtain ⟨worker, present, woken⟩ := gone
    obtain rfl := wake_exited.mp woken
    have stopped := threads.exited w present
    rw [running] at stopped
    cases stopped
  case joining =>
    rw [stops]
    split_ifs with last
    · simp [last]
    · simp [last]
  case last => exact stops
  case limits =>
    intro key other present
    simp only [Budget.unlink, get_erase] at present
    split_ifs at present with same
    obtain ⟨one, enough | here⟩ := threads.enough frees key other present
    · exact ⟨one, Or.inl enough⟩
    · exact absurd here same
  case fresh =>
    intro key out
    simp only [Budget.unlink, get_erase]
    split_ifs
    · rfl
    · exact threads.fresh key out

theorem Good.freeTest {s : State} (records : Records s) (counted : Counted b)
    (threads : Threads s.owner s.nextPool b) (present : b.pools.get p = some q)
    (frees : s.owner.Frees p) (queue : s.queue = b.queue)
    (held : s.held = fun j => b.workers.sum fun _ => holds j) : Good (s.freeTest b p q) := by
  unfold State.freeTest
  split_ifs with waits
  · refine ⟨?_, ?_, ?_⟩
    · intro other here
      cases here
      exact counted
    · intro other here
      cases here
      exact threads.wait frees
    · exact records.same (.refl s.jobs) queue.symm held.symm rfl rfl rfl rfl
  · have idle : q.count = 0 ∧ q.active = 0 := by simpa using waits
    refine ⟨?_, ?_, ?_⟩
    · intro other here
      cases here
      exact (counted.unlink present idle.1 idle.2).wake
    · intro other here
      cases here
      exact threads.unlink frees
    · refine records.same (.refl s.jobs) ?_ ?_ rfl rfl rfl rfl
      · exact queue.symm
      · rw [held]
        funext j
        simp [State.held, State.wakeAll, sum_mapValues, holds_wake, Budget.unlink]

theorem Good.poolFree {s : State} (good : Good s) (here : s.budget = some b)
    (present : b.pools.get p = some q) (frees : s.owner.Frees p) : Good (hsIoPoolFree s b p q) := by
  have same : SameWork b { b with pools := b.pools.insert p { q with stopping := true } } :=
    sameWork_insert present rfl ⟨rfl, rfl, rfl⟩ ⟨rfl, rfl, rfl, rfl, rfl, rfl, rfl⟩
  refine .freeTest good.records ((good.counted b here).same same) ((good.threads b here).same same)
    (get_insert_self _ _ _) frees ?_ ?_
  · simp [State.queue, here]
  · funext j
    simp [State.held, here]

theorem Good.resume {s : State} (good : Good s) (here : s.budget = some b)
    (present : b.pools.get p = some q) (frees : s.owner.Frees p) : Good (s.freeTest b p q) :=
  .freeTest good.records (good.counted b here) (good.threads b here) present frees
    (by simp [State.queue, here]) (by funext j; simp [State.held, here])

-- A stopped budget has nothing left to do.
theorem Good.joined {s : State} (good : Good s) (here : s.budget = some b)
    (joining : s.owner = .joining) (ended : ∀ w worker, b.workers.get w = some worker → worker = .exited) :
    Good { s with budget := none, owner := .idle } := by
  have counted := good.counted b here
  have threads := good.threads b here
  have refs := threads.last.mp (threads.joining.mpr joining)
  have empty : b.queue = [] := by
    rw [List.eq_nil_iff_forall_not_mem]
    intro j member
    obtain ⟨q, present⟩ := counted.pool_queued member
    have positive := counted.refs_pos present
    omega
  refine ⟨?_, ?_, ?_⟩
  · intro other found
    cases found
  · intro other found
    cases found
  · refine good.records.same (.refl s.jobs) ?_ ?_ rfl rfl rfl rfl
    · simp [State.queue, here, empty]
    · funext j
      have zero : (b.workers.sum fun _ => holds j) = 0 := by
        apply sum_eq_zero
        intro w worker present
        rw [ended w worker present]
        rfl
      simp [State.held, here, zero]

end

end HttpServer.Native
