import HttpServer.Native.Service

set_option autoImplicit false

namespace HttpServer.Native

open OrderedMap

theorem least_le (limit : Pool → Int) (pools : List Pool) (start : Int) :
    pools.foldl (fun least q => if limit q < least then limit q else least) start ≤ start ∧
      ∀ q ∈ pools,
        pools.foldl (fun least q => if limit q < least then limit q else least) start ≤ limit q := by
  induction pools generalizing start with
  | nil => simp
  | cons q rest ih =>
    obtain ⟨first, others⟩ := ih (if limit q < start then limit q else start)
    rw [List.foldl_cons]
    have least : (if limit q < start then limit q else start) ≤ start ∧
        (if limit q < start then limit q else start) ≤ limit q := by
      split_ifs <;> omega
    refine ⟨first.trans least.1, ?_⟩
    intro other member
    rcases List.mem_cons.mp member with rfl | later
    · exact first.trans least.2
    · exact others other later

theorem le_least (limit : Pool → Int) (pools : List Pool) (start bound : Int) (first : bound ≤ start)
    (all : ∀ q ∈ pools, bound ≤ limit q) :
    bound ≤ pools.foldl (fun least q => if limit q < least then limit q else least) start := by
  induction pools generalizing start with
  | nil => exact first
  | cons q rest ih =>
    apply ih
    · have here := all q List.mem_cons_self
      dsimp only
      split_ifs <;> omega
    · exact fun other member => all other (List.mem_cons_of_mem q member)

section

variable {pools : OrderedMap PoolId Pool} {p : PoolId} {q : Pool} {start : Int} {limit : Pool → Int}

theorem mem_values (present : pools.get p = some q) : q ∈ pools.values :=
  List.mem_map.mpr ⟨(p, q), (pools.get_eq_some p q).mp present, rfl⟩

theorem get_of_values (member : q ∈ pools.values) : ∃ p, pools.get p = some q := by
  obtain ⟨⟨p, other⟩, entry, rfl⟩ := List.mem_map.mp member
  exact ⟨p, (pools.get_eq_some p other).mpr entry⟩

theorem minLimit_le (present : pools.get p = some q) : minLimit start limit pools ≤ limit q :=
  (least_le limit pools.values start).2 q (mem_values present)

theorem le_minLimit {bound : Int} (first : bound ≤ start)
    (all : ∀ p q, pools.get p = some q → bound ≤ limit q) : bound ≤ minLimit start limit pools := by
  apply le_least _ _ _ _ first
  intro q member
  obtain ⟨p, present⟩ := get_of_values member
  exact all p q present

end

section

variable {s : State} {b : Budget} {w : WorkerId} {p : PoolId} {q : Pool} {j : JobRef}
  {old new : Worker}

theorem idle_worker (idle : old.pool? = none) : old = .ready ∨ old = .waiting ∨ old = .exited := by
  cases old <;> simp_all [Worker.pool?]

theorem Counted.someone_busy (counted : Counted b) (some_active : 0 < b.active) :
    ∃ w worker, b.workers.get w = some worker ∧ worker.pool? ≠ none := by
  by_contra nobody
  have zero : (b.workers.sum fun _ => Native.busy) = 0 := by
    apply sum_eq_zero
    intro w worker present
    rw [Native.busy, if_pos]
    by_contra on
    exact nobody ⟨w, worker, present, on⟩
  rw [counted.busy, zero] at some_active
  exact absurd some_active (Int.lt_irrefl 0)

-- A worker may go on with what it holds; where it was ready it leaves others to serve the queue.
theorem Good.setWorker (good : Good s) (here : s.budget = some b) (present : b.workers.get w = some old)
    (pool : new.pool? = old.pool?) (job : new.job? = old.job?)
    (covered : b.queue ≠ [] → old = .ready → new ≠ .ready → 0 < b.active)
    (ended : new = .exited → b.stopping = true) : Good (s.setWorker b w new) := by
  have counted := good.counted b here
  have threads := good.threads b here
  have heldSame : ∀ j, holds j new = holds j old := fun j => by rw [holds, holds, job]
  constructor
  case counted =>
    intro other found
    cases found
    exact counted.work present pool
  case threads =>
    intro other found
    cases found
    refine ⟨?_, ?_, ?_, threads.joining, threads.last, threads.limits, threads.fresh⟩
    · intro key
      dsimp only
      rw [get_insert, ← threads.ids]
      split_ifs with same
      · simp [same, present]
      · rfl
    · intro more
      rcases threads.awake more with ⟨key, ready⟩ | busy
      · by_cases same : key = w
        · obtain rfl : old = .ready := by simpa [same, present] using ready
          by_cases still : new = .ready
          · exact Or.inl ⟨w, by simp [still]⟩
          · exact Or.inr (covered more rfl still)
        · exact Or.inl ⟨key, by simp [same, ready]⟩
      · exact Or.inr busy
    · intro key gone
      dsimp only at gone
      rw [get_insert] at gone
      split_ifs at gone
      · exact ended (Option.some.inj gone)
      · exact threads.exited key gone
  case records =>
    refine good.records.same (.refl s.jobs) ?_ ?_ rfl rfl rfl rfl
    · simp [State.queue, State.setWorker, here]
    · funext j
      simp only [State.held, State.setWorker, here, Option.map_some, Option.getD_some]
      rw [sum_insert present, heldSame]
      omega

theorem Threads.limit_pos {owner : Owner} {nextPool : PoolId} (threads : Threads owner nextPool b) :
    1 ≤ hsWorkerLimit b :=
  le_minLimit (by decide) fun p q present => (threads.limits p q present).1

-- Without pools there are no jobs.
theorem Good.stopped_empty (good : Good s) (here : s.budget = some b) (stopping : b.stopping = true) :
    b.queue = [] := by
  have refs := (good.threads b here).last.mp stopping
  rw [List.eq_nil_iff_forall_not_mem]
  intro j member
  obtain ⟨q, present⟩ := (good.counted b here).pool_queued member
  have positive := (good.counted b here).refs_pos present
  omega

theorem Good.dequeue (good : Good s) (here : s.budget = some b) (free : b.workers.get w = some .ready)
    {rest : List JobRef} (head : b.queue = j :: rest) :
    Good { s.setWorker { b with
        queue := rest
        queued := b.queued - 1
        active := b.active + 1
        pools := b.pools.modify j.pool fun p =>
          { p with count := p.count - 1, active := p.active + 1 } } w (.taken j) with
      dequeued := s.dequeued ++ [j] } := by
  have counted := good.counted b here
  have threads := good.threads b here
  have waits : j ∈ b.queue := by simp [head]
  obtain ⟨q, present⟩ := counted.pool_queued waits
  simp only [modify_some present]
  constructor
  case counted =>
    intro other found
    cases found
    exact counted.dequeue head present free
  case threads =>
    intro other found
    cases found
    refine ⟨?_, ?_, ?_, threads.joining, threads.last, ?_, ?_⟩
    · intro key
      dsimp only
      rw [get_insert, ← threads.ids]
      split_ifs with same
      · simp [same, free]
      · rfl
    · intro _
      have least := counted.active_nonneg
      right
      dsimp only
      omega
    · intro key gone
      dsimp only at gone
      rw [get_insert] at gone
      split_ifs at gone
      · cases gone
      · exact threads.exited key gone
    · exact forall_insert (threads.limits j.pool q present) fun key other _ => threads.limits key other
    · exact fun key out => (get_insert_none present).mpr (threads.fresh key out)
  case records =>
    have queue : s.queue = j :: rest := by simp [State.queue, here, head]
    refine ⟨?_, good.records.ids, ?_, good.records.pending, good.records.done⟩
    · have fifo := good.records.fifo
      rw [queue] at fifo
      simpa [State.queue, State.setWorker] using fifo
    · -- the job goes from the queue into the hands of the worker
      intro other
      have once := good.records.once other
      have idle : holds other .ready = 0 := rfl
      simp only [State.held, here, Option.map_some, Option.getD_some] at once
      simp only [State.held, State.queue, State.setWorker, Option.map_some, Option.getD_some]
      rw [queue, List.count_cons] at once
      rw [sum_insert free, idle, once]
      by_cases same : j = other
      · simp [holds, Worker.job?, same]
        omega
      · simp [holds, Worker.job?, same]

theorem Records.name_inj (records : Records s) {first second : JobRef} (one : first ∈ s.accepted)
    (two : second ∈ s.accepted) (same : first.id = second.id) : first = second := by
  have names : (s.accepted.map JobRef.id).Nodup := by
    rw [records.ids]
    exact List.nodup_range
  exact List.inj_on_of_nodup_map names one two same

theorem Records.nodup (records : Records s) : s.accepted.Nodup := by
  apply List.Nodup.of_map JobRef.id
  rw [records.ids]
  exact List.nodup_range

theorem held_nonneg (s : State) (j : JobRef) : 0 ≤ s.held j := by
  unfold State.held
  cases s.budget with
  | none => exact Int.le_refl 0
  | some b =>
    rw [Option.map_some, Option.getD_some]
    apply sum_nonneg
    intro _ worker _
    unfold holds
    split_ifs <;> decide

theorem held_pos (here : s.budget = some b) (present : b.workers.get w = some old)
    (job : old.job? = some j) : 1 ≤ s.held j := by
  have part : holds j old ≤ b.workers.sum fun _ => holds j :=
    le_sum present fun _ other _ => by
      unfold holds
      split_ifs <;> decide
  rw [holds, if_pos job] at part
  simpa [State.held, here] using part

theorem Records.held_job (records : Records s) (held : 1 ≤ s.held j) :
    j ∈ s.accepted ∧ j ∉ s.published ∧ s.held j = 1 ∧ j ∉ s.queue := by
  have once := records.once j
  have least := records.nodup.count (a := j)
  split_ifs at least with member
  · have none : s.published.count j = 0 ∧ s.queue.count j = 0 ∧ s.held j = 1 := by omega
    exact ⟨member, List.count_eq_zero.mp none.1, none.2.2, List.count_eq_zero.mp none.2.1⟩
  · omega

theorem Good.publish (good : Good s) (here : s.budget = some b) {code : Int} {job : Job}
    (present : b.workers.get w = some (.ran j code)) : Good (s.publish b w j job code) := by
  have mine : 1 ≤ s.held j := held_pos here present rfl
  obtain ⟨accepted, left, alone, -⟩ := good.records.held_job mine
  have counted := good.counted b here
  have threads := good.threads b here
  constructor
  case counted =>
    intro other found
    cases found
    exact counted.work present rfl
  case threads =>
    intro other found
    cases found
    refine ⟨?_, ?_, ?_, threads.joining, threads.last, threads.limits, threads.fresh⟩
    · intro key
      dsimp only
      rw [get_insert, ← threads.ids]
      split_ifs with same
      · simp [same, present]
      · rfl
    · intro _
      exact Or.inr (counted.active_pos present (by simp [Worker.pool?]))
    · intro key gone
      dsimp only at gone
      rw [get_insert] at gone
      split_ifs at gone
      · cases gone
      · exact threads.exited key gone
  case records =>
    constructor
    case fifo => simpa [State.publish, State.setWorker, State.queue, here] using good.records.fifo
    case ids => exact good.records.ids
    case once =>
      intro other
      have once := good.records.once other
      have mineOld : holds other (.ran j code) = if j = other then 1 else 0 := by
        simp [holds, Worker.job?]
      have mineNew : holds other (.published j.pool) = 0 := rfl
      simp only [State.held, State.queue, here, Option.map_some, Option.getD_some] at once
      simp only [State.publish, State.held, State.queue, State.setWorker, Option.map_some,
        Option.getD_some]
      rw [sum_insert present, mineOld, mineNew, List.count_append, List.count_singleton, once]
      by_cases same : j = other
      · simp [same]
      · simp [same]
    case pending =>
      intro other member unpublished
      have different : other.id ≠ j.id := by
        intro same
        obtain rfl := good.records.name_inj member accepted same
        simp [State.publish] at unpublished
      obtain ⟨record, found, pending⟩ := good.records.pending other member (by
        intro before
        exact unpublished (List.mem_append_left _ before))
      refine ⟨record, ?_, pending⟩
      simp only [State.publish]
      rw [get_insert_ne _ _ different, found]
    case done =>
      intro other member record found
      simp only [State.publish] at found
      rw [get_insert] at found
      by_cases same : other.id = j.id
      · rw [if_pos same] at found
        cases found
        rfl
      · rw [if_neg same] at found
        rcases List.mem_append.mp member with before | new
        · exact good.records.done other before record found
        · obtain rfl := List.mem_singleton.mp new
          exact absurd rfl same

theorem Owner.wake_failed {owner : Owner} : owner.wake = .failed p ↔ owner = .failed p := by
  cases owner <;> simp [Owner.wake]

theorem Owner.wake_joining {owner : Owner} : owner.wake = .joining ↔ owner = .joining := by
  cases owner <;> simp [Owner.wake]

theorem Owner.wake_freeing {owner : Owner} :
    (∃ woken, owner.wake = .freeing p woken) ↔ ∃ woken, owner = .freeing p woken := by
  cases owner <;> simp [Owner.wake]

theorem Good.retire (good : Good s) (here : s.budget = some b)
    (done : b.workers.get w = some (.published p)) : Good (s.retire b w p) := by
  have counted := good.counted b here
  have threads := good.threads b here
  obtain ⟨q, present⟩ := counted.pool_busy done rfl
  unfold State.retire
  rw [modify_some present]
  constructor
  case counted =>
    intro other found
    cases found
    exact (counted.retire present done).wake
  case threads =>
    intro other found
    cases found
    refine ⟨?_, ?_, ?_, ?_, threads.last, ?_, ?_⟩
    · intro key
      dsimp only
      rw [get_mapValues, Option.isSome_map, get_insert, ← threads.ids]
      split_ifs with same
      · simp [same, done]
      · rfl
    · intro _
      refine Or.inl ⟨w, ?_⟩
      simp [Worker.wake]
    · intro key gone
      dsimp only at gone
      rw [get_mapValues, Option.map_eq_some_iff] at gone
      obtain ⟨worker, found, woken⟩ := gone
      obtain rfl := wake_exited.mp woken
      rw [get_insert] at found
      split_ifs at found
      · cases found
      · exact threads.exited key found
    · exact threads.joining.trans Owner.wake_joining.symm
    · simp only [State.wakeAll, Owner.wake_failed, Owner.wake_freeing]
      exact forall_insert (threads.limits p q present) fun key other _ => threads.limits key other
    · exact fun key out => (get_insert_none present).mpr (threads.fresh key out)
  case records =>
    refine good.records.same (.refl s.jobs) ?_ ?_ rfl rfl rfl rfl
    · simp [State.queue, State.wakeAll, here]
    · funext j
      have idle : holds j .ready = holds j (.published p) := rfl
      simp only [State.held, State.wakeAll, here, Option.map_some, Option.getD_some]
      simp only [sum_mapValues, holds_wake]
      rw [sum_insert done, idle, sub_add_cancel]

/-- A signal makes one of those that wait ready, if there is one. -/
structure Signalled (workers workers' : OrderedMap WorkerId Worker) : Prop where
  ids : ∀ w, (workers'.get w).isSome = (workers.get w).isSome
  ready : ∀ w, workers.get w = some .ready → workers'.get w = some .ready
  exited : ∀ w, workers'.get w = some .exited → workers.get w = some .exited
  sums : ∀ weight : Worker → Int, weight .ready = weight .waiting →
    (workers'.sum fun _ => weight) = workers.sum fun _ => weight
  someone : (∃ w, workers'.get w = some .ready) ∨ ∀ w, workers'.get w ≠ some .waiting

theorem signalled {workers workers' : OrderedMap WorkerId Worker} {woken : Option WorkerId}
    (sent : signal workers woken = some workers') : Signalled workers workers' := by
  cases woken with
  | none =>
    simp only [signal] at sent
    split_ifs at sent with asleep
    cases sent
    refine ⟨fun _ => rfl, fun _ => id, fun _ => id, fun _ _ => rfl, Or.inr ?_⟩
    intro w waiting
    apply asleep
    exact List.mem_map.mpr ⟨(w, .waiting), (workers.get_eq_some w _).mp waiting, rfl⟩
  | some w =>
    simp only [signal] at sent
    split_ifs at sent with waiting
    cases sent
    refine ⟨?_, ?_, ?_, ?_, Or.inl ⟨w, get_insert_self _ _ _⟩⟩
    · intro key
      rw [get_insert]
      split_ifs with same
      · simp [same, waiting]
      · rfl
    · intro key ready
      rw [get_insert]
      split_ifs
      · rfl
      · exact ready
    · intro key gone
      rw [get_insert] at gone
      split_ifs at gone
      · cases gone
      · exact gone
    · intro weight same
      rw [sum_insert waiting, same]
      omega

theorem Good.submit {s' : State} {woken : Option WorkerId} (good : Good s)
    (here : s.budget = some b) (idle : s.owner = .idle) (present : b.pools.get p = some q)
    (run : hsIoSubmit s b p q woken = some s') : Good s' := by
  have counted := good.counted b here
  have threads := good.threads b here
  rw [idle] at threads
  have opened := threads.opened
  unfold hsIoSubmit at run
  split_ifs at run with refused
  · cases run
    exact good
  obtain ⟨workers, sent, rfl⟩ := Option.map_eq_some_iff.mp run
  have signalled := signalled sent
  have queued : Counted { b with
      queue := b.queue ++ [⟨s.nextJob, p⟩]
      queued := b.queued + 1
      pools := b.pools.insert p { q with count := q.count + 1 } } :=
    counted.enqueue (j := ⟨s.nextJob, p⟩) present
  have fresh : ∀ j ∈ s.accepted, j.id < s.nextJob := by
    intro j member
    have name : j.id ∈ s.accepted.map JobRef.id := List.mem_map_of_mem member
    rw [good.records.ids, List.mem_range] at name
    exact name
  have unheard : ∀ j ∈ s.published, j ∈ s.accepted := by
    intro j member
    have once := good.records.once j
    have least := held_nonneg s j
    have positive := List.count_pos_iff.mpr member
    apply List.count_pos_iff.mp
    omega
  constructor
  case counted =>
    intro other found
    cases found
    exact {
      queued with
      busy := by
        rw [queued.busy, signalled.sums Native.busy rfl]
      active := by
        intro key
        rw [queued.active, signalled.sums (busyOn key) rfl] }
  case threads =>
    intro other found
    cases found
    rw [idle]
    refine ⟨?_, ?_, ?_, threads.joining, threads.last, ?_, ?_⟩
    · intro key
      rw [← threads.ids, signalled.ids]
    · intro _
      rcases signalled.someone with ready | awake
      · exact Or.inl ready
      · -- nobody sleeps, and the pool has at least one worker
        have enough := opened.limits p q present
        have positive : 0 < b.threadCount := by omega
        have first : (b.workers.get 0).isSome = true := (opened.ids 0).mpr positive
        rw [← signalled.ids, Option.isSome_iff_exists] at first
        obtain ⟨worker, found⟩ := first
        by_cases none : worker.pool? = Option.none
        · rcases idle_worker none with rfl | rfl | rfl
          · exact Or.inl ⟨0, found⟩
          · exact absurd found (awake 0)
          · exact absurd (signalled.exited 0 found) (opened.exited 0)
        · right
          have part : Native.busy worker ≤ workers.sum fun _ => Native.busy :=
            le_sum found fun _ other _ => by
              unfold Native.busy
              split_ifs <;> decide
          rw [Native.busy, if_neg none, signalled.sums Native.busy rfl] at part
          dsimp only
          rw [counted.busy]
          omega
    · exact fun key gone => threads.exited key (signalled.exited key gone)
    · exact forall_insert (threads.limits p q present) fun key other _ => threads.limits key other
    · exact fun key out => (get_insert_none present).mpr (threads.fresh key out)
  case records =>
    constructor
    case fifo =>
      have fifo := good.records.fifo
      simp only [State.queue, here, Option.map_some, Option.getD_some] at fifo
      simp [State.queue, fifo]
    case ids =>
      dsimp only
      rw [List.map_append, good.records.ids, List.range_succ]
      rfl
    case once =>
      intro j
      have once := good.records.once j
      simp only [State.held, State.queue, here, Option.map_some, Option.getD_some] at once
      simp only [State.held, State.queue, Option.map_some, Option.getD_some]
      rw [signalled.sums (holds j) rfl, List.count_append, List.count_append, Int.natCast_add,
        Int.natCast_add, once]
      omega
    case pending =>
      intro j member left
      dsimp only at member left ⊢
      rw [get_insert]
      by_cases same : j.id = s.nextJob
      · exact ⟨.new, if_pos same, rfl⟩
      · rw [if_neg same]
        rcases List.mem_append.mp member with before | new
        · exact good.records.pending j before left
        · obtain rfl := List.mem_singleton.mp new
          exact absurd rfl same
    case done =>
      intro j member job found
      dsimp only at member found
      rw [get_insert_ne _ _ (Nat.ne_of_lt (fresh j (unheard j member)))] at found
      exact good.records.done j member job found

theorem onPool_some {s' : State} {run : Budget → Pool → Option State}
    (ran : s.onPool p run = some s') :
    ∃ b q, s.budget = some b ∧ b.pools.get p = some q ∧ run b q = some s' := by
  unfold State.onPool at ran
  split at ran
  · cases ran
  · split at ran
    · cases ran
    · exact ⟨_, _, ‹_›, ‹_›, ran⟩

theorem onJob_some {s' : State} {run : Budget → Job → Option State}
    (ran : s.onJob j run = some s') :
    ∃ b job, s.budget = some b ∧ s.jobs.get j.id = some job ∧ run b job = some s' := by
  obtain ⟨b, _, here, -, inner⟩ := onPool_some ran
  split at inner
  · cases inner
  · exact ⟨b, _, here, ‹_›, inner⟩

-- Credits may also change where there is no budget to take them from.
theorem Good.map (good : Good s) {change : Budget → Budget} (acquires : List Acquire)
    (same : ∀ b, SameWork b (change b)) :
    Good { s with budget := s.budget.map change, acquires } := by
  cases here : s.budget with
  | some b => exact good.credits here (same b) (.refl s.jobs) acquires
  | none =>
    constructor
    case counted =>
      intro b found
      cases found
    case threads =>
      intro b found
      cases found
    case records =>
      refine good.records.same (.refl s.jobs) ?_ ?_ rfl rfl rfl rfl
      · simp [State.queue, here]
      · funext j
        simp [State.held, here]

theorem Good.onlyJobs (good : Good s) {jobs : OrderedMap Nat Job} (same : SameJobs s.jobs jobs) :
    Good { s with jobs } where
  counted := good.counted
  threads := good.threads
  records := good.records.same same rfl rfl rfl rfl rfl rfl

theorem Good.call {s' : State} {c : Call} (good : Good s) (idle : s.owner = .idle)
    (run : s.call c = some s') : Good s' := by
  cases c with
  | poolNew a =>
    cases run
    exact good.poolNew idle a
  | poolFree p =>
    obtain ⟨b, q, here, present, inner⟩ := onPool_some run
    cases inner
    exact good.poolFree here present (Or.inl idle)
  | submit p memory woken =>
    obtain ⟨b, q, here, present, inner⟩ := onPool_some run
    split_ifs at inner
    · exact good.submit here idle present inner
    · cases inner
      exact good
  | cancel j =>
    obtain ⟨b, job, here, found, inner⟩ := onJob_some run
    cases inner
    refine good.onlyJobs (sameJobs_insert found ?_)
    rfl
  | takeDirectoryCharge j =>
    obtain ⟨b, job, here, found, inner⟩ := onJob_some run
    split_ifs at inner
    cases inner
    refine good.onlyJobs (sameJobs_insert found ?_)
    rfl
  | jobFree j =>
    obtain ⟨b, job, here, found, inner⟩ := onJob_some run
    split_ifs at inner with done
    cases inner
    exact good.credits here (sameWork_release b j.pool true job.directoryCharge)
      (sameJobs_erase found done) s.acquires
  | reserve p directory bytes =>
    obtain ⟨b, q, here, present, inner⟩ := onPool_some run
    cases inner
    exact good.credits here (sameWork_getD fun _ => sameWork_reserve) (.refl s.jobs) s.acquires
  | release p directory bytes =>
    obtain ⟨b, q, here, present, inner⟩ := onPool_some run
    cases inner
    exact good.credits here (sameWork_release b p directory bytes) (.refl s.jobs) s.acquires
  | connectionLimit p limit =>
    obtain ⟨b, q, here, present, inner⟩ := onPool_some run
    cases inner
    have same : SameWork b
        { b with pools := b.pools.insert p { q with connectionLimit := limit } } :=
      sameWork_insert present rfl ⟨rfl, rfl, rfl⟩ ⟨rfl, rfl, rfl, rfl, rfl, rfl, rfl⟩
    exact good.credits here same (.refl s.jobs) s.acquires
  | connectionAcquire =>
    cases run
    exact good.map s.acquires fun b => sameWork_getD fun _ => sameWork_connectionAcquire
  | connectionRelease =>
    cases run
    exact good.map s.acquires sameWork_connectionRelease
  | bodyAcquire bytes =>
    simp only [State.call] at run
    split at run
    · cases run
      exact good
    · split at run
      · cases run
        exact good
      · rename_i here _ b' granted
        cases run
        exact good.credits here (sameWork_bodyAcquire granted) (.refl s.jobs) _
  | bodyRelease a =>
    simp only [State.call] at run
    split_ifs at run
    cases run
    exact good.map _ fun b => sameWork_bodyRelease b a.bytes

theorem Good.work {s' : State} {move : Move} (good : Good s) (here : s.budget = some b)
    (present : b.workers.get w = some old) (run : s.work b w old move = some s') : Good s' := by
  cases move with
  | wake =>
    simp only [State.work] at run
    split_ifs at run with waiting
    cases run
    subst waiting
    exact good.setWorker here present rfl rfl (fun _ ready => by cases ready)
      (fun gone => by cases gone)
  | test =>
    simp only [State.work] at run
    split_ifs at run with ready
    cases run
    subst ready
    unfold State.workerTest
    split
    · rename_i empty
      split_ifs with stopping
      · exact good.setWorker here present rfl rfl (fun more => absurd empty more) (fun _ => stopping)
      · exact good.setWorker here present rfl rfl (fun more => absurd empty more)
          (fun gone => by cases gone)
    · rename_i j rest head
      split_ifs with full
      · refine good.setWorker here present rfl rfl (fun _ _ _ => ?_) (fun gone => by cases gone)
        -- as many are at work as the limit allows, which is at least one
        have one := (good.threads b here).limit_pos
        omega
      · exact good.dequeue here present head
  | look =>
    simp only [State.work] at run
    split at run
    · split at run
      · cases run
      · cases run
        refine good.setWorker here present ?_ ?_ (fun _ ready => by cases ready) ?_
        · split_ifs <;> rfl
        · split_ifs <;> rfl
        · split_ifs <;> exact fun gone => by cases gone
    · cases run
  | charge name =>
    simp only [State.work] at run
    split at run
    · split at run
      · cases run
      · rename_i j job found
        cases run
        unfold State.charge
        split_ifs
        · exact good
        · split
          · exact good
          · rename_i b' granted
            refine good.credits here (sameWork_reserve granted) (sameJobs_insert found ?_) s.acquires
            rfl
    · cases run
  | finish code =>
    simp only [State.work] at run
    split at run
    · cases run
      exact good.setWorker here present rfl rfl (fun _ ready => by cases ready)
        (fun gone => by cases gone)
    · cases run
  | publish =>
    simp only [State.work] at run
    split at run
    · split at run
      · cases run
      · cases run
        exact good.publish here present
    · cases run
  | retire =>
    simp only [State.work] at run
    split at run
    · cases run
      exact good.retire here present
    · cases run

theorem good_initial : Good .initial where
  counted b here := by cases here
  threads b here := by cases here
  records := {
    fifo := rfl
    ids := rfl
    once := fun _ => rfl
    pending := fun _ member => absurd member List.not_mem_nil
    done := fun _ member => absurd member List.not_mem_nil }

theorem good_step {s s' : State} {label : Label} (good : Good s)
    (move : State.step label s = some s') : Good s' := by
  cases label with
  | call c =>
    simp only [State.step] at move
    split at move
    · exact good.call ‹_› move
    · rename_i p q owner
      split_ifs at move
      obtain ⟨b, pool, here, present, inner⟩ := onPool_some move
      cases inner
      exact good.poolFree here present (Or.inr (Or.inl owner))
    · cases move
  | resume =>
    simp only [State.step] at move
    split at move
    · rename_i p woken owner
      obtain ⟨b, q, here, present, inner⟩ := onPool_some move
      cases inner
      exact good.resume here present (Or.inr (Or.inr ⟨woken, owner⟩))
    · cases move
  | joined =>
    simp only [State.step] at move
    split at move
    · rename_i b joining here
      split_ifs at move with ended
      cases move
      refine good.joined here joining ?_
      intro w worker present
      have all := List.all_eq_true.mp ended worker
        (List.mem_map.mpr ⟨(w, worker), (b.workers.get_eq_some w worker).mp present, rfl⟩)
      simpa using all
    · cases move
  | worker w turn =>
    simp only [State.step] at move
    split at move
    · cases move
    · split at move
      · cases move
      · exact good.work ‹_› ‹_› move

theorem poolFree_call {s s' : State} {p : PoolId}
    (move : State.step (.call (.poolFree p)) s = some s') : s.call (.poolFree p) = some s' := by
  cases owner : s.owner with
  | idle => simpa only [State.step, owner] using move
  | failed other =>
    simp only [State.step, owner] at move
    split_ifs at move with same
    rw [← same]
    exact move
  | freeing other woken => simp [State.step, owner] at move
  | joining => simp [State.step, owner] at move

theorem reachable_good {s : State} (reached : executor.Reachable s) : Good s :=
  reached.invariant good_initial fun _ _ _ good move => good_step good move

end

end HttpServer.Native
