import HttpServer.Native.Executor

set_option autoImplicit false

namespace HttpServer.Native

open OrderedMap

def Worker.pool? : Worker → Option PoolId
  | .taken j => some j.pool
  | .running j => some j.pool
  | .ran j _ => some j.pool
  | .published p => some p
  | _ => none

def Worker.job? : Worker → Option JobRef
  | .taken j => some j
  | .running j => some j
  | .ran j _ => some j
  | _ => none

def busyOn (p : PoolId) (w : Worker) : Int := if w.pool? = some p then 1 else 0

def busy (w : Worker) : Int := if w.pool? = none then 0 else 1

def countOf (pools : OrderedMap PoolId Pool) (p : PoolId) : Int := ((pools.get p).map Pool.count).getD 0

def activeOf (pools : OrderedMap PoolId Pool) (p : PoolId) : Int :=
  ((pools.get p).map Pool.active).getD 0

/-- Every counter of a budget and of its pools is the number of what it counts. -/
structure Counted (b : Budget) : Prop where
  queued : b.queued = b.queue.length
  counts : b.queued = b.pools.sum fun _ q => q.count
  busy : b.active = b.workers.sum fun _ => busy
  actives : b.active = b.pools.sum fun _ q => q.active
  count : ∀ p, countOf b.pools p = b.queue.countP fun j => j.pool = p
  active : ∀ p, activeOf b.pools p = b.workers.sum fun _ => busyOn p
  refs : b.refs = b.pools.sum fun _ _ => 1

section

variable {pools : OrderedMap PoolId Pool} {p : PoolId} {q : Pool}

theorem countOf_insert (pools : OrderedMap PoolId Pool) (p key : PoolId) (q : Pool) :
    countOf (pools.insert p q) key = if key = p then q.count else countOf pools key := by
  unfold countOf
  rw [get_insert]
  split_ifs <;> rfl

theorem activeOf_insert (pools : OrderedMap PoolId Pool) (p key : PoolId) (q : Pool) :
    activeOf (pools.insert p q) key = if key = p then q.active else activeOf pools key := by
  unfold activeOf
  rw [get_insert]
  split_ifs <;> rfl

theorem countOf_some (present : pools.get p = some q) : countOf pools p = q.count := by
  simp [countOf, present]

theorem activeOf_some (present : pools.get p = some q) : activeOf pools p = q.active := by
  simp [activeOf, present]

theorem countOf_none (absent : pools.get p = none) : countOf pools p = 0 := by
  simp [countOf, absent]

theorem activeOf_none (absent : pools.get p = none) : activeOf pools p = 0 := by
  simp [activeOf, absent]

end

/-- What the queue and the workers do not depend on may change. -/
structure SameWork (b b' : Budget) : Prop where
  stopping : b'.stopping = b.stopping
  queued : b'.queued = b.queued
  active : b'.active = b.active
  refs : b'.refs = b.refs
  threadCount : b'.threadCount = b.threadCount
  queue : b'.queue = b.queue
  workers : b'.workers = b.workers
  pools : ∀ p, (b'.pools.get p).map (fun q => (q.count, q.active, q.workerLimit)) =
    (b.pools.get p).map fun q => (q.count, q.active, q.workerLimit)
  counts : (b'.pools.sum fun _ q => q.count) = b.pools.sum fun _ q => q.count
  actives : (b'.pools.sum fun _ q => q.active) = b.pools.sum fun _ q => q.active
  ones : (b'.pools.sum fun _ _ => (1 : Int)) = b.pools.sum fun _ _ => 1

theorem SameWork.refl (b : Budget) : SameWork b b := by
  constructor <;> first | rfl | exact fun _ => rfl

theorem SameWork.countOf {b b' : Budget} (same : SameWork b b') (p : PoolId) :
    Native.countOf b'.pools p = Native.countOf b.pools p := by
  have first := congrArg (Option.map fun t : Int × Int × Int => t.1) (same.pools p)
  simp only [Option.map_map, Function.comp_def] at first
  exact congrArg (·.getD 0) first

theorem SameWork.activeOf {b b' : Budget} (same : SameWork b b') (p : PoolId) :
    Native.activeOf b'.pools p = Native.activeOf b.pools p := by
  have second := congrArg (Option.map fun t : Int × Int × Int => t.2.1) (same.pools p)
  simp only [Option.map_map, Function.comp_def] at second
  exact congrArg (·.getD 0) second

theorem Counted.same {b b' : Budget} (counted : Counted b) (same : SameWork b b') : Counted b' where
  queued := by rw [same.queued, same.queue, counted.queued]
  counts := by rw [same.queued, same.counts, counted.counts]
  busy := by rw [same.active, same.workers, counted.busy]
  actives := by rw [same.active, same.actives, counted.actives]
  count p := by rw [same.countOf, same.queue, counted.count]
  active p := by rw [same.activeOf, same.workers, counted.active]
  refs := by rw [same.refs, same.ones, counted.refs]

-- A pool may change in what is not counted.
theorem sameWork_insert {b b' : Budget} {p : PoolId} {q q' : Pool} (present : b.pools.get p = some q)
    (pools : b'.pools = b.pools.insert p q')
    (kept : q'.count = q.count ∧ q'.active = q.active ∧ q'.workerLimit = q.workerLimit)
    (others : b'.stopping = b.stopping ∧ b'.queued = b.queued ∧ b'.active = b.active ∧
      b'.refs = b.refs ∧ b'.threadCount = b.threadCount ∧ b'.queue = b.queue ∧
      b'.workers = b.workers) : SameWork b b' where
  stopping := others.1
  queued := others.2.1
  active := others.2.2.1
  refs := others.2.2.2.1
  threadCount := others.2.2.2.2.1
  queue := others.2.2.2.2.2.1
  workers := others.2.2.2.2.2.2
  pools key := by
    rw [pools, get_insert]
    split_ifs with here
    · rw [here, present, Option.map_some, Option.map_some, kept.1, kept.2.1, kept.2.2]
    · rfl
  counts := by
    rw [pools, sum_insert present, kept.1]
    omega
  actives := by
    rw [pools, sum_insert present, kept.2.1]
    omega
  ones := by
    rw [pools, sum_insert present]
    omega

section

variable {b b' : Budget} {p : PoolId}

theorem used_use (b : Budget) (directory : Bool) (bytes : Int) :
    (b.use directory bytes).pools = b.pools ∧ (b.use directory bytes).stopping = b.stopping ∧
      (b.use directory bytes).queued = b.queued ∧ (b.use directory bytes).active = b.active ∧
      (b.use directory bytes).refs = b.refs ∧
      (b.use directory bytes).threadCount = b.threadCount ∧
      (b.use directory bytes).queue = b.queue ∧ (b.use directory bytes).workers = b.workers := by
  cases directory <;> simp [Budget.use]

theorem own_kept (directory : Bool) (bytes : Int) (q : Pool) :
    (q.own directory bytes).count = q.count ∧ (q.own directory bytes).active = q.active ∧
      (q.own directory bytes).workerLimit = q.workerLimit := by
  cases directory <;> simp [Pool.own]

theorem sameWork_own (b : Budget) (p : PoolId) (directory : Bool) (used owned : Int) :
    SameWork b { b.use directory used with pools := b.pools.modify p (Pool.own directory owned) } := by
  have others := (used_use b directory used).2
  cases present : b.pools.get p with
  | none =>
    rw [modify_none present]
    exact ⟨others.1, others.2.1, others.2.2.1, others.2.2.2.1, others.2.2.2.2.1, others.2.2.2.2.2.1,
      others.2.2.2.2.2.2, fun _ => rfl, rfl, rfl, rfl⟩
  | some q =>
    rw [modify_some present]
    exact sameWork_insert present rfl (own_kept directory owned q) others

theorem sameWork_reserve {directory : Bool} {bytes : Int}
    (granted : hsIoReserve b p directory bytes = some b') : SameWork b b' := by
  unfold hsIoReserve at granted
  dsimp only at granted
  split_ifs at granted
  cases granted
  exact sameWork_own b p directory bytes bytes

theorem sameWork_getD {found : Option Budget} (same : ∀ b', found = some b' → SameWork b b') :
    SameWork b (found.getD b) := by
  cases found with
  | none => exact .refl b
  | some b' => exact same b' rfl

theorem sameWork_release (b : Budget) (p : PoolId) (directory : Bool) (bytes : Int) :
    SameWork b (hsIoRelease b p directory bytes) := by
  unfold hsIoRelease
  split
  · exact .refl b
  · split_ifs
    · exact sameWork_own b p directory (-bytes) (-bytes)
    · exact .refl b

theorem sameWork_connectionAcquire (granted : hsIoConnectionAcquire b = some b') : SameWork b b' := by
  unfold hsIoConnectionAcquire at granted
  split_ifs at granted
  cases granted
  exact ⟨rfl, rfl, rfl, rfl, rfl, rfl, rfl, fun _ => rfl, rfl, rfl, rfl⟩

theorem sameWork_connectionRelease (b : Budget) : SameWork b (hsIoConnectionRelease b) := by
  unfold hsIoConnectionRelease
  split_ifs
  · exact ⟨rfl, rfl, rfl, rfl, rfl, rfl, rfl, fun _ => rfl, rfl, rfl, rfl⟩
  · exact .refl b

theorem sameWork_bodyAcquire {bytes : Int} (granted : hsIoBodyAcquire b bytes = some b') :
    SameWork b b' := by
  unfold hsIoBodyAcquire at granted
  split_ifs at granted
  cases granted
  exact ⟨rfl, rfl, rfl, rfl, rfl, rfl, rfl, fun _ => rfl, rfl, rfl, rfl⟩

theorem sameWork_bodyRelease (b : Budget) (bytes : Int) : SameWork b (hsIoBodyRelease b bytes) := by
  unfold hsIoBodyRelease
  split_ifs
  · exact ⟨rfl, rfl, rfl, rfl, rfl, rfl, rfl, fun _ => rfl, rfl, rfl, rfl⟩
  · exact .refl b

end

section

variable {b : Budget} {p : PoolId} {q : Pool} {j : JobRef} {w : WorkerId} {old new : Worker}

theorem busyOn_wake (p : PoolId) (worker : Worker) : busyOn p worker.wake = busyOn p worker := by
  cases worker <;> rfl

theorem busy_wake (worker : Worker) : busy worker.wake = busy worker := by
  cases worker <;> rfl

theorem Counted.wake (counted : Counted b) :
    Counted { b with workers := b.workers.mapValues fun _ => Worker.wake } where
  queued := counted.queued
  counts := counted.counts
  busy := by simpa only [sum_mapValues, busy_wake] using counted.busy
  actives := counted.actives
  count := counted.count
  active p := by simpa only [sum_mapValues, busyOn_wake] using counted.active p
  refs := counted.refs

theorem Counted.work (counted : Counted b) (present : b.workers.get w = some old)
    (same : new.pool? = old.pool?) : Counted { b with workers := b.workers.insert w new } where
  queued := counted.queued
  counts := counted.counts
  busy := by
    rw [sum_insert present, Native.busy, Native.busy, same, counted.busy]
    omega
  actives := counted.actives
  count := counted.count
  active p := by
    rw [sum_insert present, busyOn, busyOn, same, counted.active]
    omega
  refs := counted.refs

theorem Counted.link (counted : Counted b) (absent : b.pools.get p = none) (count : q.count = 0)
    (active : q.active = 0) :
    Counted { b with pools := b.pools.insert p q, refs := b.refs + 1 } where
  queued := counted.queued
  counts := by
    rw [sum_insert_absent absent, count, counted.counts]
    omega
  busy := counted.busy
  actives := by
    rw [sum_insert_absent absent, active, counted.actives]
    omega
  count key := by
    rw [countOf_insert, ← counted.count]
    split_ifs with here
    · rw [here, countOf_none absent, count]
    · rfl
  active key := by
    rw [activeOf_insert, ← counted.active]
    split_ifs with here
    · rw [here, activeOf_none absent, active]
    · rfl
  refs := by rw [sum_insert_absent absent, counted.refs]

theorem Counted.startOne (counted : Counted b) (absent : b.workers.get w = none) (n : Nat) :
    Counted { b with workers := b.workers.insert w .ready, threadCount := n } where
  queued := counted.queued
  counts := counted.counts
  busy := by
    rw [sum_insert_absent absent, counted.busy]
    exact (Int.add_zero _).symm
  actives := counted.actives
  count := counted.count
  active p := by
    rw [sum_insert_absent absent, counted.active]
    exact (Int.add_zero _).symm
  refs := counted.refs

theorem Counted.unlink (counted : Counted b) (present : b.pools.get p = some q) (count : q.count = 0)
    (active : q.active = 0) : Counted (b.unlink p q) where
  queued := counted.queued
  counts := by
    simp only [Budget.unlink]
    rw [sum_erase present, count, counted.counts]
    omega
  busy := counted.busy
  actives := by
    simp only [Budget.unlink]
    rw [sum_erase present, active, counted.actives]
    omega
  count key := by
    simp only [Budget.unlink]
    rw [← counted.count]
    unfold countOf
    rw [get_erase]
    split_ifs with here
    · rw [here, present, Option.map_some, count]
      rfl
    · rfl
  active key := by
    simp only [Budget.unlink]
    rw [← counted.active]
    unfold activeOf
    rw [get_erase]
    split_ifs with here
    · rw [here, present, Option.map_some, active]
      rfl
    · rfl
  refs := by
    simp only [Budget.unlink]
    rw [sum_erase present, counted.refs]

theorem Counted.enqueue (counted : Counted b) (present : b.pools.get j.pool = some q) :
    Counted { b with
      queue := b.queue ++ [j]
      queued := b.queued + 1
      pools := b.pools.insert j.pool { q with count := q.count + 1 } } where
  queued := by
    rw [counted.queued, List.length_append]
    rfl
  counts := by
    rw [sum_insert present, counted.counts]
    dsimp only
    omega
  busy := counted.busy
  actives := by
    rw [sum_insert present, counted.actives]
    dsimp only
    omega
  count key := by
    rw [countOf_insert, List.countP_append, List.countP_singleton, Int.natCast_add, ← counted.count]
    by_cases here : key = j.pool
    · simp [here, countOf_some present]
    · simp [here, Ne.symm here]
  active key := by
    rw [activeOf_insert, ← counted.active]
    split_ifs with here
    · rw [here, activeOf_some present]
    · rfl
  refs := by
    rw [sum_insert present, counted.refs]
    omega

-- A queued job has its pool.
theorem Counted.pool_queued (counted : Counted b) (member : j ∈ b.queue) :
    ∃ q, b.pools.get j.pool = some q := by
  rw [← Option.ne_none_iff_exists']
  intro absent
  have zero := counted.count j.pool
  rw [countOf_none absent] at zero
  have positive : 0 < b.queue.countP fun other => other.pool = j.pool :=
    List.countP_pos_iff.mpr ⟨j, member, by simp⟩
  omega

theorem Counted.dequeue (counted : Counted b) {rest : List JobRef} (head : b.queue = j :: rest)
    (present : b.pools.get j.pool = some q) (free : b.workers.get w = some .ready) :
    Counted { b with
      queue := rest
      queued := b.queued - 1
      active := b.active + 1
      pools := b.pools.insert j.pool { q with count := q.count - 1, active := q.active + 1 }
      workers := b.workers.insert w (.taken j) } where
  queued := by
    rw [counted.queued, head, List.length_cons]
    dsimp only
    omega
  counts := by
    rw [sum_insert present, counted.counts]
    dsimp only
    omega
  busy := by
    have idle : Native.busy .ready = 0 := rfl
    have one : Native.busy (.taken j) = 1 := rfl
    rw [sum_insert free, counted.busy, idle, one]
    dsimp only
    omega
  actives := by
    rw [sum_insert present, counted.actives]
    dsimp only
    omega
  count key := by
    have before := counted.count key
    rw [head, List.countP_cons] at before
    rw [countOf_insert]
    by_cases here : key = j.pool
    · rw [if_pos here]
      rw [here, countOf_some present] at before
      simp only [decide_true, if_true] at before
      rw [here]
      dsimp only
      omega
    · rw [if_neg here, before]
      simp [Ne.symm here]
  active key := by
    have idle : busyOn key .ready = 0 := rfl
    rw [sum_insert free, activeOf_insert, ← counted.active, idle]
    by_cases here : key = j.pool
    · simp [here, activeOf_some present, busyOn, Worker.pool?]
    · simp [here, Ne.symm here, busyOn, Worker.pool?]
  refs := by
    rw [sum_insert present, counted.refs]
    omega

-- The pool of a busy worker is there.
theorem Counted.pool_busy (counted : Counted b) {worker : Worker}
    (present : b.workers.get w = some worker) (on : worker.pool? = some p) :
    ∃ q, b.pools.get p = some q := by
  rw [← Option.ne_none_iff_exists']
  intro absent
  have zero := counted.active p
  rw [activeOf_none absent] at zero
  have part : busyOn p worker ≤ b.workers.sum fun _ => busyOn p :=
    le_sum present fun _ other _ => by
      unfold busyOn
      split_ifs <;> decide
  rw [busyOn, if_pos on] at part
  omega

theorem Counted.retire (counted : Counted b) (present : b.pools.get p = some q)
    (done : b.workers.get w = some (.published p)) :
    Counted { b with
      active := b.active - 1
      pools := b.pools.insert p { q with active := q.active - 1 }
      workers := b.workers.insert w .ready } where
  queued := counted.queued
  counts := by
    rw [sum_insert present, counted.counts]
    dsimp only
    omega
  busy := by
    have idle : Native.busy .ready = 0 := rfl
    have one : Native.busy (.published p) = 1 := rfl
    rw [sum_insert done, counted.busy, idle, one]
    dsimp only
    omega
  actives := by
    rw [sum_insert present, counted.actives]
    dsimp only
    omega
  count key := by
    rw [countOf_insert, ← counted.count]
    split_ifs with here
    · rw [here, countOf_some present]
    · rfl
  active key := by
    have idle : busyOn key .ready = 0 := rfl
    rw [sum_insert done, activeOf_insert, ← counted.active, idle]
    by_cases here : key = p
    · simp [here, activeOf_some present, busyOn, Worker.pool?]
    · simp [here, Ne.symm here, busyOn, Worker.pool?]
  refs := by
    rw [sum_insert present, counted.refs]
    omega

end

end HttpServer.Native
