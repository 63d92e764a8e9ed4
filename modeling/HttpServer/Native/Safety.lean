import HttpServer.Native.Delivery

set_option autoImplicit false

namespace HttpServer.Native

open OrderedMap

def State.Live (s : State) (p : PoolId) : Prop :=
  ∃ b q, s.budget = some b ∧ b.pools.get p = some q

-- No job of the pool is queued, running or just being published.
def State.Clear (s : State) (p : PoolId) : Prop :=
  (∀ j ∈ s.queue, j.pool ≠ p) ∧
    ∀ b w worker, s.budget = some b → b.workers.get w = some worker → worker.pool? ≠ some p

structure Served (s : State) : Prop where
  fifo : s.accepted = s.dequeued ++ s.queue
  queued : ∀ b, s.budget = some b →
    b.queued = b.queue.length ∧ b.queued = b.pools.sum fun _ q => q.count
  active : ∀ b, s.budget = some b →
    (b.active = b.pools.sum fun _ q => q.active) ∧ b.active = b.workers.sum fun _ => busy
  once : ∀ j, (s.published.count j : Int) + s.held j + s.queue.count j =
    if j ∈ s.accepted then 1 else 0
  done : ∀ j ∈ s.accepted, ∀ job, s.jobs.get j.id = some job → (job.done = true ↔ j ∈ s.published)
  freed : ∀ p, ¬ s.Live p → s.Clear p
  awake : ∀ b, s.budget = some b → b.queue ≠ [] →
    ∃ w worker, b.workers.get w = some worker ∧ worker ≠ .waiting ∧ worker ≠ .exited

/-- What a step can add to the records: one job at most, which it accepts, takes or publishes. -/
inductive Happens (label : Label) (s s' : State) : Prop
  | nothing (accepted : s'.accepted = s.accepted) (dequeued : s'.dequeued = s.dequeued)
      (published : s'.published = s.published)
      (jobs : ∀ id job', s'.jobs.get id = some job' →
        ∃ job, s.jobs.get id = some job ∧ job'.done = job.done ∧ job'.code = job.code)
  | accept (b : Budget) (p : PoolId) (woken : Option WorkerId) (here : s.budget = some b)
      (called : label = .call (.submit p true woken))
      (below : ∀ key q, b.pools.get key = some q → b.queued < q.capacity)
      (accepted : s'.accepted = s.accepted ++ [⟨s.nextJob, p⟩]) (dequeued : s'.dequeued = s.dequeued)
      (published : s'.published = s.published) (jobs : s'.jobs = s.jobs.insert s.nextJob .new)
  | dequeue (b : Budget) (w : WorkerId) (j : JobRef) (rest : List JobRef) (here : s.budget = some b)
      (worked : label = .worker w .test) (head : b.queue = j :: rest)
      (below : ∀ key q, b.pools.get key = some q → b.active < q.workerLimit)
      (accepted : s'.accepted = s.accepted) (dequeued : s'.dequeued = s.dequeued ++ [j])
      (published : s'.published = s.published) (jobs : s'.jobs = s.jobs)
  | publish (b : Budget) (w : WorkerId) (j : JobRef) (code : Int) (job : Job)
      (here : s.budget = some b) (worked : label = .worker w .publish)
      (present : b.workers.get w = some (.ran j code)) (found : s.jobs.get j.id = some job)
      (left : job.done = false) (accepted : s'.accepted = s.accepted)
      (dequeued : s'.dequeued = s.dequeued) (published : s'.published = s.published ++ [j])
      (jobs : s'.jobs = s.jobs.insert j.id
        { job with code := if job.cancelled then -9 else code, done := true })

def Frees (label : Label) (s s' : State) : Prop :=
  ∀ p, (label = .call (.poolFree p) ∨ label = .resume ∧ ∃ woken, s.owner = .freeing p woken) →
    (∃ woken, s'.owner = .freeing p woken) ∨ ¬ s'.Live p ∧ s.Clear p ∧ s'.Clear p

section

variable {s s' : State} {b : Budget} {w : WorkerId} {p : PoolId} {q : Pool} {label : Label}

theorem Good.served (good : Good s) : Served s where
  fifo := good.records.fifo
  queued b here := ⟨(good.counted b here).queued, (good.counted b here).counts⟩
  active b here := ⟨(good.counted b here).actives, (good.counted b here).busy⟩
  once j := by
    have once := good.records.once j
    rw [good.records.nodup.count] at once
    rw [← once]
    split_ifs <;> rfl
  done j member job found := by
    constructor
    · intro done
      by_contra left
      obtain ⟨other, same, pending⟩ := good.records.pending j member left
      rw [found] at same
      cases same
      rw [done] at pending
      cases pending
    · exact fun published => good.records.done j published job found
  freed p gone := by
    constructor
    · intro j member same
      cases here : s.budget with
      | none => simp [State.queue, here] at member
      | some b =>
        simp only [State.queue, here, Option.map_some, Option.getD_some] at member
        obtain ⟨q, present⟩ := (good.counted b here).pool_queued member
        exact gone ⟨b, q, here, same ▸ present⟩
    · intro b w worker here present on
      obtain ⟨q, found⟩ := (good.counted b here).pool_busy present on
      exact gone ⟨b, q, here, found⟩
  awake b here more := by
    rcases (good.threads b here).awake more with ⟨w, ready⟩ | some_active
    · exact ⟨w, .ready, ready, by simp, by simp⟩
    · obtain ⟨w, worker, present, on⟩ := (good.counted b here).someone_busy some_active
      refine ⟨w, worker, present, ?_, ?_⟩
      · rintro rfl
        exact on rfl
      · rintro rfl
        exact on rfl

theorem Happens.frame (accepted : s'.accepted = s.accepted) (dequeued : s'.dequeued = s.dequeued)
    (published : s'.published = s.published) (jobs : s'.jobs = s.jobs) : Happens label s s' := by
  apply Happens.nothing accepted dequeued published
  intro id job found
  rw [jobs] at found
  exact ⟨job, found, rfl, rfl⟩

theorem Happens.insert {id : Nat} {job job' : Job} (present : s.jobs.get id = some job)
    (same : job'.done = job.done ∧ job'.code = job.code) (accepted : s'.accepted = s.accepted)
    (dequeued : s'.dequeued = s.dequeued) (published : s'.published = s.published)
    (jobs : s'.jobs = s.jobs.insert id job') : Happens label s s' := by
  apply Happens.nothing accepted dequeued published
  intro key other found
  rw [jobs, get_insert] at found
  split_ifs at found with here
  · cases found
    exact ⟨job, here ▸ present, same⟩
  · exact ⟨other, found, rfl, rfl⟩

theorem Happens.erase {id : Nat} (accepted : s'.accepted = s.accepted)
    (dequeued : s'.dequeued = s.dequeued) (published : s'.published = s.published)
    (jobs : s'.jobs = s.jobs.erase id) : Happens label s s' := by
  apply Happens.nothing accepted dequeued published
  intro key other found
  rw [jobs, get_erase] at found
  split_ifs at found
  exact ⟨other, found, rfl, rfl⟩

theorem happens_poolNew (s : State) (a : NewPool) : Happens label s (hsIoPoolNew s a) := by
  unfold hsIoPoolNew
  cases a.refused with
  | true => exact .frame rfl rfl rfl rfl
  | false =>
    simp only [Bool.false_eq_true, if_false]
    split
    · exact .frame rfl rfl rfl rfl
    · split_ifs <;> exact .frame rfl rfl rfl rfl

theorem happens_freeTest (s : State) (b : Budget) (p : PoolId) (q : Pool) :
    Happens label s (s.freeTest b p q) := by
  unfold State.freeTest
  split_ifs <;> exact .frame rfl rfl rfl rfl

theorem happens_call {c : Call} (run : s.call c = some s') : Happens (.call c) s s' := by
  cases c with
  | poolNew a =>
    cases run
    exact happens_poolNew s a
  | poolFree p =>
    obtain ⟨b, q, here, present, inner⟩ := onPool_some run
    cases inner
    exact happens_freeTest s _ p _
  | submit p memory woken =>
    obtain ⟨b, q, here, present, inner⟩ := onPool_some run
    split_ifs at inner with enough
    · unfold hsIoSubmit at inner
      split_ifs at inner with refused
      · cases inner
        exact .frame rfl rfl rfl rfl
      · obtain ⟨workers, -, rfl⟩ := Option.map_eq_some_iff.mp inner
        obtain rfl : memory = true := enough
        refine .accept b p woken here rfl ?_ rfl rfl rfl rfl
        intro key other found
        have least : minLimit intMax Pool.capacity b.pools ≤ other.capacity := minLimit_le found
        have room := not_or.mp refused
        omega
    · cases inner
      exact .frame rfl rfl rfl rfl
  | cancel j =>
    obtain ⟨b, job, here, found, inner⟩ := onJob_some run
    cases inner
    refine .insert found ?_ rfl rfl rfl rfl
    exact ⟨rfl, rfl⟩
  | takeDirectoryCharge j =>
    obtain ⟨b, job, here, found, inner⟩ := onJob_some run
    split_ifs at inner
    cases inner
    refine .insert found ?_ rfl rfl rfl rfl
    exact ⟨rfl, rfl⟩
  | jobFree j =>
    obtain ⟨b, job, here, found, inner⟩ := onJob_some run
    split_ifs at inner
    cases inner
    exact .erase rfl rfl rfl rfl
  | reserve p directory bytes =>
    obtain ⟨b, q, here, present, inner⟩ := onPool_some run
    cases inner
    exact .frame rfl rfl rfl rfl
  | release p directory bytes =>
    obtain ⟨b, q, here, present, inner⟩ := onPool_some run
    cases inner
    exact .frame rfl rfl rfl rfl
  | connectionLimit p limit =>
    obtain ⟨b, q, here, present, inner⟩ := onPool_some run
    cases inner
    exact .frame rfl rfl rfl rfl
  | connectionAcquire =>
    cases run
    exact .frame rfl rfl rfl rfl
  | connectionRelease =>
    cases run
    exact .frame rfl rfl rfl rfl
  | bodyAcquire bytes =>
    simp only [State.call] at run
    split at run
    · cases run
      exact .frame rfl rfl rfl rfl
    · split at run <;> cases run <;> exact .frame rfl rfl rfl rfl
  | bodyRelease a =>
    simp only [State.call] at run
    split_ifs at run
    cases run
    exact .frame rfl rfl rfl rfl

theorem happens_work {worker : Worker} {move : Move} (good : Good s) (here : s.budget = some b)
    (present : b.workers.get w = some worker) (run : s.work b w worker move = some s') :
    Happens (.worker w move) s s' := by
  cases move with
  | wake =>
    simp only [State.work] at run
    split_ifs at run
    cases run
    exact .frame rfl rfl rfl rfl
  | test =>
    simp only [State.work] at run
    split_ifs at run
    cases run
    unfold State.workerTest
    split
    · exact .frame rfl rfl rfl rfl
    · rename_i j rest head
      split_ifs with full
      · exact .frame rfl rfl rfl rfl
      · refine .dequeue b w j rest here rfl head ?_ rfl rfl rfl rfl
        intro key q found
        have least : hsWorkerLimit b ≤ q.workerLimit := minLimit_le found
        -- a stopped budget has no queue, so that the limit was looked at
        have running : b.stopping = false := by
          rw [← Bool.not_eq_true]
          intro stopping
          rw [good.stopped_empty here stopping] at head
          cases head
        simp only [running, Bool.not_false, and_true] at full
        omega
  | look =>
    simp only [State.work] at run
    split at run
    · split at run <;> cases run
      exact .frame rfl rfl rfl rfl
    · cases run
  | charge name =>
    simp only [State.work] at run
    split at run
    · split at run
      · cases run
      · rename_i j job found
        cases run
        unfold State.charge
        split_ifs
        · exact .frame rfl rfl rfl rfl
        · split
          · exact .frame rfl rfl rfl rfl
          · refine .insert found ?_ rfl rfl rfl rfl
            exact ⟨rfl, rfl⟩
    · cases run
  | finish code =>
    simp only [State.work] at run
    split at run <;> cases run
    exact .frame rfl rfl rfl rfl
  | publish =>
    simp only [State.work] at run
    split at run
    · rename_i j code
      split at run
      · cases run
      · rename_i job found
        cases run
        obtain ⟨member, left, -, -⟩ := good.records.held_job (held_pos here present rfl)
        obtain ⟨other, same, pending⟩ := good.records.pending j member left
        rw [found] at same
        cases same
        exact .publish b w j code job here rfl present found pending rfl rfl rfl rfl
    · cases run
  | retire =>
    simp only [State.work] at run
    split at run <;> cases run
    exact .frame rfl rfl rfl rfl

theorem step_happens (good : Good s) (move : State.step label s = some s') : Happens label s s' := by
  cases label with
  | call c =>
    simp only [State.step] at move
    split at move
    · exact happens_call move
    · split_ifs at move with same
      rw [← same]
      exact happens_call move
    · cases move
  | resume =>
    simp only [State.step] at move
    split at move
    · obtain ⟨b, q, here, present, inner⟩ := onPool_some move
      cases inner
      exact happens_freeTest s b _ q
    · cases move
  | joined =>
    simp only [State.step] at move
    split at move
    · split_ifs at move
      cases move
      exact .frame rfl rfl rfl rfl
    · cases move
  | worker w turn =>
    simp only [State.step] at move
    split at move
    · cases move
    · split at move
      · cases move
      · exact happens_work good ‹_› ‹_› move

theorem Counted.clear (counted : Counted b) (here : s.budget = some b)
    (present : b.pools.get p = some q) (count : q.count = 0) (active : q.active = 0) : s.Clear p := by
  constructor
  · intro j member same
    simp only [State.queue, here, Option.map_some, Option.getD_some] at member
    have some_queued : 0 < b.queue.countP fun other => other.pool = p :=
      List.countP_pos_iff.mpr ⟨j, member, by simpa using same⟩
    have all := counted.count p
    rw [countOf_some present, count] at all
    omega
  · intro other w worker found on busy
    obtain rfl : b = other := by simpa [here] using found
    have part : busyOn p worker ≤ b.workers.sum fun _ => busyOn p :=
      le_sum on fun _ other _ => by
        unfold busyOn
        split_ifs <;> decide
    rw [← counted.active, activeOf_some present, active, busyOn, if_pos busy] at part
    exact absurd part (by decide)

-- `hs_io_pool_free` goes on only when its pool is at rest.
theorem freeTest_frees (s : State) (b : Budget) (p : PoolId) (q : Pool) :
    (∃ woken, (s.freeTest b p q).owner = .freeing p woken) ∨
      ¬ (s.freeTest b p q).Live p ∧ q.count = 0 ∧ q.active = 0 := by
  unfold State.freeTest
  split_ifs with waits
  · exact Or.inl ⟨false, rfl⟩
  · refine Or.inr ⟨?_, by simpa using waits⟩
    rintro ⟨b', q', here, present⟩
    cases here
    simp [Budget.unlink, get_erase] at present

theorem step_frees (good : Good s) (move : State.step label s = some s') : Frees label s s' := by
  intro p called
  have after := (good_step good move).served
  rcases called with rfl | ⟨rfl, woken, owner⟩
  · have run := poolFree_call move
    obtain ⟨b, q, here, present, inner⟩ := onPool_some run
    cases inner
    rcases freeTest_frees s _ p { q with stopping := true } with waits | ⟨gone, count, active⟩
    · exact Or.inl waits
    · exact Or.inr ⟨gone, (good.counted b here).clear here present count active, after.freed p gone⟩
  · simp only [State.step, owner] at move
    obtain ⟨b, q, here, present, inner⟩ := onPool_some move
    cases inner
    rcases freeTest_frees s b p q with waits | ⟨gone, count, active⟩
    · exact Or.inl waits
    · exact Or.inr ⟨gone, (good.counted b here).clear here present count active, after.freed p gone⟩

end

def Label.Works : Label → Prop
  | .worker _ .wake => False
  | .worker _ (.charge _) => False
  | .worker _ _ => True
  | _ => False

-- How far a worker is from waiting, where `n` workers may be woken when it is done.
def Worker.ahead (n : Int) : Worker → Int
  | .ready => 1
  | .waiting => 0
  | .taken _ => n + 5
  | .running _ => n + 4
  | .ran _ _ => n + 3
  | .published _ => n + 2
  | .exited => 0

def Budget.size (b : Budget) : Int := b.workers.sum fun _ _ => 1

def Budget.ahead (b : Budget) : Int :=
  b.queue.length * (b.size + 6) + b.workers.sum fun _ => Worker.ahead b.size

def State.ahead (s : State) : Nat := ((s.budget.map Budget.ahead).getD 0).toNat

section

variable {s s' : State} {b : Budget} {w : WorkerId} {p : PoolId} {label : Label}
  {old new : Worker}

theorem size_nonneg (b : Budget) : 0 ≤ b.size :=
  sum_nonneg fun _ _ _ => by decide

theorem ahead_nonneg (b : Budget) : 0 ≤ b.ahead := by
  have size := size_nonneg b
  have workers : 0 ≤ b.workers.sum fun _ => Worker.ahead b.size :=
    sum_nonneg fun _ worker _ => by
      cases worker <;> simp only [Worker.ahead] <;> omega
  have queue : 0 ≤ (b.queue.length : Int) * (b.size + 6) :=
    Int.mul_nonneg (Int.natCast_nonneg _) (by omega)
  exact Int.add_nonneg queue workers

theorem ahead_less {b' : Budget} (here : s.budget = some b) (next : s'.budget = some b')
    (less : b'.ahead < b.ahead) : s'.ahead < s.ahead := by
  have least := ahead_nonneg b'
  simp only [State.ahead, here, next, Option.map_some, Option.getD_some]
  omega

theorem size_insert (present : b.workers.get w = some old) :
    (b.workers.insert w new).sum (fun _ _ => (1 : Int)) = b.size := by
  rw [sum_insert present]
  exact sub_add_cancel _ _

theorem setWorker_ahead (here : s.budget = some b) (present : b.workers.get w = some old)
    (less : new.ahead b.size < old.ahead b.size) : (s.setWorker b w new).ahead < s.ahead := by
  apply ahead_less here rfl
  simp only [Budget.ahead, Budget.size]
  rw [size_insert present, sum_insert present]
  have same : (b.workers.sum fun _ _ => (1 : Int)) = b.size := rfl
  rw [same]
  omega

theorem dequeue_ahead {b' : Budget} {j : JobRef} {rest : List JobRef} (here : s.budget = some b)
    (next : s'.budget = some b') (free : b.workers.get w = some .ready) (head : b.queue = j :: rest)
    (queue : b'.queue = rest) (workers : b'.workers = b.workers.insert w (.taken j)) :
    s'.ahead < s.ahead := by
  apply ahead_less here next
  have size : b'.size = b.size := by
    rw [Budget.size, workers]
    exact size_insert free
  have longer : ((rest.length + 1 : Nat) : Int) * (b.size + 6) =
      rest.length * (b.size + 6) + (b.size + 6) := by
    rw [Int.natCast_add, Int.add_mul]
    simp
  simp only [Budget.ahead, size, queue, workers, head, List.length_cons]
  rw [sum_insert free, longer]
  simp only [Worker.ahead]
  omega

theorem retire_ahead (here : s.budget = some b) (done : b.workers.get w = some (.published p)) :
    (s.retire b w p).ahead < s.ahead := by
  apply ahead_less here rfl
  have woken : ((b.workers.insert w .ready).sum fun _ worker => worker.wake.ahead b.size) ≤
      (b.workers.insert w .ready).sum fun _ worker => worker.ahead b.size + 1 :=
    sum_mono fun _ worker _ => by
      cases worker <;> simp only [Worker.wake, Worker.ahead] <;> omega
  have total : ((b.workers.insert w .ready).sum fun _ worker => worker.ahead b.size) =
      (b.workers.sum fun _ => Worker.ahead b.size) - (b.size + 2) + 1 := sum_insert done _
  rw [sum_add, size_insert done, total] at woken
  simp only [Budget.ahead, Budget.size, sum_mapValues]
  rw [size_insert done]
  have same : (b.workers.sum fun _ _ => (1 : Int)) = b.size := rfl
  rw [same]
  apply Int.add_lt_add_left
  omega

theorem works_ahead (mine : label.Works) (move : State.step label s = some s') :
    s'.ahead < s.ahead := by
  cases label with
  | call c => cases mine
  | resume => cases mine
  | joined => cases mine
  | worker w turn =>
    simp only [State.step] at move
    split at move
    · cases move
    · rename_i b here
      split at move
      · cases move
      · rename_i worker present
        cases turn with
        | wake => cases mine
        | charge name => cases mine
        | test =>
          simp only [State.work] at move
          split_ifs at move with ready
          cases move
          subst ready
          unfold State.workerTest
          split
          · apply setWorker_ahead here present
            split_ifs <;> simp [Worker.ahead]
          · rename_i j rest head
            split_ifs
            · apply setWorker_ahead here present
              simp [Worker.ahead]
            · exact dequeue_ahead here rfl present head rfl rfl
        | look =>
          simp only [State.work] at move
          split at move
          · split at move <;> cases move
            apply setWorker_ahead here present
            split_ifs <;> simp [Worker.ahead]
          · cases move
        | finish code =>
          simp only [State.work] at move
          split at move <;> cases move
          apply setWorker_ahead here present
          simp [Worker.ahead]
        | publish =>
          simp only [State.work] at move
          split at move
          · split at move <;> cases move
            apply setWorker_ahead here present
            simp [Worker.ahead]
          · cases move
        | retire =>
          simp only [State.work] at move
          split at move <;> cases move
          exact retire_ahead here present

-- Where no worker can go on, everything that was accepted is published.
theorem Good.rest_published (good : Good s) (rests : executor.Rests Label.Works s) {j : JobRef}
    (member : j ∈ s.accepted) : s.published.count j = 1 := by
  have idle : ∀ b w worker, s.budget = some b → b.workers.get w = some worker →
      worker ≠ .ready ∧ worker.pool? = none := by
    intro b w worker here present
    have stuck : ∀ turn, (Label.worker w turn).Works → s.work b w worker turn = none := by
      intro turn mine
      have none := rests (.worker w turn) mine
      simpa only [executor, State.step, here, present] using none
    have known : ∀ j, worker.job? = some j → ∃ job, s.jobs.get j.id = some job := by
      intro j job
      obtain ⟨accepted, left, -, -⟩ := good.records.held_job (held_pos here present job)
      obtain ⟨record, found, -⟩ := good.records.pending j accepted left
      exact ⟨record, found⟩
    cases worker with
    | ready =>
      have none := stuck .test trivial
      simp [State.work] at none
    | waiting => exact ⟨by simp, rfl⟩
    | taken j =>
      have none := stuck .look trivial
      obtain ⟨job, found⟩ := known j rfl
      simp [State.work, found] at none
    | running j =>
      have none := stuck (.finish 0) trivial
      simp [State.work] at none
    | ran j code =>
      have none := stuck .publish trivial
      obtain ⟨job, found⟩ := known j rfl
      simp [State.work, found] at none
    | published p =>
      have none := stuck .retire trivial
      simp [State.work] at none
    | exited => exact ⟨by simp, rfl⟩
  have once := good.records.once j
  rw [good.records.nodup.count, if_pos member] at once
  have held : s.held j = 0 := by
    cases here : s.budget with
    | none => simp [State.held, here]
    | some b =>
      simp only [State.held, here, Option.map_some, Option.getD_some]
      apply sum_eq_zero
      intro w worker present
      obtain ⟨-, off⟩ := idle b w worker here present
      rw [holds, if_neg]
      cases worker <;> simp_all [Worker.pool?, Worker.job?]
  have queue : s.queue = [] := by
    cases here : s.budget with
    | none => simp [State.queue, here]
    | some b =>
      simp only [State.queue, here, Option.map_some, Option.getD_some]
      by_contra more
      rcases (good.threads b here).awake more with ⟨w, ready⟩ | some_active
      · exact (idle b w _ here ready).1 rfl
      · obtain ⟨w, worker, present, on⟩ := (good.counted b here).someone_busy some_active
        exact on (idle b w worker here present).2
  rw [held, queue] at once
  simp only [List.count_nil] at once
  omega

end

/-- Safe at every moment, orderly in every step; and the workers by themselves, however they
are scheduled, come to a rest at which every accepted job is published. -/
theorem executor_safe {s : State} (reached : executor.Reachable s) :
    Served s ∧
      (∀ label s', State.step label s = some s' → Happens label s s' ∧ Frees label s s') ∧
      ∃ bound, ∀ labels last, (∀ label ∈ labels, label.Works) → executor.Path s labels last →
        labels.length ≤ bound ∧
          (executor.Rests Label.Works last → ∀ j ∈ last.accepted, last.published.count j = 1) := by
  have good := reachable_good reached
  refine ⟨good.served, fun label s' move => ⟨step_happens good move, step_frees good move⟩, s.ahead, ?_⟩
  intro labels last mine path
  constructor
  · have far := path.length_le (fun s label next own move => works_ahead own move) mine
    omega
  · intro rests j member
    exact (reachable_good (reached.path path)).rest_published rests member

def serving : List Label :=
  [.call (.poolNew ⟨1, 2, 65536, 65536, true, true, true, 1⟩), .worker 0 .test,
    .call (.submit 0 true (some 0)), .worker 0 .test, .call (.submit 0 true none)]

theorem executor_safe_serving :
    ∃ s, executor.exec serving .initial = some s ∧ s.queue = [⟨1, 0⟩] ∧ s.dequeued = [⟨0, 0⟩] ∧
      Served s := by
  have run : (executor.exec serving .initial).map (fun s => (s.queue, s.dequeued)) =
      some ([⟨1, 0⟩], [⟨0, 0⟩]) := by decide +kernel
  obtain ⟨s, exec, now⟩ := Option.map_eq_some_iff.mp run
  obtain ⟨queue, dequeued⟩ := Prod.mk.inj now
  exact ⟨s, exec, queue, dequeued, (executor_safe (Machine.reachable_of_exec exec)).1⟩

end HttpServer.Native
