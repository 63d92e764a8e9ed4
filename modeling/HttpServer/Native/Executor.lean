import HttpServer.Library.OrderedMap
import HttpServer.Library.Transition

set_option autoImplicit false

/-!
# The native executor

One owner thread creates pools and submits jobs. All its pools share one budget, with one queue and
one set of workers, that lives as long as there is a pool. What a thread does under the mutex of the
budget, or of a pool, is one step.
-/

namespace HttpServer.Native

abbrev PoolId := Nat

abbrev WorkerId := Nat

/-- A job as its pointer: the fields that never change. -/
structure JobRef where
  id : Nat
  pool : PoolId
  deriving DecidableEq

structure Job where
  cancelled : Bool
  done : Bool
  code : Int
  directoryCharge : Int
  deriving DecidableEq

structure Pool where
  capacity : Int
  workerLimit : Int
  connectionLimit : Int
  bodyLimit : Int
  directoryLimit : Int
  stopping : Bool
  count : Int
  active : Int
  bodyOwned : Int
  directoryOwned : Int
  deriving DecidableEq

/-- Where a worker is in its loop: before the test of its waiting loop, in `hs_wait`, or with a
job taken from the queue, at work, with a result, and with the result published. -/
inductive Worker where
  | ready
  | waiting
  | taken (job : JobRef)
  | running (job : JobRef)
  | ran (job : JobRef) (code : Int)
  | published (pool : PoolId)
  | exited
  deriving DecidableEq

structure Budget where
  stopping : Bool
  refs : Int
  queued : Int
  active : Int
  connections : Int
  body : Int
  directory : Int
  threadCount : Nat
  pools : OrderedMap PoolId Pool
  queue : List JobRef
  workers : OrderedMap WorkerId Worker

/-- What the owner thread is at: `failed` is a creation that falls short of threads and frees its
pool, `freeing` the wait of `hs_io_pool_free`, `joining` the wait for the workers to end. -/
inductive Owner where
  | idle
  | failed (pool : PoolId)
  | freeing (pool : PoolId) (woken : Bool)
  | joining
  deriving DecidableEq

/-- A body charge that is not released yet, and the budget it was taken from. -/
structure Acquire where
  serial : Nat
  bytes : Int
  deriving DecidableEq

/-- `budget` is `hs_owner_budget`. The counters of pools, jobs and budgets give fresh names;
`accepted`, `dequeued`, `published` and `acquires` record what happened. -/
structure State where
  budget : Option Budget
  jobs : OrderedMap Nat Job
  owner : Owner
  nextPool : PoolId
  nextJob : Nat
  serial : Nat
  accepted : List JobRef
  dequeued : List JobRef
  published : List JobRef
  acquires : List Acquire

def State.initial : State where
  budget := none
  jobs := ∅
  owner := .idle
  nextPool := 0
  nextJob := 0
  serial := 0
  accepted := []
  dequeued := []
  published := []
  acquires := []

def intMax : Int := 2147483647

def int64Max : Int := 9223372036854775807

def minLimit (start : Int) (limit : Pool → Int) (pools : OrderedMap PoolId Pool) : Int :=
  pools.values.foldl (fun least q => if limit q < least then limit q else least) start

def hsWorkerLimit (b : Budget) : Int := minLimit 64 Pool.workerLimit b.pools

def Pool.limit (directory : Bool) (p : Pool) : Int :=
  if directory then p.directoryLimit else p.bodyLimit

def Pool.owned (directory : Bool) (p : Pool) : Int :=
  if directory then p.directoryOwned else p.bodyOwned

def Pool.own (directory : Bool) (bytes : Int) (p : Pool) : Pool :=
  if directory then { p with directoryOwned := p.directoryOwned + bytes }
  else { p with bodyOwned := p.bodyOwned + bytes }

def Budget.used (b : Budget) (directory : Bool) : Int := if directory then b.directory else b.body

def Budget.use (b : Budget) (directory : Bool) (bytes : Int) : Budget :=
  if directory then { b with directory := b.directory + bytes }
  else { b with body := b.body + bytes }

-- A reservation, or `none` where it is refused.
def hsIoReserve (b : Budget) (p : PoolId) (directory : Bool) (bytes : Int) : Option Budget :=
  let limit := minLimit int64Max (Pool.limit directory) b.pools
  if bytes < 0 ∨ limit - bytes < b.used directory then none
  else some { b.use directory bytes with pools := b.pools.modify p (Pool.own directory bytes) }

-- More than is owned is not given back at all.
def hsIoRelease (b : Budget) (p : PoolId) (directory : Bool) (bytes : Int) : Budget :=
  match b.pools.get p with
  | none => b
  | some q =>
      if 0 ≤ bytes ∧ bytes ≤ q.owned directory then
        { b.use directory (-bytes) with pools := b.pools.modify p (Pool.own directory (-bytes)) }
      else b

def hsIoConnectionAcquire (b : Budget) : Option Budget :=
  if b.connections < minLimit intMax Pool.connectionLimit b.pools then
    some { b with connections := b.connections + 1 }
  else none

def hsIoConnectionRelease (b : Budget) : Budget :=
  if 0 < b.connections then { b with connections := b.connections - 1 } else b

def hsIoBodyAcquire (b : Budget) (bytes : Int) : Option Budget :=
  if bytes < 0 then none
  else if b.body ≤ minLimit int64Max Pool.bodyLimit b.pools - bytes then
    some { b with body := b.body + bytes }
  else none

def hsIoBodyRelease (b : Budget) (bytes : Int) : Budget :=
  if 0 ≤ bytes ∧ bytes ≤ b.body then { b with body := b.body - bytes } else b

-- What `hs_list` reserves first, and `hs_add_name` for a name with its terminating zero.
def chargeOf : Option Nat → Int
  | none => 65536
  | some n => n * 32 + 2048

def Worker.wake : Worker → Worker
  | .waiting => .ready
  | worker => worker

def Owner.wake : Owner → Owner
  | .freeing p _ => .freeing p true
  | owner => owner

-- `hs_wake_all`, which leaves the budget as `b`.
def State.wakeAll (s : State) (b : Budget) : State :=
  { s with
    budget := some { b with workers := b.workers.mapValues fun _ => Worker.wake }
    owner := s.owner.wake }

-- `WAKE`: one of those that wait.
def signal (workers : OrderedMap WorkerId Worker) : Option WorkerId → Option (OrderedMap WorkerId Worker)
  | some w => if workers.get w = some .waiting then some (workers.insert w .ready) else none
  | none => if .waiting ∈ workers.values then none else some workers

/-- The arguments of `hs_io_pool_new`, and how much memory and how many threads the system has. -/
structure NewPool where
  count : Int
  capacity : Int
  bodyLimit : Int
  directoryLimit : Int
  supported : Bool
  poolMemory : Bool
  budgetMemory : Bool
  threads : Nat
  deriving DecidableEq

def NewPool.refused (a : NewPool) : Bool :=
  a.count < 1 || 64 < a.count || a.capacity < 1 || !a.supported || !a.poolMemory

def NewPool.pool (a : NewPool) : Pool where
  capacity := a.capacity
  workerLimit := a.count
  connectionLimit := 1024
  bodyLimit := a.bodyLimit
  directoryLimit := a.directoryLimit
  stopping := false
  count := 0
  active := 0
  bodyOwned := 0
  directoryOwned := 0

def Budget.fresh : Budget where
  stopping := false
  refs := 0
  queued := 0
  active := 0
  connections := 0
  body := 0
  directory := 0
  threadCount := 0
  pools := ∅
  queue := []
  workers := ∅

def Budget.start (b : Budget) : Nat → Budget
  | 0 => b
  | more + 1 =>
      Budget.start { b with
        workers := b.workers.insert b.threadCount .ready
        threadCount := b.threadCount + 1 } more

def State.link (s : State) (b : Budget) (a : NewPool) : State :=
  let p := s.nextPool
  let b := { b with pools := b.pools.insert p a.pool, refs := b.refs + 1 }
  let b := b.start (min a.threads (a.count.toNat - b.threadCount))
  { s with
    budget := some b
    nextPool := p + 1
    owner := if a.count ≤ b.threadCount then .idle else .failed p }

def hsIoPoolNew (s : State) (a : NewPool) : State :=
  if a.refused then s
  else
    match s.budget with
    | some b => s.link b a
    | none => if a.budgetMemory then { s with serial := s.serial + 1 }.link .fresh a else s

def Budget.unlink (b : Budget) (p : PoolId) (q : Pool) : Budget :=
  let refs := b.refs - 1
  { b with
    body := b.body - q.bodyOwned
    directory := b.directory - q.directoryOwned
    pools := b.pools.erase p
    refs
    stopping := b.stopping || refs = 0 }

-- The waiting loop of `hs_io_pool_free` from its test on, and what follows.
def State.freeTest (s : State) (b : Budget) (p : PoolId) (q : Pool) : State :=
  if q.count ≠ 0 ∨ q.active ≠ 0 then { s with budget := some b, owner := .freeing p false }
  else
    let b := b.unlink p q
    { s.wakeAll b with owner := if b.refs = 0 then .joining else .idle }

def hsIoPoolFree (s : State) (b : Budget) (p : PoolId) (q : Pool) : State :=
  let q := { q with stopping := true }
  s.freeTest { b with pools := b.pools.insert p q } p q

def Job.new : Job where
  cancelled := false
  done := false
  code := 0
  directoryCharge := 0

-- A submission, or `none` where it cannot wake the worker that it is said to wake.
def hsIoSubmit (s : State) (b : Budget) (p : PoolId) (q : Pool) (woken : Option WorkerId) :
    Option State :=
  if q.stopping ∨ minLimit intMax Pool.capacity b.pools ≤ b.queued then some s
  else
    let j : JobRef := ⟨s.nextJob, p⟩
    (signal b.workers woken).map fun workers =>
      { s with
        budget := some { b with
          queue := b.queue ++ [j]
          queued := b.queued + 1
          pools := b.pools.insert p { q with count := q.count + 1 }
          workers }
        jobs := s.jobs.insert j.id .new
        nextJob := s.nextJob + 1
        accepted := s.accepted ++ [j] }

def hsIoJobFree (s : State) (b : Budget) (j : JobRef) (job : Job) : State :=
  { s with
    budget := some (hsIoRelease b j.pool true job.directoryCharge)
    jobs := s.jobs.erase j.id }

def State.setWorker (s : State) (b : Budget) (w : WorkerId) (worker : Worker) : State :=
  { s with budget := some { b with workers := b.workers.insert w worker } }

-- The waiting loop of `hs_worker` from its test on, and what follows.
def State.workerTest (s : State) (b : Budget) (w : WorkerId) : State :=
  match b.queue with
  | [] => s.setWorker b w (if b.stopping then .exited else .waiting)
  | j :: rest =>
      if hsWorkerLimit b ≤ b.active ∧ !b.stopping then s.setWorker b w .waiting
      else
        { s.setWorker { b with
            queue := rest
            queued := b.queued - 1
            active := b.active + 1
            pools := b.pools.modify j.pool fun p =>
              { p with count := p.count - 1, active := p.active + 1 } } w (.taken j) with
          dequeued := s.dequeued ++ [j] }

def State.charge (s : State) (b : Budget) (j : JobRef) (job : Job) (bytes : Int) : State :=
  if intMax - job.directoryCharge < bytes then s
  else
    match hsIoReserve b j.pool true bytes with
    | none => s
    | some b =>
        { s with
          budget := some b
          jobs := s.jobs.insert j.id { job with directoryCharge := job.directoryCharge + bytes } }

def State.publish (s : State) (b : Budget) (w : WorkerId) (j : JobRef) (job : Job) (code : Int) : State :=
  { s.setWorker b w (.published j.pool) with
    jobs := s.jobs.insert j.id
      { job with code := if job.cancelled then -9 else code, done := true }
    published := s.published ++ [j] }

def State.retire (s : State) (b : Budget) (w : WorkerId) (p : PoolId) : State :=
  s.wakeAll { b with
    active := b.active - 1
    pools := b.pools.modify p fun p => { p with active := p.active - 1 }
    workers := b.workers.insert w .ready }

/-- What the owner thread calls. A job is freed, and its charge taken over, once it is done. -/
inductive Call where
  | poolNew (arguments : NewPool)
  | poolFree (pool : PoolId)
  | submit (pool : PoolId) (memory : Bool) (woken : Option WorkerId)
  | cancel (job : JobRef)
  | takeDirectoryCharge (job : JobRef)
  | jobFree (job : JobRef)
  | reserve (pool : PoolId) (directory : Bool) (bytes : Int)
  | release (pool : PoolId) (directory : Bool) (bytes : Int)
  | connectionLimit (pool : PoolId) (limit : Int)
  | connectionAcquire
  | connectionRelease
  | bodyAcquire (bytes : Int)
  | bodyRelease (acquire : Acquire)
  deriving DecidableEq

/-- `look` reads whether the job is cancelled, `charge` is a reservation while a directory is read
(of `hs_list`, or of `hs_add_name` for a name of that many bytes), `wake` a wake-up without a
cause. -/
inductive Move where
  | wake
  | test
  | look
  | charge (name : Option Nat)
  | finish (code : Int)
  | publish
  | retire
  deriving DecidableEq

inductive Label where
  | call (call : Call)
  | resume
  | joined
  | worker (id : WorkerId) (move : Move)
  deriving DecidableEq

namespace State

-- A call on a pool is made with a pool that was returned and not freed.
def onPool (s : State) (p : PoolId) (run : Budget → Pool → Option State) : Option State :=
  match s.budget with
  | none => none
  | some b =>
      match b.pools.get p with
      | none => none
      | some q => run b q

def onJob (s : State) (j : JobRef) (run : Budget → Job → Option State) : Option State :=
  s.onPool j.pool fun b _ =>
    match s.jobs.get j.id with
    | none => none
    | some job => run b job

def call (s : State) : Call → Option State
  | .poolNew a => some (hsIoPoolNew s a)
  | .poolFree p => s.onPool p fun b q => some (hsIoPoolFree s b p q)
  | .submit p memory woken =>
      s.onPool p fun b q => if memory then hsIoSubmit s b p q woken else some s
  | .cancel j =>
      s.onJob j fun _ job =>
        some { s with jobs := s.jobs.insert j.id { job with cancelled := true } }
  | .takeDirectoryCharge j =>
      s.onJob j fun _ job =>
        if job.done then
          some { s with jobs := s.jobs.insert j.id { job with directoryCharge := 0 } }
        else none
  | .jobFree j => s.onJob j fun b job => if job.done then some (hsIoJobFree s b j job) else none
  | .reserve p directory bytes =>
      s.onPool p fun b _ =>
        some { s with budget := some ((hsIoReserve b p directory bytes).getD b) }
  | .release p directory bytes =>
      s.onPool p fun b _ => some { s with budget := some (hsIoRelease b p directory bytes) }
  | .connectionLimit p limit =>
      s.onPool p fun b q =>
        some { s with
          budget := some { b with pools := b.pools.insert p { q with connectionLimit := limit } } }
  | .connectionAcquire =>
      some { s with budget := s.budget.map fun b => (hsIoConnectionAcquire b).getD b }
  | .connectionRelease => some { s with budget := s.budget.map hsIoConnectionRelease }
  | .bodyAcquire bytes =>
      match s.budget with
      | none => some s
      | some b =>
          match hsIoBodyAcquire b bytes with
          | none => some s
          | some b =>
              some { s with budget := some b, acquires := ⟨s.serial, bytes⟩ :: s.acquires }
  | .bodyRelease a =>
      if a ∈ s.acquires then
        some { s with
          budget := s.budget.map fun b => hsIoBodyRelease b a.bytes
          acquires := s.acquires.erase a }
      else none

def work (s : State) (b : Budget) (w : WorkerId) (worker : Worker) : Move → Option State
  | .wake => if worker = .waiting then some (s.setWorker b w .ready) else none
  | .test => if worker = .ready then some (s.workerTest b w) else none
  | .look =>
      match worker with
      | .taken j =>
          match s.jobs.get j.id with
          | none => none
          | some job => some (s.setWorker b w (if job.cancelled then .ran j (-9) else .running j))
      | _ => none
  | .charge name =>
      match worker with
      | .running j =>
          match s.jobs.get j.id with
          | none => none
          | some job => some (s.charge b j job (chargeOf name))
      | _ => none
  | .finish code =>
      match worker with
      | .running j => some (s.setWorker b w (.ran j code))
      | _ => none
  | .publish =>
      match worker with
      | .ran j code =>
          match s.jobs.get j.id with
          | none => none
          | some job => some (s.publish b w j job code)
      | _ => none
  | .retire =>
      match worker with
      | .published p => some (s.retire b w p)
      | _ => none

def step : Label → State → Option State
  | .call c, s =>
      match s.owner, c with
      | .idle, c => s.call c
      -- a creation that falls short of threads goes on to free its pool
      | .failed p, .poolFree q => if p = q then s.call (.poolFree p) else none
      | _, _ => none
  | .resume, s =>
      match s.owner with
      | .freeing p _ => s.onPool p fun b q => some (s.freeTest b p q)
      | _ => none
  | .joined, s =>
      match s.owner, s.budget with
      | .joining, some b =>
          if b.workers.values.all (· = .exited) then some { s with budget := none, owner := .idle }
          else none
      | _, _ => none
  | .worker w move, s =>
      match s.budget with
      | none => none
      | some b =>
          match b.workers.get w with
          | none => none
          | some worker => s.work b w worker move

end State

def executor : Machine State Label where
  init := .initial
  step := State.step

end HttpServer.Native
