import HttpServer.CAbi.Steps

set_option autoImplicit false

/-!
# What is charged is returned once

The books of a memory read off as equations: every counter says how many objects it counts, and
what was charged for an object is what the object records until it is freed.
-/

namespace HttpServer.CAbi

namespace Memory

variable {m : Memory}

def recorded (m : Memory) : Int :=
  (m.ops.sum fun _ => Operation.bytes) + (m.responses.sum fun _ => Response.metadataCharge) +
    m.chunks.sum fun _ => Chunk.length

def recordedTo (m : Memory) (i : Key) : Int :=
  (m.ops.sum fun _ o => if o.owner = i then o.bytes else 0) +
    (m.responses.sum fun _ r => if r.owner = i then r.metadataCharge else 0) +
    m.chunks.sum fun _ c => if c.owner = i then c.length else 0

def recordedFor (m : Memory) : Holder → Int
  | .operation k => (m.ops.get k).elim 0 Operation.bytes
  | .response k => (m.responses.get k).elim 0 Response.metadataCharge
  | .chunk k => (m.chunks.get k).elim 0 Chunk.length

/-- The host has returned every handle and every operation is freed. -/
structure Released (m : Memory) : Prop where
  ops : ∀ k, m.ops.get k = none
  responses : ∀ k r, m.responses.get k = some r → r.held = 0
  chunks : ∀ k c, m.chunks.get k = some c → c.held = 0

structure Cleared (m : Memory) : Prop where
  retained : m.retained = 0
  activeOps : m.activeOps = 0
  responses : ∀ k, m.responses.get k = none
  chunks : ∀ k, m.chunks.get k = none
  counters : ∀ i s, m.insts.get i = some s →
    s.active = 0 ∧ s.notifications = 0 ∧ s.responseCount = 0 ∧ s.charged = 0

structure Conserved (m : Memory) : Prop where
  retained : m.retained = m.recorded
  cap : m.retained ≤ cap
  charged : ∀ i s, m.insts.get i = some s → s.charged = m.recordedTo i
  held : ∀ holder, ¬m.Gone holder →
    bytesFor holder m.charges = m.recordedFor holder ∧ ∀ bytes, (holder, bytes) ∉ m.refunds
  returned : ∀ holder, m.Gone holder → bytesFor holder m.refunds = bytesFor holder m.charges
  activeOps : m.activeOps = m.ops.count fun o => !o.finished
  instances : m.instances = m.live.length
  counters : ∀ i s, m.insts.get i = some s →
    s.active = m.ops.count (fun o => o.owner = i && !o.done) ∧
      s.notifications = m.ops.count (fun o => o.owner = i && !o.finished) ∧
      s.responseCount = m.responses.count (fun r => r.owner = i)
  chunks : ∀ k r, m.responses.get k = some r → r.chunks = m.chunks.count fun c => c.response = k
  cleared : m.Released → m.Cleared

theorem Ledger.accounts {d : Account → Int} (ledger : Ledger d m) (a : Account) :
    m.base a + (m.insts.sum fun k s => s.net k a) + (m.ops.sum fun k o => o.net k a) +
      (m.responses.sum fun k r => r.net k a) + (m.chunks.sum fun k c => c.net k a) = d a := by
  rw [← ledger.balance a, total_eq, OrderedMap.sum_apply, OrderedMap.sum_apply,
    OrderedMap.sum_apply, OrderedMap.sum_apply]

theorem retained_eq (books : m.Books) : m.retained = m.recorded := by
  have account := books.accounts .retained
  simp only [base, Instance.net, Operation.net, Response.net, Chunk.net, OrderedMap.sum_zero,
    OrderedMap.sum_neg] at account
  unfold recorded
  omega

theorem sum_owed {α : Type} (objects : OrderedMap Key α) (owned : α → Prop) [DecidablePred owned]
    (weight : α → Int) : (objects.sum fun _ v => if owned v then -weight v else 0) =
      -objects.sum fun _ v => if owned v then weight v else 0 := by
  rw [← OrderedMap.sum_neg]
  congr 1
  funext _ v
  split_ifs <;> rfl

theorem sum_own {α : Type} (objects : OrderedMap Key α) (k : Key) (weight : α → Int) :
    (objects.sum fun key v => if key = k then weight v else 0) =
      (objects.get k).elim 0 weight := by
  rw [OrderedMap.sum_single objects k]
  · simp
  · simp +contextual

theorem sum_one {α : Type} (objects : OrderedMap Key α) (P : α → Bool) (Q : α → Prop)
    [DecidablePred Q] (same : ∀ v, Q v ↔ P v = true) :
    (objects.sum fun _ v => -one (Q v)) = -(objects.count P : Int) := by
  rw [← OrderedMap.sum_count, ← OrderedMap.sum_neg]
  simp only [one, same]

theorem charged_eq (books : m.Books) {i : Key} {s : Instance} (found : m.insts.get i = some s) :
    s.charged = m.recordedTo i := by
  have account := books.accounts (.charged i)
  simp only [base, Instance.net, Operation.net, Response.net, Chunk.net, sum_own, sum_owed, found,
    Option.elim_some] at account
  unfold recordedTo
  omega

theorem elim_neg {α : Type} (value : Option α) (weight : α → Int) :
    (value.elim 0 fun v => -weight v) = -value.elim 0 weight := by
  cases value <;> simp

theorem dues_eq (books : m.Books) (holder : Holder) :
    bytesFor holder m.charges - bytesFor holder m.refunds = m.recordedFor holder := by
  have account := books.accounts (.dues holder)
  cases holder <;> simp only [base, Instance.net, Operation.net, Response.net, Chunk.net,
    Holder.operation.injEq, Holder.response.injEq, Holder.chunk.injEq, reduceCtorEq, if_false,
    OrderedMap.sum_zero, sum_own, elim_neg] at account
  all_goals
    simp only [recordedFor]
    omega

theorem bytesFor_absent {holder : Holder} {entries : List (Holder × Int)}
    (absent : ∀ bytes, (holder, bytes) ∉ entries) : bytesFor holder entries = 0 := by
  have none : (entries.filter fun entry => entry.1 = holder) = [] := by
    rw [List.filter_eq_nil_iff]
    rintro ⟨other, bytes⟩ member same
    simp only [decide_eq_true_eq] at same
    exact absent bytes (same ▸ member)
  simp [bytesFor, none]

theorem recordedFor_gone {holder : Holder} (gone : m.Gone holder) : m.recordedFor holder = 0 := by
  cases holder <;> simp [recordedFor, gone.2]

theorem counters_eq (books : m.Books) {i : Key} {s : Instance} (found : m.insts.get i = some s) :
    s.active = m.ops.count (fun o => o.owner = i && !o.done) ∧
      s.notifications = m.ops.count (fun o => o.owner = i && !o.finished) ∧
      s.responseCount = m.responses.count (fun r => r.owner = i) := by
  have active := books.accounts (.active i)
  have notifications := books.accounts (.notifications i)
  have responseCount := books.accounts (.responseCount i)
  simp only [base, Instance.net, Operation.net, Response.net, Chunk.net, sum_own, found,
    Option.elim_some, OrderedMap.sum_zero] at active notifications responseCount
  rw [sum_one m.ops (fun o => o.owner = i && !o.done) _ (by simp)] at active
  rw [sum_one m.ops (fun o => o.owner = i && !o.finished) _ (by simp)] at notifications
  rw [sum_one m.responses (fun r => r.owner = i) _ (by simp)] at responseCount
  omega

-- Without operations the host's handles are all that keeps a chunk or a response.
theorem cleared_of_released (books : m.Books) (released : m.Released) : m.Cleared := by
  have ops : m.ops = ∅ := OrderedMap.eq_empty released.ops
  have chunks : ∀ k, m.chunks.get k = none := by
    intro k
    by_contra present
    obtain ⟨c, found⟩ := Option.ne_none_iff_exists'.mp present
    have owner := books.chunkOwner found
    rw [released.chunks k c found, carriers, ops, OrderedMap.sum_empty] at owner
    omega
  have unchunked : m.chunks = ∅ := OrderedMap.eq_empty chunks
  have responses : ∀ k, m.responses.get k = none := by
    intro k
    by_contra present
    obtain ⟨r, found⟩ := Option.ne_none_iff_exists'.mp present
    have refs := books.responseRefs found
    have positive := (books.sound.responses k r found).refs
    rw [released.responses k r found, users, ops, unchunked, OrderedMap.sum_empty,
      OrderedMap.sum_empty] at refs
    simp only [Pi.zero_apply] at refs
    omega
  have unanswered : m.responses = ∅ := OrderedMap.eq_empty responses
  refine ⟨?_, ?_, responses, chunks, fun i s found => ?_⟩
  · simp [retained_eq books, recorded, ops, unchunked, unanswered]
  · have account := books.accounts .activeOps
    simpa [base, Instance.net, Response.net, Chunk.net, ops] using account
  · have counters := counters_eq books found
    have charged := charged_eq books found
    simp only [ops, unanswered, OrderedMap.count_empty] at counters
    refine ⟨counters.1, counters.2.1, counters.2.2, ?_⟩
    simp [charged, recordedTo, ops, unchunked, unanswered]

theorem Ledger.conserved (books : m.Books) : m.Conserved where
  retained := retained_eq books
  cap := books.sound.cap
  charged _ _ found := charged_eq books found
  held holder present := by
    have absent (bytes : Int) : (holder, bytes) ∉ m.refunds :=
      fun member => present (books.sound.refunded _ member)
    have dues := dues_eq books holder
    rw [bytesFor_absent absent] at dues
    exact ⟨by omega, absent⟩
  returned holder gone := by
    have dues := dues_eq books holder
    rw [recordedFor_gone gone] at dues
    omega
  activeOps := by
    have account := books.accounts .activeOps
    simp only [base, Instance.net, Operation.net, Response.net, Chunk.net, OrderedMap.sum_zero]
      at account
    rw [sum_one m.ops (fun o => !o.finished) _ (by simp)] at account
    omega
  instances := by
    have account := books.accounts .instances
    simp only [base, Instance.net, Operation.net, Response.net, Chunk.net, OrderedMap.sum_zero]
      at account
    omega
  counters _ _ found := counters_eq books found
  chunks k r found := by
    have account := books.accounts (.chunkCount k)
    simp only [base, Instance.net, Operation.net, Response.net, Chunk.net, OrderedMap.sum_zero, sum_own,
      found, Option.elim_some] at account
    rw [sum_one m.chunks (fun c => c.response = k) _ (by simp)] at account
    omega
  cleared := cleared_of_released books

end Memory

/-- In every interleaving of the calls with the steps of the threads, whatever allocations fail. -/
theorem charges_conserved {p : Platform} {s : State} (reached : (bridge p).Reachable s) :
    s.memory.Conserved :=
  (State.kept_of_reachable reached).custody.tidy.books.conserved

def platform : Platform := ⟨⟨208, 32, 88⟩, 65536, by decide⟩

-- The loop of the owner once around, with one command.
def around : List Label :=
  [.owner .readByte, .owner .ack, .owner .pop, .owner .pop, .owner .cancelNext, .owner .cancelNext,
    .owner .idle]

-- One notice, until the owner knows that it is taken.
def notified : List Label := [.write, .mark, .notifier .take, .notifier .returned, .write]

def starting : List Label :=
  [.call (.create ⟨.createEngine, 2, true, true, true, true, true, true⟩), .write,
    .owner .attach, .write, .mark] ++ around ++
  [.task 1 (.begin true), .task 1 (.limits 256 67108864 1024), .task 1 (.finish .ok)] ++ notified

-- A request is answered with one header, another one cannot be copied, and a chunk is read.
def answering : List Label :=
  [.call (.submit 0 ⟨true, true, 3, 1, true, [(4, 9)], true, true⟩), .write] ++ around ++
  [.task 2 (.begin true), .task 2 (.respond 1 true), .task 2 (.header 16 true),
    .task 2 .responded] ++ notified ++
  [.call (.submit 0 ⟨true, true, 3, 1, true, [], true, false⟩), .call (.read 3 true true),
    .write] ++ around ++
  [.task 5 (.begin true), .task 5 (.chunk 1000 true), .task 5 .chunked] ++ notified ++
  [.call (.releaseOperation 2)]

set_option maxRecDepth 4000 in
theorem charges_conserved_answering : ∃ s,
    (bridge platform).exec (starting ++ answering) (bridge platform).init = some s ∧
      s.memory.retained = 1557 ∧ s.memory.Conserved := by
  have run : ((bridge platform).exec (starting ++ answering) (bridge platform).init).map
      (fun s => s.memory.retained) = some 1557 := by
    rfl
  obtain ⟨s, ends, retained⟩ := Option.map_eq_some_iff.mp run
  exact ⟨s, ends, retained, charges_conserved (Machine.reachable_of_exec ends)⟩

end HttpServer.CAbi
