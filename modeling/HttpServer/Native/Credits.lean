import HttpServer.Native.Delivery

set_option autoImplicit false

/-!
# The credits of a budget

A budget forgets with its last pool what was acquired from it. A body charge that is released after
that, to a budget of later pools, takes what others own.
-/

namespace HttpServer.Native

open OrderedMap

def State.outstanding (s : State) : Int :=
  ((s.acquires.filter fun a => a.serial = s.serial).map Acquire.bytes).sum

-- A body charge is released to the budget that it was acquired from.
def State.matched : Label → State → Bool
  | .call (.bodyRelease a), s => a.serial = s.serial
  | _, _ => true

def matchedExecutor : Machine State Label where
  init := .initial
  step label s := if s.matched label then s.step label else none

/-- Both counters are what the pools own and what is acquired besides. -/
structure Balance (b : Budget) (outstanding : Int) : Prop where
  used : ∀ directory, b.used directory =
    (b.pools.sum fun _ q => q.owned directory) + if directory then 0 else outstanding
  owned : ∀ directory p q, b.pools.get p = some q → 0 ≤ q.owned directory
  connections : 0 ≤ b.connections

structure Balanced (s : State) : Prop where
  balance : ∀ b, s.budget = some b → Balance b s.outstanding
  acquires : ∀ a ∈ s.acquires, 0 ≤ a.bytes ∧ a.serial ≤ s.serial
  charges : s.jobs.Each fun _ job => 0 ≤ job.directoryCharge

section

variable {s s' : State} {b b' : Budget} {p : PoolId} {q : Pool} {directory : Bool}
  {bytes outstanding : Int}

theorem used_use_same (b : Budget) (directory other : Bool) (bytes : Int) :
    (b.use directory bytes).used other = b.used other + if other = directory then bytes else 0 := by
  cases directory <;> cases other <;> simp [Budget.use, Budget.used]

theorem owned_own (q : Pool) (directory other : Bool) (bytes : Int) :
    (q.own directory bytes).owned other = q.owned other + if other = directory then bytes else 0 := by
  cases directory <;> cases other <;> simp [Pool.own, Pool.owned]

theorem limit_own (q : Pool) (directory other : Bool) (bytes : Int) :
    (q.own directory bytes).limit other = q.limit other := by
  cases directory <;> cases other <;> rfl

theorem reserve_some (granted : hsIoReserve b p directory bytes = some b') :
    b' = { b.use directory bytes with pools := b.pools.modify p (Pool.own directory bytes) } ∧
      0 ≤ bytes ∧ ∀ key q, b.pools.get key = some q → b.used directory + bytes ≤ q.limit directory := by
  unfold hsIoReserve at granted
  dsimp only at granted
  split_ifs at granted with refused
  cases granted
  obtain ⟨positive, room⟩ := not_or.mp refused
  refine ⟨rfl, by omega, ?_⟩
  intro key q present
  have least : minLimit int64Max (Pool.limit directory) b.pools ≤ q.limit directory :=
    minLimit_le present
  omega

theorem Balance.own (balance : Balance b outstanding) (present : b.pools.get p = some q)
    (enough : 0 ≤ q.owned directory + bytes) :
    Balance { b.use directory bytes with
      pools := b.pools.insert p (q.own directory bytes) } outstanding where
  used other := by
    have before := balance.used other
    have changed := used_use_same b directory other bytes
    have same : ({ b.use directory bytes with
        pools := b.pools.insert p (q.own directory bytes) } : Budget).used other =
        (b.use directory bytes).used other := by
      cases other <;> rfl
    rw [same, changed, before, sum_insert present, owned_own]
    omega
  owned other key pool found := by
    dsimp only at found
    rw [get_insert] at found
    split_ifs at found
    · cases found
      rw [owned_own]
      have before := balance.owned other p q present
      split_ifs with same
      · rw [same]
        exact enough
      · omega
    · exact balance.owned other key pool found
  connections := by
    have least := balance.connections
    cases directory <;> exact least

theorem Balance.reserve (balance : Balance b outstanding) (present : b.pools.get p = some q)
    (granted : hsIoReserve b p directory bytes = some b') : Balance b' outstanding := by
  obtain ⟨rfl, positive, -⟩ := reserve_some granted
  rw [modify_some present]
  have least := balance.owned directory p q present
  exact balance.own present (by omega)

theorem Balance.release (balance : Balance b outstanding) :
    Balance (hsIoRelease b p directory bytes) outstanding := by
  unfold hsIoRelease
  split
  · exact balance
  · rename_i q present
    split_ifs with enough
    · rw [modify_some present]
      exact balance.own present (by omega)
    · exact balance

theorem Balance.connectionAcquire (balance : Balance b outstanding)
    (granted : hsIoConnectionAcquire b = some b') : Balance b' outstanding := by
  unfold hsIoConnectionAcquire at granted
  split_ifs at granted
  cases granted
  refine ⟨balance.used, balance.owned, ?_⟩
  have least := balance.connections
  dsimp only
  omega

theorem Balance.connectionRelease (balance : Balance b outstanding) :
    Balance (hsIoConnectionRelease b) outstanding := by
  unfold hsIoConnectionRelease
  split_ifs with positive
  · refine ⟨balance.used, balance.owned, ?_⟩
    dsimp only
    omega
  · exact balance

theorem Balance.body (balance : Balance b outstanding) (change : Int) :
    Balance { b with body := b.body + change } (outstanding + change) where
  used other := by
    have before := balance.used other
    cases other
    · simp only [Budget.used, Bool.false_eq_true, if_false] at before ⊢
      omega
    · exact before
  owned := balance.owned
  connections := balance.connections

theorem Balance.bodyAcquire (balance : Balance b outstanding)
    (granted : hsIoBodyAcquire b bytes = some b') :
    0 ≤ bytes ∧ Balance b' (outstanding + bytes) := by
  unfold hsIoBodyAcquire at granted
  split_ifs at granted with negative
  cases granted
  exact ⟨by omega, balance.body bytes⟩

theorem Balance.owned_sum (balance : Balance b outstanding) (directory : Bool) :
    0 ≤ b.pools.sum fun _ q => q.owned directory :=
  sum_nonneg fun p q present => balance.owned directory p q present

-- What is outstanding can be released.
theorem Balance.bodyRelease (balance : Balance b outstanding) (positive : 0 ≤ bytes)
    (enough : bytes ≤ outstanding) : Balance (hsIoBodyRelease b bytes) (outstanding - bytes) := by
  have before := balance.used false
  have least := balance.owned_sum false
  simp only [Budget.used, Bool.false_eq_true, if_false] at before
  unfold hsIoBodyRelease
  rw [if_pos ⟨positive, by omega⟩]
  exact balance.body (-bytes)

structure SameCredits (b b' : Budget) : Prop where
  used : ∀ directory, b'.used directory = b.used directory
  connections : b'.connections = b.connections
  owned : ∀ directory p, (b'.pools.get p).map (Pool.owned directory) =
    (b.pools.get p).map (Pool.owned directory)
  sums : ∀ directory, (b'.pools.sum fun _ q => q.owned directory) =
    b.pools.sum fun _ q => q.owned directory

theorem Balance.same (balance : Balance b outstanding) (same : SameCredits b b') :
    Balance b' outstanding where
  used directory := by rw [same.used, same.sums, balance.used]
  owned directory p q' present := by
    have both := same.owned directory p
    rw [present] at both
    obtain ⟨q, found, owned⟩ := Option.map_eq_some_iff.mp both.symm
    rw [← owned]
    exact balance.owned directory p q found
  connections := by
    rw [same.connections]
    exact balance.connections

theorem sameCredits_pools (used : ∀ directory, b'.used directory = b.used directory)
    (connections : b'.connections = b.connections) (pools : b'.pools = b.pools) : SameCredits b b' where
  used := used
  connections := connections
  owned _ _ := by rw [pools]
  sums _ := by rw [pools]

theorem sameCredits_insert {q' : Pool} (used : ∀ directory, b'.used directory = b.used directory)
    (connections : b'.connections = b.connections) (present : b.pools.get p = some q)
    (pools : b'.pools = b.pools.insert p q')
    (owned : ∀ directory, q'.owned directory = q.owned directory) : SameCredits b b' where
  used := used
  connections := connections
  owned directory key := by
    rw [pools, get_insert]
    split_ifs with same
    · rw [same, present, Option.map_some, Option.map_some, owned]
    · rfl
  sums directory := by
    rw [pools, sum_insert present, owned]
    omega

theorem Balance.link (balance : Balance b outstanding) (absent : b.pools.get p = none)
    (used : ∀ directory, b'.used directory = b.used directory)
    (connections : b'.connections = b.connections) (pools : b'.pools = b.pools.insert p q)
    (none : ∀ directory, q.owned directory = 0) : Balance b' outstanding where
  used directory := by
    rw [used, pools, sum_insert_absent absent, none, balance.used, Int.add_zero]
  owned directory key pool found := by
    rw [pools, get_insert] at found
    split_ifs at found
    · cases found
      rw [none]
    · exact balance.owned directory key pool found
  connections := by
    rw [connections]
    exact balance.connections

theorem unlink_used (b : Budget) (p : PoolId) (q : Pool) (directory : Bool) :
    (b.unlink p q).used directory = b.used directory - q.owned directory := by
  cases directory <;> rfl

theorem Balance.unlink (balance : Balance b outstanding) (present : b.pools.get p = some q) :
    Balance (b.unlink p q) outstanding where
  used directory := by
    have pools : (b.unlink p q).pools = b.pools.erase p := rfl
    rw [unlink_used, pools, sum_erase present, balance.used]
    omega
  owned directory key pool found := by
    simp only [Budget.unlink, get_erase] at found
    split_ifs at found
    exact balance.owned directory key pool found
  connections := balance.connections

theorem start_credits (more : Nat) (b : Budget) :
    (b.start more).pools = b.pools ∧ (b.start more).connections = b.connections ∧
      ∀ directory, (b.start more).used directory = b.used directory := by
  induction more generalizing b with
  | zero => exact ⟨rfl, rfl, fun _ => rfl⟩
  | succ more ih =>
    obtain ⟨pools, connections, used⟩ :=
      ih { b with workers := b.workers.insert b.threadCount .ready, threadCount := b.threadCount + 1 }
    exact ⟨pools, connections, used⟩

theorem outstanding_same (serial : s'.serial = s.serial) (acquires : s'.acquires = s.acquires) :
    s'.outstanding = s.outstanding := by
  rw [State.outstanding, State.outstanding, serial, acquires]

theorem Balanced.change (balanced : Balanced s) (here : s.budget = some b)
    (next : s'.budget = some b') (serial : s'.serial = s.serial) (acquires : s'.acquires = s.acquires)
    (charges : s'.jobs.Each fun _ job => 0 ≤ job.directoryCharge)
    (keeps : Balance b s.outstanding → Balance b' s.outstanding) : Balanced s' where
  balance other found := by
    rw [next] at found
    cases found
    rw [outstanding_same serial acquires]
    exact keeps (balanced.balance b here)
  acquires := by
    rw [acquires, serial]
    exact balanced.acquires
  charges := charges

theorem Balanced.same (balanced : Balanced s) (here : s.budget = some b)
    (next : s'.budget = some b') (serial : s'.serial = s.serial) (acquires : s'.acquires = s.acquires)
    (jobs : s'.jobs = s.jobs) (same : SameCredits b b') : Balanced s' :=
  balanced.change here next serial acquires (jobs ▸ balanced.charges) fun balance => balance.same same

theorem Balanced.setWorker (balanced : Balanced s) (here : s.budget = some b) (w : WorkerId)
    (worker : Worker) : Balanced (s.setWorker b w worker) :=
  balanced.same here rfl rfl rfl rfl (sameCredits_pools (fun _ => rfl) rfl rfl)

theorem Balanced.link {a : NewPool} (balance : Balance b s.outstanding)
    (acquires : ∀ a ∈ s.acquires, 0 ≤ a.bytes ∧ a.serial ≤ s.serial)
    (charges : s.jobs.Each fun _ job => 0 ≤ job.directoryCharge)
    (absent : b.pools.get s.nextPool = none) : Balanced (s.link b a) where
  balance other found := by
    cases found
    obtain ⟨pools, connections, used⟩ := start_credits
      (min a.threads (a.count.toNat - b.threadCount))
      { b with pools := b.pools.insert s.nextPool a.pool, refs := b.refs + 1 }
    refine balance.link absent used connections pools ?_
    intro directory
    cases directory <;> rfl
  acquires := acquires
  charges := charges

theorem Balanced.poolNew (balanced : Balanced s) (good : Good s) (a : NewPool) :
    Balanced (hsIoPoolNew s a) := by
  unfold hsIoPoolNew
  cases a.refused with
  | true => exact balanced
  | false =>
    simp only [Bool.false_eq_true, if_false]
    split
    · rename_i b here
      exact .link (balanced.balance b here) balanced.acquires balanced.charges
        ((good.threads b here).fresh s.nextPool (Nat.le_refl _))
    · split_ifs
      · -- nothing is acquired yet from a budget that is new
        have none : { s with serial := s.serial + 1 }.outstanding = 0 := by
          have old : (s.acquires.filter fun a => a.serial = s.serial + 1) = [] := by
            apply List.filter_eq_nil_iff.mpr
            intro a member
            have before := (balanced.acquires a member).2
            simp only [decide_eq_true_eq]
            omega
          simp [State.outstanding, old]
        have fresh : Balance .fresh { s with serial := s.serial + 1 }.outstanding := by
          rw [none]
          constructor
          case used =>
            intro directory
            cases directory <;> rfl
          case owned =>
            intro directory p q present
            cases present
          case connections => exact Int.le_refl 0
        refine .link fresh ?_ balanced.charges rfl
        intro a member
        exact ⟨(balanced.acquires a member).1, Nat.le_succ_of_le (balanced.acquires a member).2⟩
      · exact balanced

theorem Balanced.freeTest (balanced : Balanced s) (here : s.budget = some b)
    (same : SameCredits b b') (present : b'.pools.get p = some q) : Balanced (s.freeTest b' p q) := by
  unfold State.freeTest
  split_ifs
  · exact balanced.same here rfl rfl rfl rfl same
  · refine balanced.change here rfl rfl rfl balanced.charges fun balance => ?_
    exact ((balance.same same).unlink present).same (sameCredits_pools (fun _ => rfl) rfl rfl)

theorem Balanced.poolFree (balanced : Balanced s) (here : s.budget = some b)
    (present : b.pools.get p = some q) : Balanced (hsIoPoolFree s b p q) := by
  refine balanced.freeTest here ?_ (get_insert_self _ _ _)
  exact sameCredits_insert (fun _ => rfl) rfl present rfl fun _ => rfl

theorem outstanding_cons (s : State) (bytes : Int) :
    { s with acquires := ⟨s.serial, bytes⟩ :: s.acquires }.outstanding = s.outstanding + bytes := by
  simp [State.outstanding, Int.add_comm]

theorem outstanding_erase {a : Acquire} (member : a ∈ s.acquires) (own : a.serial = s.serial) :
    s.outstanding = { s with acquires := s.acquires.erase a }.outstanding + a.bytes := by
  have moved := (List.perm_cons_erase member).filter fun a => a.serial = s.serial
  have sums := (moved.map Acquire.bytes).sum_eq
  simp only [State.outstanding]
  rw [sums, List.filter_cons_of_pos (by simpa using own), List.map_cons, List.sum_cons, Int.add_comm]

theorem outstanding_nonneg (balanced : Balanced s) : 0 ≤ s.outstanding := by
  apply List.sum_nonneg
  intro bytes member
  obtain ⟨a, inside, rfl⟩ := List.mem_map.mp member
  exact (balanced.acquires a (List.mem_filter.mp inside).1).1

theorem Balanced.bodyRelease {a : Acquire} (balanced : Balanced s) (member : a ∈ s.acquires)
    (own : a.serial = s.serial) :
    Balanced { s with
      budget := s.budget.map fun b => hsIoBodyRelease b a.bytes
      acquires := s.acquires.erase a } where
  balance b' found := by
    obtain ⟨b, here, rfl⟩ := Option.map_eq_some_iff.mp found
    have less := outstanding_erase member own
    have rest : 0 ≤ { s with acquires := s.acquires.erase a }.outstanding := by
      apply List.sum_nonneg
      intro bytes inside
      obtain ⟨other, kept, rfl⟩ := List.mem_map.mp inside
      exact (balanced.acquires other (List.mem_of_mem_erase (List.mem_filter.mp kept).1)).1
    have balance := (balanced.balance b here).bodyRelease (balanced.acquires a member).1 (by omega)
    have now : s.outstanding - a.bytes = { s with acquires := s.acquires.erase a }.outstanding := by
      omega
    rw [now] at balance
    exact balance
  acquires other kept := balanced.acquires other (List.mem_of_mem_erase kept)
  charges := balanced.charges

-- Where there is no budget nothing changes.
theorem Balanced.map (balanced : Balanced s) {change : Budget → Budget}
    (keeps : ∀ b, Balance b s.outstanding → Balance (change b) s.outstanding) :
    Balanced { s with budget := s.budget.map change } where
  balance b' found := by
    obtain ⟨b, here, rfl⟩ := Option.map_eq_some_iff.mp found
    exact keeps b (balanced.balance b here)
  acquires := balanced.acquires
  charges := balanced.charges

theorem Balance.getD (balance : Balance b outstanding) {found : Option Budget}
    (keeps : ∀ b', found = some b' → Balance b' outstanding) :
    Balance (found.getD b) outstanding := by
  cases found with
  | none => exact balance
  | some b' => exact keeps b' rfl

theorem Balanced.submit {woken : Option WorkerId} (balanced : Balanced s) (here : s.budget = some b)
    (present : b.pools.get p = some q) (run : hsIoSubmit s b p q woken = some s') : Balanced s' := by
  unfold hsIoSubmit at run
  split_ifs at run
  · cases run
    exact balanced
  · obtain ⟨workers, -, rfl⟩ := Option.map_eq_some_iff.mp run
    refine balanced.change here rfl rfl rfl (balanced.charges.insert (Int.le_refl 0)) fun balance => ?_
    exact balance.same (sameCredits_insert (fun _ => rfl) rfl present rfl fun _ => rfl)

theorem Balanced.call {c : Call} (balanced : Balanced s) (good : Good s)
    (matched : s.matched (.call c) = true) (run : s.call c = some s') : Balanced s' := by
  cases c with
  | poolNew a =>
    cases run
    exact balanced.poolNew good a
  | poolFree p =>
    obtain ⟨b, q, here, present, inner⟩ := onPool_some run
    cases inner
    exact balanced.poolFree here present
  | submit p memory woken =>
    obtain ⟨b, q, here, present, inner⟩ := onPool_some run
    split_ifs at inner
    · exact balanced.submit here present inner
    · cases inner
      exact balanced
  | cancel j =>
    obtain ⟨b, job, here, found, inner⟩ := onJob_some run
    cases inner
    exact balanced.change here here rfl rfl
      (balanced.charges.insert (balanced.charges j.id job found)) fun balance => balance
  | takeDirectoryCharge j =>
    obtain ⟨b, job, here, found, inner⟩ := onJob_some run
    split_ifs at inner
    cases inner
    exact balanced.change here here rfl rfl (balanced.charges.insert (Int.le_refl 0))
      fun balance => balance
  | jobFree j =>
    obtain ⟨b, job, here, found, inner⟩ := onJob_some run
    split_ifs at inner
    cases inner
    exact balanced.change here rfl rfl rfl (balanced.charges.erase j.id) fun balance => balance.release
  | reserve p directory bytes =>
    obtain ⟨b, q, here, present, inner⟩ := onPool_some run
    cases inner
    exact balanced.change here rfl rfl rfl balanced.charges fun balance =>
      balance.getD fun _ granted => balance.reserve present granted
  | release p directory bytes =>
    obtain ⟨b, q, here, present, inner⟩ := onPool_some run
    cases inner
    exact balanced.change here rfl rfl rfl balanced.charges fun balance => balance.release
  | connectionLimit p limit =>
    obtain ⟨b, q, here, present, inner⟩ := onPool_some run
    cases inner
    exact balanced.same here rfl rfl rfl rfl
      (sameCredits_insert (fun _ => rfl) rfl present rfl fun _ => rfl)
  | connectionAcquire =>
    cases run
    exact balanced.map fun b balance => balance.getD fun _ granted => balance.connectionAcquire granted
  | connectionRelease =>
    cases run
    exact balanced.map fun b balance => balance.connectionRelease
  | bodyAcquire bytes =>
    simp only [State.call] at run
    split at run
    · cases run
      exact balanced
    · rename_i b here
      split at run
      · cases run
        exact balanced
      · rename_i b' granted
        cases run
        obtain ⟨positive, balance⟩ := (balanced.balance b here).bodyAcquire granted
        constructor
        case balance =>
          intro other found
          cases found
          rw [← outstanding_cons] at balance
          exact balance
        case acquires =>
          intro a member
          rcases List.mem_cons.mp member with rfl | before
          · exact ⟨positive, Nat.le_refl _⟩
          · exact balanced.acquires a before
        case charges => exact balanced.charges
  | bodyRelease a =>
    simp only [State.call] at run
    split_ifs at run with member
    cases run
    exact balanced.bodyRelease member (by simpa [State.matched] using matched)

theorem chargeOf_nonneg (name : Option Nat) : 0 ≤ chargeOf name := by
  cases name with
  | none => decide
  | some n =>
    simp only [chargeOf]
    omega

theorem Balanced.work {w : WorkerId} {worker : Worker} {move : Move} (balanced : Balanced s)
    (good : Good s) (here : s.budget = some b) (present : b.workers.get w = some worker)
    (run : s.work b w worker move = some s') : Balanced s' := by
  cases move with
  | wake =>
    simp only [State.work] at run
    split_ifs at run
    cases run
    exact balanced.setWorker here w _
  | test =>
    simp only [State.work] at run
    split_ifs at run
    cases run
    unfold State.workerTest
    split
    · exact balanced.setWorker here w _
    · rename_i j rest head
      split_ifs
      · exact balanced.setWorker here w _
      · have waits : j ∈ b.queue := by simp [head]
        obtain ⟨q, found⟩ := (good.counted b here).pool_queued waits
        rw [modify_some found]
        exact balanced.same here rfl rfl rfl rfl
          (sameCredits_insert (fun _ => rfl) rfl found rfl fun _ => rfl)
  | look =>
    simp only [State.work] at run
    split at run
    · split at run <;> cases run
      exact balanced.setWorker here w _
    · cases run
  | charge name =>
    simp only [State.work] at run
    split at run
    · rename_i j
      split at run
      · cases run
      · rename_i job found
        cases run
        unfold State.charge
        split_ifs
        · exact balanced
        · split
          · exact balanced
          · rename_i b' granted
            -- the pool of a running job is still there
            obtain ⟨q, live⟩ := (good.counted b here).pool_busy present rfl
            have before := balanced.charges j.id job found
            have more := chargeOf_nonneg name
            refine balanced.change here rfl rfl rfl (balanced.charges.insert ?_) fun balance =>
              balance.reserve live granted
            dsimp only
            omega
    · cases run
  | finish code =>
    simp only [State.work] at run
    split at run <;> cases run
    exact balanced.setWorker here w _
  | publish =>
    simp only [State.work] at run
    split at run
    · rename_i j code
      split at run
      · cases run
      · rename_i job found
        cases run
        exact balanced.change here rfl rfl rfl
          (balanced.charges.insert (balanced.charges j.id job found)) fun balance =>
            balance.same (sameCredits_pools (fun _ => rfl) rfl rfl)
    · cases run
  | retire =>
    simp only [State.work] at run
    split at run
    · rename_i p
      cases run
      obtain ⟨q, live⟩ := (good.counted b here).pool_busy present rfl
      unfold State.retire
      rw [modify_some live]
      exact balanced.same here rfl rfl rfl rfl
        (sameCredits_insert (fun _ => rfl) rfl live rfl fun _ => rfl)
    · cases run

theorem balanced_step {label : Label} (balanced : Balanced s) (good : Good s)
    (matched : s.matched label = true) (move : State.step label s = some s') : Balanced s' := by
  cases label with
  | call c =>
    simp only [State.step] at move
    split at move
    · exact balanced.call good matched move
    · split_ifs at move
      obtain ⟨b, q, here, present, inner⟩ := onPool_some move
      cases inner
      exact balanced.poolFree here present
    · cases move
  | resume =>
    simp only [State.step] at move
    split at move
    · obtain ⟨b, q, here, present, inner⟩ := onPool_some move
      cases inner
      exact balanced.freeTest here (sameCredits_pools (fun _ => rfl) rfl rfl) present
    · cases move
  | joined =>
    simp only [State.step] at move
    split at move
    · split_ifs at move
      cases move
      refine ⟨?_, balanced.acquires, balanced.charges⟩
      intro b here
      cases here
    · cases move
  | worker w turn =>
    simp only [State.step] at move
    split at move
    · cases move
    · split at move
      · cases move
      · exact balanced.work good ‹_› ‹_› move

end

structure Conserved (b : Budget) (outstanding : Int) : Prop where
  body : b.body = (b.pools.sum fun _ q => q.bodyOwned) + outstanding
  directory : b.directory = b.pools.sum fun _ q => q.directoryOwned
  nonneg : 0 ≤ b.body ∧ 0 ≤ b.directory ∧ 0 ≤ b.connections
  owned : ∀ p q, b.pools.get p = some q → 0 ≤ q.bodyOwned ∧ 0 ≤ q.directoryOwned

structure Limited (b : Budget) : Prop where
  reserve : ∀ p directory bytes b', hsIoReserve b p directory bytes = some b' →
    b'.used directory = b.used directory + bytes ∧
      ∀ key q, b'.pools.get key = some q → b'.used directory ≤ q.limit directory
  body : ∀ bytes b', hsIoBodyAcquire b bytes = some b' →
    b'.body = b.body + bytes ∧ ∀ key q, b'.pools.get key = some q → b'.body ≤ q.bodyLimit
  connection : ∀ b', hsIoConnectionAcquire b = some b' →
    b'.connections = b.connections + 1 ∧
      ∀ key q, b'.pools.get key = some q → b'.connections ≤ q.connectionLimit

-- A pool that is freed gives back what it owned and nothing else, once its work is done.
def Returns (label : Label) (s s' : State) : Prop :=
  ∀ p b q, (label = .call (.poolFree p) ∨ label = .resume ∧ ∃ woken, s.owner = .freeing p woken) →
    s.budget = some b → b.pools.get p = some q →
    (∃ woken, s'.owner = .freeing p woken) ∨
      ∃ b', s'.budget = some b' ∧ b'.pools.get p = none ∧
        (∀ directory, b'.used directory = b.used directory - q.owned directory) ∧
        b'.connections = b.connections ∧
        ∀ key, key ≠ p → b'.pools.get key = b.pools.get key

section

variable {s s' : State} {b : Budget} {p : PoolId} {q : Pool} {label : Label} {outstanding : Int}

theorem Balance.conserved (balance : Balance b outstanding) (acquired : 0 ≤ outstanding) :
    Conserved b outstanding := by
  have body := balance.used false
  have directory := balance.used true
  have bodies := balance.owned_sum false
  have directories := balance.owned_sum true
  simp only [Budget.used, Pool.owned, Bool.false_eq_true, if_false, if_true, Int.add_zero] at *
  refine ⟨body, directory, ⟨by omega, by omega, balance.connections⟩, ?_⟩
  intro p q present
  exact ⟨balance.owned false p q present, balance.owned true p q present⟩

theorem limited (b : Budget) : Limited b where
  reserve p directory bytes b' granted := by
    obtain ⟨rfl, -, below⟩ := reserve_some granted
    have now : ({ b.use directory bytes with
        pools := b.pools.modify p (Pool.own directory bytes) } : Budget).used directory =
        b.used directory + bytes := by
      have changed := used_use_same b directory directory bytes
      rw [if_pos rfl] at changed
      rw [← changed]
      cases directory <;> rfl
    refine ⟨now, ?_⟩
    intro key q present
    rw [now]
    dsimp only at present
    rw [get_modify] at present
    split_ifs at present with same
    · obtain ⟨old, found, rfl⟩ := Option.map_eq_some_iff.mp present
      rw [limit_own]
      exact below p old found
    · exact below key q present
  body bytes b' granted := by
    unfold hsIoBodyAcquire at granted
    split_ifs at granted with negative room
    cases granted
    refine ⟨rfl, ?_⟩
    intro key q present
    have least : minLimit int64Max Pool.bodyLimit b.pools ≤ q.bodyLimit := minLimit_le present
    dsimp only
    omega
  connection b' granted := by
    unfold hsIoConnectionAcquire at granted
    split_ifs at granted with room
    cases granted
    refine ⟨rfl, ?_⟩
    intro key q present
    have least : minLimit intMax Pool.connectionLimit b.pools ≤ q.connectionLimit :=
      minLimit_le present
    dsimp only
    omega

theorem freeTest_returns (s : State) (b : Budget) (p : PoolId) (q : Pool) :
    (∃ woken, (s.freeTest b p q).owner = .freeing p woken) ∨
      ∃ b', (s.freeTest b p q).budget = some b' ∧ b'.pools.get p = none ∧
        (∀ directory, b'.used directory = b.used directory - q.owned directory) ∧
        b'.connections = b.connections ∧
        ∀ key, key ≠ p → b'.pools.get key = b.pools.get key := by
  unfold State.freeTest
  split_ifs
  · exact Or.inl ⟨false, rfl⟩
  · refine Or.inr ⟨_, rfl, ?_, ?_, rfl, ?_⟩
    · simp [Budget.unlink, get_erase]
    · exact unlink_used b p q
    · intro key other
      simp [Budget.unlink, get_erase, other]

theorem step_returns (move : State.step label s = some s') : Returns label s s' := by
  intro p b q called here present
  rcases called with rfl | ⟨rfl, woken, owner⟩
  · have run := poolFree_call move
    obtain ⟨b', q', found, live, inner⟩ := onPool_some run
    rw [here] at found
    cases found
    rw [present] at live
    cases live
    cases inner
    rcases freeTest_returns s { b with pools := b.pools.insert p { q with stopping := true } } p
      { q with stopping := true } with waits | ⟨b', now, gone, used, connections, others⟩
    · exact Or.inl waits
    · refine Or.inr ⟨b', now, gone, used, connections, ?_⟩
      intro key other
      rw [others key other]
      exact get_insert_ne _ _ other
  · simp only [State.step, owner] at move
    obtain ⟨b', q', found, live, inner⟩ := onPool_some move
    rw [here] at found
    cases found
    rw [present] at live
    cases live
    cases inner
    exact freeTest_returns s b p q

theorem balanced_initial : Balanced .initial where
  balance b here := by cases here
  acquires _ member := absurd member List.not_mem_nil
  charges := each_empty

theorem matched_step (move : matchedExecutor.step label s = some s') :
    s.matched label = true ∧ State.step label s = some s' := by
  simp only [matchedExecutor] at move
  split_ifs at move with matched
  exact ⟨matched, move⟩

theorem reachable_balanced (reached : matchedExecutor.Reachable s) : Good s ∧ Balanced s := by
  apply reached.invariant (P := fun s => Good s ∧ Balanced s) ⟨good_initial, balanced_initial⟩
  rintro s label next ⟨good, balanced⟩ move
  obtain ⟨matched, move⟩ := matched_step move
  exact ⟨good_step good move, balanced_step balanced good matched move⟩

end

theorem credits_conserved {s : State} (reached : matchedExecutor.Reachable s) :
    (∀ b, s.budget = some b → Conserved b s.outstanding ∧ Limited b) ∧
      (s.jobs.Each fun _ job => 0 ≤ job.directoryCharge) ∧
      ∀ label s', matchedExecutor.step label s = some s' → Returns label s s' := by
  obtain ⟨-, balanced⟩ := reachable_balanced reached
  refine ⟨?_, balanced.charges, fun label s' move => step_returns (matched_step move).2⟩
  intro b here
  exact ⟨(balanced.balance b here).conserved (outstanding_nonneg balanced), limited b⟩

def onePool : Label :=
  .call (.poolNew ⟨1, 2, 65536, 65536, true, true, true, 1⟩)

-- Two pools share a budget; one has reserved, and a body is acquired.
theorem credits_conserved_shared :
    ∃ s b, matchedExecutor.exec
        [onePool, onePool, .call (.reserve 1 false 7), .call (.bodyAcquire 10)] .initial = some s ∧
      s.budget = some b ∧ b.body = 17 ∧ s.outstanding = 10 ∧ Conserved b s.outstanding := by
  have run : (matchedExecutor.exec
      [onePool, onePool, .call (.reserve 1 false 7), .call (.bodyAcquire 10)] .initial).map
        (fun s => (s.budget.map Budget.body, s.outstanding)) = some (some 17, 10) := by
    decide +kernel
  obtain ⟨s, exec, now⟩ := Option.map_eq_some_iff.mp run
  obtain ⟨body, outstanding⟩ := Prod.mk.inj now
  obtain ⟨b, here, counter⟩ := Option.map_eq_some_iff.mp body
  have reached := Machine.reachable_of_exec exec
  exact ⟨s, b, exec, here, counter, outstanding, ((credits_conserved reached).1 b here).1⟩

-- A body is acquired, the only pool is freed, and the body is released after another pool
-- was made and has reserved as much.
def staleRelease : List Label :=
  [onePool, .call (.bodyAcquire 10), .call (.poolFree 0), .worker 0 .test, .joined, onePool,
    .call (.reserve 1 false 10), .call (.bodyRelease ⟨1, 10⟩), .call (.release 1 false 10)]

theorem stale_release_negative :
    ∃ s b, executor.Reachable s ∧ s.budget = some b ∧ s.acquires = [] ∧ b.body < 0 := by
  have run : (executor.exec staleRelease .initial).map (fun s => (s.budget.map Budget.body, s.acquires)) =
      some (some (-10), []) := by decide +kernel
  obtain ⟨s, exec, now⟩ := Option.map_eq_some_iff.mp run
  obtain ⟨body, acquires⟩ := Prod.mk.inj now
  obtain ⟨b, here, counter⟩ := Option.map_eq_some_iff.mp body
  refine ⟨s, b, Machine.reachable_of_exec exec, here, acquires, ?_⟩
  omega

end HttpServer.Native
