import HttpServer.CAbi.Conservation

set_option autoImplicit false

/-!
# Ids are not given back

`next_id` starts at 1 with the runtime and only grows. Every new operation needs an id, and a close
is a new operation.
-/

namespace HttpServer.CAbi

def Call.ids : Call → Nat
  | .create _ => 2
  | .close .. | .submit .. | .read .. | .releaseResponse .. => 1
  | .cancel _ | .releaseInstance _ | .releaseOperation _ | .releaseChunk _ => 0

def Label.ids : Label → Nat
  | .call c => c.ids
  | _ => 0

namespace Memory

variable {m m' : Memory}

@[simp] theorem nextId_instanceDrop (k : Key) : (m.instanceDrop k).nextId = m.nextId := by
  unfold instanceDrop
  split
  · rfl
  · split_ifs <;> rfl

@[simp] theorem nextId_responseDrop (k : Key) : (m.responseDrop k).nextId = m.nextId := by
  unfold responseDrop
  split
  · rfl
  · split_ifs
    · simp [onInst, uncharge]
    · rfl

@[simp] theorem nextId_dropResponse (response : Option Key) :
    (m.dropResponse? response).nextId = m.nextId := by
  cases response with
  | none => rfl
  | some r => exact nextId_responseDrop r

@[simp] theorem nextId_opFree (k : Key) (o : Operation) : (m.opFree k o).nextId = m.nextId := by
  simp only [opFree, nextId_instanceDrop, nextId_dropResponse]
  split_ifs <;> rfl

@[simp] theorem nextId_opDrop (k : Key) : (m.opDrop k).nextId = m.nextId := by
  unfold opDrop
  split
  · rfl
  · split_ifs
    · exact nextId_opFree _ _
    · rfl

theorem nextId_newOp {sizes : Sizes} {kind : Kind} {i k : Key} {allocated : Bool}
    (made : m.newOp sizes kind i allocated = some (k, m')) :
    m.nextId ≠ intMax ∧ m'.nextId = m.nextId + 1 := by
  obtain ⟨some, _, made⟩ := newOp_eq_some.mp made
  refine ⟨some, ?_⟩
  split_ifs at made
  · obtain ⟨_, _, _, made⟩ := made
    cases made
    rfl
  · cases made
    rfl

theorem nextId_chargeInput {k : Key} {bytes : Int} (made : m.chargeInput k bytes = some m') :
    m'.nextId = m.nextId := by
  unfold chargeInput at made
  split at made
  · cases made
  · obtain ⟨paid, charge, rfl⟩ := Option.map_eq_some_iff.mp made
    obtain ⟨_, _, _, rfl⟩ := charge_eq_some.mp charge
    rfl

@[simp] theorem nextId_abandon (k : Key) : (m.abandon k).nextId = m.nextId := by
  unfold abandon
  split
  · rfl
  · simp [onOp, onInst]

@[simp] theorem nextId_complete (k : Key) (code : Code) (kind : Option ResultKind) :
    (m.complete k code kind).nextId = m.nextId := by
  unfold complete
  split
  · rfl
  · rename_i o _
    split_ifs
    · rfl
    · have reset : ((m.onOp k (answer code kind)).resetResponse k code o).nextId = m.nextId := by
        unfold resetResponse
        split_ifs
        · simp [onOp]
        · rfl
      have settle (m : Memory) : (m.settleInstance k code o).nextId = m.nextId := by
        unfold settleInstance retire unlinkInstance
        split_ifs <;> simp [onInst, onOp]
      have read (m : Memory) : (m.endRead o).nextId = m.nextId := by
        unfold endRead
        split
        · split_ifs <;> rfl
        · rfl
      exact (read _).trans ((settle _).trans reset)

@[simp] theorem nextId_retireAll (keys : List Key) : (m.retireAll keys).nextId = m.nextId := by
  induction keys generalizing m with
  | nil => rfl
  | cons k rest ih =>
    rw [retireAll, ih]
    simp [retire, unlinkInstance, onInst]

@[simp] theorem nextId_deliver (k : Key) : (m.deliver k).nextId = m.nextId := by
  unfold deliver
  split
  · rfl
  · rename_i o _
    cases o.event.handle <;> cases o.event.response <;> cases o.event.chunk <;> rfl

@[simp] theorem nextId_finish (k : Key) : (m.finish k).nextId = m.nextId := by
  unfold finish
  split
  · rfl
  · simp [onOp, onInst]

/-- From `m` to `m'` at most `n` ids are taken. -/
structure Spends (m m' : Memory) (n : Nat) : Prop where
  grows : m.nextId ≤ m'.nextId
  few : m'.nextId ≤ m.nextId + n
  within : m.nextId ≤ intMax → m'.nextId ≤ intMax

theorem Spends.of_same (same : m'.nextId = m.nextId) (n : Nat) : m.Spends m' n :=
  ⟨same.ge, by omega, fun within => same.le.trans within⟩

theorem Spends.of_next (some : m.nextId ≠ intMax) (next : m'.nextId = m.nextId + 1) :
    m.Spends m' 1 :=
  ⟨by omega, by omega, by omega⟩

theorem create_spends {sizes : Sizes} {kind : Kind} {length : Nat}
    {operationAllocated inputAllocated : Bool} (room : m.nextId < intMax - 1) :
    m.Spends (m.create sizes kind length operationAllocated inputAllocated).2 2 := by
  have added (server : Bool) : (m.addInstance server).nextId = m.nextId + 1 := rfl
  have spent {m' : Memory} (low : m.nextId + 1 ≤ m'.nextId) (high : m'.nextId ≤ m.nextId + 2) :
      m.Spends m' 2 := ⟨by omega, high, by omega⟩
  unfold create
  dsimp only
  split
  · exact spent (by simp [added]) (by simp [added])
  · rename_i k m₁ new
    obtain ⟨_, next⟩ := nextId_newOp new
    rw [added] at next
    split
    · exact spent (by simp [next]) (by simp [next])
    · rename_i m₂ charge
      have same := nextId_chargeInput charge
      split_ifs
      · exact spent (by simp [same, next]) (by simp [same, next])
      · exact spent (by simp [link, same, next]) (by simp [link, same, next])

theorem submit_spends {sizes : Sizes} {i : Key} {cost : Nat} {allocated copied : Bool} :
    m.Spends (m.submit sizes i cost allocated copied).2.2 1 := by
  unfold submit
  split
  · exact .of_same rfl 1
  · rename_i k m₁ new
    obtain ⟨some, next⟩ := nextId_newOp new
    split
    · exact .of_next some (by simp [next])
    · rename_i m₂ charge
      have same := nextId_chargeInput charge
      split_ifs
      · exact .of_next some (same.trans next)
      · exact .of_next some (by simp [same, next])

-- Closes, reads and the operations of releases: `f` does not touch ids.
theorem newOp_spends {sizes : Sizes} {kind : Kind} {i k : Key} {allocated : Bool}
    {f : Key → Memory → Memory} (ids : ∀ k m, (f k m).nextId = m.nextId)
    (made : (m.newOp sizes kind i allocated).map (fun (k, m) => (k, f k m)) = some (k, m')) :
    m.Spends m' 1 := by
  obtain ⟨⟨key, m₁⟩, new, same⟩ := Option.map_eq_some_iff.mp made
  obtain ⟨some, next⟩ := nextId_newOp new
  cases same
  exact .of_next some ((ids _ _).trans next)

theorem releaseResponse_spends {sizes : Sizes} {r : Key} {allocated : Bool} :
    m.Spends (m.releaseResponse sizes r allocated).2 1 := by
  unfold releaseResponse
  split
  · exact .of_same rfl 1
  · dsimp only
    split_ifs
    · exact .of_same (by simp [onResponse]) 1
    · exact .of_same (by simp [onResponse]) 1
    · split
      · exact .of_same (by simp [onResponse]) 1
      · rename_i made
        have spends := newOp_spends (f := fun k m => (m.onOp k fun o =>
          { o with refs := 1, held := 0 }).useResponse k r) (fun _ _ => rfl) made
        exact ⟨by simpa [onResponse] using spends.grows, by simpa [onResponse] using spends.few,
          by simpa [onResponse] using spends.within⟩

/-- `next_id` after `n` ids were taken at most. -/
structure Ids (m : Memory) (n : Nat) : Prop where
  positive : 1 ≤ m.nextId
  few : m.nextId ≤ n + 1
  within : m.nextId ≤ intMax

theorem Ids.spends {n n' : Nat} (ids : m.Ids n) (spends : m.Spends m' n') : m'.Ids (n + n') where
  positive := ids.positive.trans spends.grows
  few := by
    have before := ids.few
    have after := spends.few
    omega
  within := spends.within ids.within

theorem Ids.same {n : Nat} (ids : m.Ids n) (same : m'.nextId = m.nextId) : m'.Ids n :=
  ids.spends (.of_same same 0)

end Memory

namespace State

variable {p : Platform} {s s' : State} {n : Nat}

theorem Starts.ids {started : Bool} (starts : Starts s started s') (ids : s.memory.Ids n) :
    s'.memory.Ids n := by
  have first (m : Memory) (next : m.nextId = 1) : m.Ids n :=
    ⟨next.ge, by omega, next.le.trans (by decide)⟩
  cases starts with
  | ending | running => exact ids
  | unstarted | unowned | fresh => exact first _ rfl

theorem run_ids (ids : s.memory.Ids n) (c : Call) : (c.run p s).2.memory.Ids (n + c.ids) := by
  have idle (k : Nat) : s.memory.Ids (n + k) := ids.spends (.of_same rfl k)
  cases c with
  | create c =>
    change (s.createAsync p c).2.memory.Ids (n + 2)
    have started := Starts.ids (s.startRuntime_starts c) ids
    unfold createAsync
    split
    · exact idle 2
    · split
      · exact idle 2
      · split
        · rename_i s₁ start
          rw [start] at started
          exact started.spends (.of_same rfl 2)
        · rename_i s₁ start
          rw [start] at started
          split
          · exact started.spends (.of_same rfl 2)
          · rename_i room
            split
            · exact started.spends (.of_same rfl 2)
            · have spends : s₁.memory.Spends (s₁.memory.create p.sizes c.kind c.length
                  c.operationAllocated c.inputAllocated).2 2 :=
                Memory.create_spends (Nat.lt_of_not_ge room)
              split
              · rename_i m made
                rw [made] at spends
                exact started.spends spends
              · rename_i k m made
                rw [made] at spends
                exact started.spends spends
  | close i given allocated =>
    change (s.closeAsync p i given allocated).2.memory.Ids (n + 1)
    unfold closeAsync
    split
    · exact idle 1
    · split_ifs
      · exact idle 1
      · exact idle 1
      · split
        · exact idle 1
        · rename_i made
          exact ids.spends (Memory.newOp_spends (f := fun _ m => m.onInst i fun s =>
            { s with closing := true }) (fun _ _ => rfl) made)
  | submit i c =>
    change (s.submitAsync p i c).2.memory.Ids (n + 1)
    have spent {cost : Nat} {code : Code} {k : Option Key} {m : Memory} (made : s.memory.submit p.sizes
        i cost c.operationAllocated c.copied = (code, k, m)) : m.Ids (n + 1) := by
      have spends : s.memory.Spends
        (s.memory.submit p.sizes i cost c.operationAllocated c.copied).2.2 1 := Memory.submit_spends
      rw [made] at spends
      exact ids.spends spends
    unfold submitAsync
    dsimp only
    repeat' split
    all_goals first
      | exact idle 1
      | skip
    · rename_i made
      exact spent made
    · rename_i made
      exact spent made
  | read r given allocated =>
    change (s.readAsync p r given allocated).2.memory.Ids (n + 1)
    unfold readAsync
    split
    · exact idle 1
    · split
      · exact idle 1
      · split_ifs
        · exact idle 1
        · exact idle 1
        · exact idle 1
        · exact idle 1
        · split
          · exact idle 1
          · rename_i made
            exact ids.spends (Memory.newOp_spends (f := fun k m =>
              (m.useResponse k r).onResponse r fun r => { r with reading := true })
              (fun _ _ => rfl) made)
  | cancel k =>
    change (s.operationCancel k).memory.Ids n
    unfold operationCancel
    split
    · exact ids
    · split_ifs
      · exact ids.same rfl
      · exact ids
  | releaseInstance i =>
    exact ids.same (Memory.nextId_instanceDrop i)
  | releaseOperation k => exact ids.same (Memory.nextId_opDrop k)
  | releaseResponse r allocated =>
    change (s.responseRelease p r allocated).memory.Ids (n + 1)
    have spends : s.memory.Spends (s.memory.releaseResponse p.sizes r allocated).2 1 :=
      Memory.releaseResponse_spends
    unfold responseRelease
    split
    · exact idle 1
    · split
      · rename_i made
        rw [made] at spends
        exact ids.spends spends
      · rename_i made
        rw [made] at spends
        exact ids.spends spends
  | releaseChunk c =>
    refine ids.same ?_
    change (s.memory.releaseChunk c).nextId = _
    unfold Memory.releaseChunk
    split
    · rfl
    · simp [Memory.uncharge, Memory.onInst, Memory.onResponse]

theorem memory_complete (s : State) (k : Key) (code : Code) (kind : Option ResultKind) :
    (s.complete k code kind).memory = s.memory.complete k code kind := by
  unfold complete
  split
  · rename_i absent
    simp [Memory.complete, absent]
  · rename_i o found
    split_ifs with done
    · simp [Memory.complete, found, done]
    · rfl

theorem effort_nextId {k : Key} {o : Operation} {stage stage' : Stage} {m : Memory}
    (effort : Effort p s k o stage m stage') : m.nextId = s.memory.nextId := by
  cases effort with
  | responds _ made =>
    unfold Memory.makeResponse at made
    split at made
    · cases made
    · dsimp only at made
      split at made
      · cases made
      · split_ifs at made
        split at made
        · cases made
        · rename_i charge
          obtain ⟨_, _, _, rfl⟩ := Memory.charge_eq_some.mp charge
          cases made
          rfl
  | header =>
    unfold Memory.setHeader
    split
    · rfl
    · split
      · rfl
      · rename_i charge
        obtain ⟨_, _, _, rfl⟩ := Memory.charge_eq_some.mp charge
        rfl
  | chunk _ made =>
    unfold Memory.addChunk at made
    split at made
    · cases made
    · split at made
      · cases made
      · split_ifs at made
        split at made
        · cases made
        · rename_i charge
          obtain ⟨_, _, _, rfl⟩ := Memory.charge_eq_some.mp charge
          cases made
          rfl
  | _ => rfl

theorem works_nextId {k : Key} {task : Task} {o : Operation} (works : Works p s k task o s') :
    s'.memory.nextId = s.memory.nextId := by
  cases works with
  | worked effort => exact effort_nextId effort
  | settled => exact (congrArg Memory.nextId (memory_complete _ _ _ _)).trans (Memory.nextId_complete _ _ _)
  | ready => exact (congrArg Memory.nextId (memory_complete _ _ _ _)).trans (Memory.nextId_complete _ _ _)
  | stops | shuts | drains => rfl
  | closed _ _ before =>
    rcases before with rfl | rfl <;>
      exact (congrArg Memory.nextId (memory_complete _ _ _ _)).trans (Memory.nextId_complete _ _ _)

theorem ownerStep_nextId {move : OwnerMove} (made : s.ownerStep move = some s') :
    s'.memory.nextId = s.memory.nextId := by
  cases move with
  | attach | bootstrapFails | readByte | ack | leave =>
    simp only [ownerStep, Option.ite_none_right_eq_some, Option.some.injEq] at made
    obtain ⟨_, rfl⟩ := made
    rfl
  | pop | idle =>
    simp only [ownerStep, Option.ite_none_right_eq_some] at made
    obtain ⟨_, made⟩ := made
    split at made <;> cases made <;> rfl
  | cancelNext | drainPop =>
    simp only [ownerStep] at made
    split at made <;> cases made <;> rfl
  | drainComplete =>
    simp only [ownerStep] at made
    split at made <;> cases made
    exact (congrArg Memory.nextId (memory_complete _ _ _ _)).trans (Memory.nextId_complete _ _ _)
  | drainEnd =>
    simp only [ownerStep, Option.ite_none_right_eq_some, Option.some.injEq] at made
    obtain ⟨_, rfl⟩ := made
    exact Memory.nextId_retireAll _

theorem notifierStep_nextId {move : NotifierMove} (made : s.notifierStep move = some s') :
    s'.memory.nextId = s.memory.nextId := by
  cases move with
  | take =>
    simp only [notifierStep] at made
    split at made <;> cases made
    exact Memory.nextId_deliver _
  | returned =>
    simp only [notifierStep] at made
    split at made <;> cases made
    exact Memory.nextId_finish _
  | exit | join =>
    simp only [notifierStep, Option.ite_none_right_eq_some, Option.some.injEq] at made
    obtain ⟨_, rfl⟩ := made
    rfl

theorem Kept.ids_step (kept : s.Kept) {label : Label} (made : s.step p label = some s')
    (ids : s.memory.Ids n) : s'.memory.Ids (n + label.ids) := by
  cases kept.steps made with
  | write =>
    refine ids.same ?_
    unfold writeByte
    split_ifs <;> rfl
  | mark | reap | serverStops | serverFails => exact ids
  | reads made | owner _ made => exact ids.same (ownerStep_nextId made)
  | call => exact run_ids ids _
  | task _ _ _ _ _ works => exact ids.same (works_nextId works)
  | notifier _ made => exact ids.same (notifierStep_nextId made)

theorem Kept.ids_path {labels : List Label} (kept : s.Kept) (ids : s.memory.Ids n)
    (path : (bridge p).Path s labels s') :
    s'.memory.Ids (n + (labels.map Label.ids).sum) := by
  induction path generalizing n with
  | here => exact ids
  | step move more ih =>
    rw [List.map_cons, List.sum_cons, ← Nat.add_assoc]
    exact ih (kept.step move) (kept.ids_step move ids)

theorem closeAsync_ok {i : Key} {inst : Instance} (found : s.memory.insts.get i = some inst)
    (opened : inst.closing = false) :
    (s.closeAsync p i true true).1 = .ok ↔ s.memory.nextId ≠ intMax := by
  have unpaid : (if inst.server then Kind.stopServer else .closeEngine).business = false := by
    cases inst.server <;> rfl
  simp only [closeAsync, found, opened, Memory.startClosing, Memory.newOp, unpaid]
  by_cases last : s.memory.nextId = intMax
  · simp [last]
  · simp [last]

end State

/-- Ids are all that a close can lack, and every history of calls takes them one by one. -/
theorem close_admitted {p : Platform} {labels : List Label} {s : State}
    (path : (bridge p).Path (bridge p).init labels s) :
    s.memory.nextId ≤ intMax ∧ s.memory.nextId ≤ (labels.map Label.ids).sum + 1 ∧
      ∀ i inst, s.memory.insts.get i = some inst → 0 < inst.held → inst.closing = false →
        (((Call.close i true true).run p s).1 = .ok ↔ s.memory.nextId ≠ intMax) := by
  have first : State.initial.memory.Ids 0 := ⟨by decide, by decide, by decide⟩
  have ids := State.kept_initial.ids_path first path
  rw [Nat.zero_add] at ids
  exact ⟨ids.within, ids.few, fun _ _ found _ opened => State.closeAsync_ok found opened⟩

def engine : Instance := ⟨3, 1, false, false, false, 0, 0, 256, 0, 1024, 67108864, 211, 1⟩

theorem close_admitted_starting : ∃ s,
    (bridge platform).exec starting (bridge platform).init = some s ∧
      ((Call.close 0 true true).run platform s).1 = .ok := by
  have run : ((bridge platform).exec starting (bridge platform).init).map (fun s =>
      (s.memory.insts.get 0, s.memory.nextId)) = some (some engine, 3) := by
    rfl
  obtain ⟨s, ends, same⟩ := Option.map_eq_some_iff.mp run
  simp only [Prod.mk.injEq] at same
  obtain ⟨owner, next⟩ := same
  obtain ⟨_, _, admitted⟩ := close_admitted (Machine.path_of_exec ends)
  refine ⟨s, ends, (admitted 0 engine owner (by decide) rfl).mpr ?_⟩
  rw [next]
  decide

-- A request whose method has a length and no bytes.
def nullMethod : SubmitCall := ⟨true, true, 3, 1, true, [], true, false⟩

namespace Memory

variable {m : Memory}

-- An operation that is given up leaves its instance as it was before.
theorem abandon_get {k : Key} {o : Operation} {s : Instance} (found : m.ops.get k = some o)
    (unused : o.response = none) (input : o.inputCharge ≠ 0) (allocation : o.allocationCharge ≠ 0)
    (owner : m.insts.get o.owner = some s) (more : s.refs ≠ 1) :
    (m.abandon k).retained = m.retained - o.inputCharge - o.allocationCharge ∧
      (m.abandon k).insts.get o.owner = some { s with
        refs := s.refs - 1
        active := s.active - 1
        notifications := s.notifications - 1
        charged := s.charged - o.inputCharge - o.allocationCharge } := by
  simp only [abandon, found]
  rw [opDrop_last (o := { o with refs := 1 }) (by simp [onOp, onInst, found]) rfl]
  simp only [opFree, input, allocation, ne_eq, not_false_eq_true, if_true, unused, dropResponse?]
  unfold instanceDrop
  simp [uncharge, onInst, onOp, owner, more]

theorem submit_uncopied (found : m.insts.get 0 = some engine) (left : m.nextId ≠ intMax)
    (retained : m.retained = 211) :
    ∃ m', m.submit platform.sizes 0 6 true false = (.invalidArg, none, m') ∧
      m'.insts.get 0 = some engine ∧ m'.retained = 211 ∧ m'.nextId = m.nextId + 1 := by
  let o := m.newOperation .submit 0 208
  let m₁ := ((m.charged 0 (.operation m.fresh) 208).addOp .submit 0 208).2
  let m₂ := (m₁.charged 0 (.operation m.fresh) 6).onOp m.fresh fun o => { o with inputCharge := 6 }
  have new : m.newOp platform.sizes .submit 0 true = some (m.fresh, m₁) := by
    refine newOp_eq_some.mpr ⟨left, rfl, engine, found, ?_, rfl⟩
    simp [RoomFor, engine, platform, cap, retained]
  have op : m₁.ops.get m.fresh = some o := OrderedMap.get_insert_self _ _ _
  have owner : m₁.insts.get 0 = some { engine with
      refs := 4, active := 1, notifications := 1, charged := 419 } := by
    simp [m₁, addOp, charged, onInst, found, engine]
  have charge : m₁.chargeInput m.fresh 6 = some m₂ := by
    have paid : m₁.charge 0 (.operation m.fresh) 6 = some (m₁.charged 0 (.operation m.fresh) 6) := by
      refine charge_eq_some.mpr ⟨_, owner, ?_, rfl⟩
      simp [m₁, RoomFor, engine, cap, addOp, charged, onInst, retained]
    simp only [chargeInput, op]
    exact congrArg _ paid
  have op₂ : m₂.ops.get m.fresh = some { o with inputCharge := 6 } := by
    rw [get_onOp_self, ops_charged, op]
    rfl
  have owner₂ : m₂.insts.get 0 = some { engine with
      refs := 4, active := 1, notifications := 1, charged := 425 } := by
    simp [m₂, onOp, charged, onInst, owner, engine]
  obtain ⟨kept, same⟩ := abandon_get op₂ rfl (by simp) (by simp [o, newOperation]) owner₂ (by simp)
  refine ⟨m₂.abandon m.fresh, ?_, same, kept.trans ?_, ?_⟩
  · simp only [submit, new]
    rw [Nat.cast_ofNat, charge]
    rfl
  · simp [m₂, m₁, o, newOperation, onOp, charged, addOp, onInst, retained]
  · rw [nextId_abandon]
    rfl

end Memory

namespace State

variable {s : State}

theorem step_call {p : Platform} {c : Call} (free : s.lock = .free)
    (legal : c.legal s.memory = true) : s.step p (.call c) = some (c.run p s).2 := by
  change (if s.lock ≠ .free then none else
    if c.legal s.memory then some (c.run p s).2 else none) = _
  rw [if_neg (not_not.mpr free), if_pos legal]

structure Idle (s : State) : Prop where
  free : s.lock = .free
  engine : s.memory.insts.get 0 = some engine
  retained : s.memory.retained = 211

theorem Idle.spends (idle : s.Idle) (n : Nat) (left : s.memory.nextId + n ≤ intMax) :
    ∃ s', (bridge platform).Path s (List.replicate n (.call (.submit 0 nullMethod))) s' ∧ s'.Idle ∧
      s'.memory.nextId = s.memory.nextId + n := by
  induction n generalizing s with
  | zero => exact ⟨s, .here s, idle, rfl⟩
  | succ n ih =>
    obtain ⟨m, submits, owner, retained, next⟩ :=
      Memory.submit_uncopied idle.engine (by omega) idle.retained
    have move : (bridge platform).step (.call (.submit 0 nullMethod)) s =
        some { s with memory := m } := by
      have legal : (Call.submit 0 nullMethod).legal s.memory = true := by
        simp [Call.legal, idle.engine, CAbi.engine]
      have answer : (s.submitAsync platform 0 nullMethod).2 = { s with memory := m } := by
        simp [submitAsync, idle.engine, nullMethod, CAbi.engine, headerTotal, submits]
      exact (step_call idle.free legal).trans (congrArg some answer)
    obtain ⟨s', path, idle', spent⟩ :=
      ih (s := { s with memory := m }) ⟨idle.free, owner, retained⟩ (by change m.nextId + n ≤ _; omega)
    refine ⟨s', .step move path, idle', spent.trans ?_⟩
    change m.nextId + n = _
    omega

end State

-- Requests that are refused one by one leave no id for the close.
theorem close_refused : ∃ s,
    (bridge platform).Path (bridge platform).init
      (starting ++ List.replicate 2147483644 (.call (.submit 0 nullMethod))) s ∧
      s.memory.insts.get 0 = some engine ∧ 0 < engine.held ∧ engine.closing = false ∧
      ((Call.close 0 true true).run platform s).1 = .limit := by
  have run : ((bridge platform).exec starting (bridge platform).init).map (fun s =>
      (s.lock, s.memory.insts.get 0, s.memory.retained, s.memory.nextId)) =
      some (.free, some engine, 211, 3) := by
    rfl
  obtain ⟨s, ends, same⟩ := Option.map_eq_some_iff.mp run
  simp only [Prod.mk.injEq] at same
  obtain ⟨free, owner, retained, next⟩ := same
  have idle : s.Idle := ⟨free, owner, retained⟩
  obtain ⟨last, path, idle', spent⟩ := idle.spends 2147483644 (by rw [next, intMax])
  refine ⟨last, (Machine.path_of_exec ends).append path, idle'.engine, by decide, by decide, ?_⟩
  have out : last.memory.nextId = intMax := by
    rw [spent, next, intMax]
  change (last.closeAsync platform 0 true true).1 = _
  simp [State.closeAsync, idle'.engine, engine, Memory.startClosing, Memory.newOp, out]

end HttpServer.CAbi
