import HttpServer.CAbi.Attention

set_option autoImplicit false

/-!
# The runtime ends

When the last instance is closed and the last notice taken somebody wakes the owner, so that it looks
once more and retires. At rest only an instance that is live or an operation that waits keeps the
threads, and the objects that the host has returned are gone.
-/

namespace HttpServer.CAbi

namespace Memory

variable {m : Memory}

structure Returned (m : Memory) : Prop where
  insts : ∀ k s, m.insts.get k = some s → s.held = 0
  ops : ∀ k o, m.ops.get k = some o → o.held = 0
  responses : ∀ k r, m.responses.get k = some r → r.held = 0
  chunks : ∀ k c, m.chunks.get k = some c → c.held = 0

structure Bare (m : Memory) : Prop where
  insts : m.insts = ∅
  ops : m.ops = ∅
  responses : m.responses = ∅
  chunks : m.chunks = ∅
  retained : m.retained = 0
  activeOps : m.activeOps = 0
  instances : m.instances = 0

theorem op_refs (books : m.Books) {k : Key} {o : Operation} (found : m.ops.get k = some o) :
    o.refs = o.held + one (o.finished = false) := by
  have account := books.accounts (.opRefs k)
  simp only [base, Instance.net, Operation.net, Response.net, Chunk.net, OrderedMap.sum_zero, sum_own,
    found, Option.elim_some] at account
  omega

theorem pointers_zero (live : m.live = []) (ops : m.ops = ∅) (responses : m.responses = ∅)
    (chunks : m.chunks = ∅) (k : Key) : m.pointers k = 0 := by
  simp [pointers, base, live, ops, responses, chunks, OrderedMap.sum_apply]

theorem bare_of_returned (books : m.Books) (live : m.live = []) (done : ∀ k, m.ticket k = none)
    (returned : m.Returned) : m.Bare := by
  have ops : m.ops = ∅ := OrderedMap.eq_empty fun k => by
    by_contra present
    obtain ⟨o, found⟩ := Option.ne_none_iff_exists'.mp present
    have positive := (books.sound.ops k o found).refs
    have refs := op_refs books found
    have finished : o.finished = true := by
      by_contra unfinished
      have ticket := ticket_of_get found (by simpa using unfinished)
      simp [done k] at ticket
    rw [returned.ops k o found, finished] at refs
    simp only [Bool.true_eq_false, one_false] at refs
    omega
  have cleared := books.conserved.cleared
    ⟨fun k => by rw [ops, OrderedMap.get_empty], returned.responses, returned.chunks⟩
  have responses : m.responses = ∅ := OrderedMap.eq_empty cleared.responses
  have chunks : m.chunks = ∅ := OrderedMap.eq_empty cleared.chunks
  refine ⟨?_, ops, responses, chunks, cleared.retained, cleared.activeOps, ?_⟩
  · refine OrderedMap.eq_empty fun k => ?_
    by_contra present
    obtain ⟨s, found⟩ := Option.ne_none_iff_exists'.mp present
    have positive := (books.sound.insts k s found).refs
    have refs := books.refs found
    rw [pointers_zero live ops responses chunks, returned.insts k s found] at refs
    omega
  · rw [books.conserved.instances, live]
    rfl

end Memory

namespace State

variable {p : Platform} {s s' : State}

structure Spent (s : State) : Prop where
  commands : s.commands = []
  live : s.memory.live = []
  tickets : ∀ k, s.memory.ticket k = none

-- The owner does not wait for a byte that nobody will write.
def Lasting (s : State) : Prop := s.owner = .reading → s.Spent → s.Roused

theorem Lasting.same (lasting : s.Lasting) (owner : s'.owner = s.owner)
    (commands : s'.commands = s.commands) (live : s'.memory.live = s.memory.live)
    (ticket : s'.memory.ticket = s.memory.ticket) (pipe : s'.pipe = s.pipe) (lock : s'.lock = s.lock) :
    s'.Lasting := by
  intro reading spent
  have before : s.Spent := ⟨commands ▸ spent.commands, live ▸ spent.live, ticket ▸ spent.tickets⟩
  rcases lasting (owner ▸ reading) before with byte | waking | acking
  · exact Or.inl (pipe ▸ byte)
  · exact Or.inr (Or.inl (lock ▸ waking))
  · exact Or.inr (Or.inr (owner ▸ acking))

theorem lasting_of_waking (lock : s.lock = .waking) : s.Lasting := fun _ _ => Or.inr (Or.inl lock)

theorem lasting_of_ticket {k : Key} {t : Ticket} (found : s.memory.ticket k = some t) : s.Lasting :=
  fun _ spent => by simp [spent.tickets k] at found

theorem lasting_of_owner (owner : s.owner ≠ .reading) : s.Lasting := fun reading =>
  absurd reading owner

theorem Spent.idle (spent : s.Spent) (books : s.memory.Books) :
    s.memory.instances = 0 ∧ s.memory.activeOps = 0 ∧ s.commands = [] := by
  refine ⟨?_, ?_, spent.commands⟩
  · rw [books.conserved.instances, spent.live]
    rfl
  · rw [books.conserved.activeOps]
    by_contra some
    obtain ⟨k, o, found, unfinished⟩ := OrderedMap.exists_of_count (m := s.memory.ops)
      (P := fun o => !o.finished) (by omega)
    have ticket := Memory.ticket_of_get found (by simpa using unfinished)
    simp [spent.tickets k] at ticket

theorem Kept.lasting_answers (kept : s.Kept) {c : Call} {code : Code} (answers : Answers p s c code s')
    (lasting : s.Lasting) : s'.Lasting := by
  have tidy := kept.custody.tidy
  cases answers with
  | refused | late => exact lasting
  | unstarted starts =>
    cases starts with
    | ending | running => exact lasting
    | unstarted | unowned => exact lasting.same rfl rfl rfl rfl rfl rfl
    | fresh => exact lasting_of_owner (by simp)
  | uncreated | created | admitted | cancelled | chunkReturned => exact lasting_of_waking rfl
  | rejected calm | returned calm => exact lasting.same rfl rfl calm.live calm.ticket rfl rfl
  | unreleased found held made =>
    obtain ⟨_, live, ticket, _⟩ := Memory.releaseResponse_without tidy.books found held made
    exact lasting.same rfl rfl live ticket rfl rfl

theorem Kept.lasting_owner (kept : s.Kept) {move : OwnerMove} (made : s.ownerStep move = some s') :
    s'.Lasting := by
  cases move with
  | attach =>
    simp only [ownerStep, Option.ite_none_right_eq_some, Option.some.injEq] at made
    obtain ⟨_, rfl⟩ := made
    exact lasting_of_waking rfl
  | bootstrapFails | readByte | ack | leave | drainEnd =>
    simp only [ownerStep, Option.ite_none_right_eq_some, Option.some.injEq] at made
    obtain ⟨_, rfl⟩ := made
    exact lasting_of_owner (by simp)
  | pop =>
    simp only [ownerStep, Option.ite_none_right_eq_some] at made
    obtain ⟨owner, made⟩ := made
    split at made <;> cases made <;> exact lasting_of_owner (by simp [owner])
  | cancelNext | drainPop | drainComplete =>
    simp only [ownerStep] at made
    split at made <;> cases made <;> exact lasting_of_owner (by simp)
  | idle =>
    simp only [ownerStep, Option.ite_none_right_eq_some] at made
    obtain ⟨_, made⟩ := made
    split_ifs at made with more
    · cases made
      exact lasting_of_owner (by simp)
    · cases made
      -- the owner has just seen that something keeps it
      intro _ spent
      have before : s.Spent := ⟨spent.commands, spent.live, spent.tickets⟩
      exact absurd (before.idle kept.custody.tidy.books) more

theorem Kept.lasting_works (kept : s.Kept) {k : Key} {task : Task} {o : Operation}
    (present : s.tasks.get k = some task) (op : s.memory.ops.get k = some o)
    (works : Works p s k task o s') : s'.Lasting := by
  obtain ⟨here, undone, _⟩ := kept.custody.op present op
  have found := ticket_of_spot here
  cases works with
  | worked effort =>
    obtain ⟨t', after, _⟩ := (kept.custody.follows_effort present op effort).stays k _ found undone
    exact lasting_of_ticket (k := k) (t := t') after
  | settled =>
    rw [settle_eq found undone]
    exact lasting_of_waking rfl
  | ready =>
    rw [ready_eq found undone]
    exact lasting_of_waking rfl
  | stops | shuts | drains => exact lasting_of_ticket (k := k) (t := o.ticket) found
  | closed _ _ before =>
    rcases before with rfl | rfl
    · rw [settle_eq found undone]
      exact lasting_of_waking rfl
    · rw [settle_eq (s := s.cancelOthers k) found undone]
      exact lasting_of_waking rfl

theorem Kept.lasting_notifier (kept : s.Kept) {move : NotifierMove}
    (made : s.notifierStep move = some s') (lasting : s.Lasting) : s'.Lasting := by
  cases move with
  | take =>
    simp only [notifierStep] at made
    split at made
    · rename_i k rest _ notices
      cases made
      obtain ⟨t, here, done, undelivered⟩ := kept.custody.noticed (k := k) (by simp [notices])
      obtain ⟨_, ticket⟩ := kept.custody.tidy.deliver (ticket_of_spot here) done undelivered
      exact lasting_of_ticket (k := k) (by rw [ticket k, if_pos rfl])
    · cases made
  | returned =>
    simp only [notifierStep] at made
    split at made <;> cases made
    exact lasting_of_waking rfl
  | exit | join =>
    simp only [notifierStep, Option.ite_none_right_eq_some, Option.some.injEq] at made
    obtain ⟨_, rfl⟩ := made
    exact lasting.same rfl rfl rfl rfl rfl rfl

theorem Kept.lasting_write (kept : s.Kept) (awake : s.Awake) : (s.writeByte p).Lasting := by
  intro reading spent
  have owner : s.owner = .reading := (s.writeByte_same p).1.symm.trans reading
  have roles := kept.roles
  rw [owner] at roles
  have attached := (roles.of_looping rfl).1
  have alert := awake (by rw [owner]; rfl)
  unfold writeByte
  split_ifs with set room
  · exact (alert.pending (Or.inl (set.resolve_right (by simp [attached])))).imp_right Or.inr
  · exact Or.inl (Nat.succ_pos _)
  · exact Or.inl (p.pipe_pos.trans_le (Nat.le_of_not_lt room))

theorem Kept.lasting_step (kept : s.Kept) {label : Label} (made : s.step p label = some s')
    (awake : s.Awake) (lasting : s.Lasting) : s'.Lasting := by
  cases kept.steps made with
  | write => exact kept.lasting_write awake
  | mark lock =>
    intro reading _
    have reading : s.owner = .reading := reading
    have alert := awake (by rw [reading]; rfl)
    exact (alert.pending (Or.inr lock)).imp_right Or.inr
  | reap | serverStops | serverFails => exact lasting.same rfl rfl rfl rfl rfl rfl
  | reads made | owner _ made => exact kept.lasting_owner made
  | call _ _ answers => exact kept.lasting_answers answers lasting
  | task _ present op _ _ works => exact kept.lasting_works present op works
  | notifier _ made => exact kept.lasting_notifier made lasting

theorem lasting_of_reachable (reached : (bridge p).Reachable s) : s.Lasting := by
  refine reached.invariant_with (P := Lasting) (fun reading => by cases reading)
    (fun _ reached => And.intro (kept_of_reachable reached) (awake_of_reachable reached))
    fun _ _ _ lasting known made => known.1.lasting_step made known.2 lasting

end State

/-- At rest the threads have ended when no instance is live and no read waits for the host; with
every handle returned nothing is left of the objects. -/
theorem runtime_ends {p : Platform} {s : State} (reached : (bridge p).Reachable s)
    (rests : (bridge p).Rests (fun label => label.own = true) s) (closed : s.memory.live = [])
    (heard : ∀ k, ¬s.HeldUp k) :
    s.owner = .absent ∧ s.notifier = .absent ∧ (s.phase = .off ∨ s.phase = .ended) ∧
      (s.memory.Returned → s.memory.Bare) := by
  have rested := State.rested rests reached
  have kept := State.kept_of_reachable reached
  have done (k : Key) : s.memory.ticket k = none := by
    by_contra present
    obtain ⟨t, found⟩ := Option.ne_none_iff_exists'.mp present
    exact heard k (rested.waiting k t found)
  have owner : s.owner = .absent := rested.owner.resolve_left fun reading =>
    State.rests_unroused rests reading
      (State.lasting_of_reachable reached reading ⟨rested.commands, closed, done⟩)
  have bare := Memory.bare_of_returned kept.custody.tidy.books closed done
  have roles := kept.roles
  rw [owner] at roles
  have stuck := State.rests_notifier rests
  generalize phase : s.phase = ph, notifier : s.notifier = n, ownerDone : s.ownerDone = d at roles
  cases roles with
  | off => exact ⟨owner, rfl, Or.inl rfl, bare⟩
  | ended => exact ⟨owner, rfl, Or.inr rfl, bare⟩
  | attached looping => cases looping
  | done present =>
    -- the notifier would leave its loop, or join the owner
    exfalso
    cases n with
    | absent => exact present rfl
    | joining => simpa [State.notifierStep, notifier, owner] using stuck .join
    | waiting => simpa [State.notifierStep, notifier, rested.notices, ownerDone] using stuck .exit
    | calling k => exact (State.rests_notices rests reached).2 k notifier

def ending : List Label :=
  [.owner .idle, .owner .leave, .owner .drainEnd, .notifier .exit, .notifier .join,
    .call (.releaseOperation 1), .call (.releaseOperation 2), .call (.releaseInstance 0)]

set_option maxRecDepth 4000 in
theorem runtime_ends_ending : ∃ s,
    (bridge platform).exec (starting ++ closing ++ retiring ++ ending) (bridge platform).init = some s ∧
      s.owner = .absent ∧ s.notifier = .absent ∧ s.memory.Bare := by
  have run : ((bridge platform).exec (starting ++ closing ++ retiring ++ ending)
      (bridge platform).init).map (fun s => ((s.lock, s.owner, s.notifier, s.commands),
        (s.memory.insts, s.memory.ops, s.memory.responses, s.memory.chunks), s.memory.live)) =
      some ((.free, .absent, .absent, []), (∅, ∅, ∅, ∅), []) := by
    rfl
  obtain ⟨s, ends, same⟩ := Option.map_eq_some_iff.mp run
  simp only [Prod.mk.injEq] at same
  obtain ⟨⟨free, owner, notifier, commands⟩, ⟨insts, ops, responses, chunks⟩, live⟩ := same
  have reached := Machine.reachable_of_exec ends
  have unscoped := (State.serves_of_reachable reached).outside (by rw [owner]; rfl)
  have rests : (bridge platform).Rests (fun label => label.own = true) s := by
    refine State.rests_of free (fun move => ?_) (fun reading => ?_) (fun i => ?_) fun move => ?_
    · cases move <;> simp [State.ownerStep, owner]
    · simp [owner] at reading
    · simp [unscoped]
    · cases move <;> simp [State.notifierStep, notifier]
  have heard (k : Key) : ¬s.HeldUp k := fun held => by
    obtain ⟨t, r, found, _⟩ := held.read
    simp [Memory.ticket, ops] at found
  obtain ⟨absent, stopped, _, bare⟩ := runtime_ends reached rests live heard
  refine ⟨s, ends, absent, stopped, bare ⟨?_, ?_, ?_, ?_⟩⟩
  · simp [insts]
  · simp [ops]
  · simp [responses]
  · simp [chunks]

end HttpServer.CAbi
