import HttpServer.CAbi.Completion

set_option autoImplicit false

/-!
# What is asked of the owner reaches it

A byte in the pipe, a thread that is about to write one or the part of the round that is still to
come stands for everything the owner has not looked at. The owner retires when nothing is left, and
what is queued later starts another one.
-/

namespace HttpServer.CAbi

namespace State

variable {p : Platform} {s : State}

-- There is a byte in the pipe, or a thread is about to write one, or the owner is between having
-- read one and the end of its pop loop.
def Attended (s : State) : Prop :=
  0 < s.pipe ∨ s.lock = .waking ∧ s.wakePending = false ∨ s.owner = .acking ∨ s.owner = .popping

theorem Alert.attended (alert : s.Alert) (roused : s.Roused) : s.Attended := by
  rcases roused with byte | waking | acking
  · exact Or.inl byte
  · by_cases set : s.wakePending = true
    · -- somebody has written before
      rcases alert.pending (Or.inl set) with byte | acking
      · exact Or.inl byte
      · exact Or.inr (Or.inr (Or.inl acking))
    · exact Or.inr (Or.inl ⟨waking, by simpa using set⟩)
  · exact Or.inr (Or.inr (Or.inl acking))

theorem alert_of_reachable (reached : (bridge p).Reachable s) (attached : s.phase = .attached) :
    s.Alert := by
  have roles := (kept_of_reachable reached).roles
  rw [attached] at roles
  exact awake_of_reachable reached roles.of_attached

theorem commands_attended (reached : (bridge p).Reachable s) (attached : s.phase = .attached)
    (some : s.commands ≠ []) : s.Attended := by
  have alert := alert_of_reachable reached attached
  rcases alert.commands some with roused | popping
  · exact alert.attended roused
  · exact Or.inr (Or.inr (Or.inr popping))

theorem flagged_attended (reached : (bridge p).Reachable s) (attached : s.phase = .attached) {k : Key}
    {task : Task} {t : Ticket} (present : s.tasks.get k = some task)
    (found : s.memory.ticket k = some t) (unmarked : task.marked = false)
    (flagged : s.memory.Flagged s.refused t) :
    s.Attended ∨ ∃ rest, s.owner = .cancelling rest ∧ k ∈ rest := by
  have alert := alert_of_reachable reached attached
  rcases alert.flagged k task t present found unmarked flagged with roused | popping | sweep
  · exact Or.inl (alert.attended roused)
  · exact Or.inl (Or.inr (Or.inr (Or.inr popping)))
  · exact Or.inr sweep

theorem retired_of_idle {s' : State} (reached : (bridge p).Reachable s)
    (idle : (bridge p).step (.owner .idle) s = some s') (retires : s'.phase = .retiring) :
    s'.Retired ∧ s'.queued = s.queued ∧
      s.commands = [] ∧ s.memory.live = [] ∧ ∀ k, s.memory.ticket k = none := by
  have kept := kept_of_reachable reached
  have made : s.step p (.owner .idle) = some s' := idle
  cases kept.steps made with
  | owner free made =>
    have quits := kept.quits_owner made
    simp only [ownerStep, Option.ite_none_right_eq_some] at made
    obtain ⟨owner, made⟩ := made
    split_ifs at made with none
    · cases made
      exact ⟨⟨none.2.2, Or.inl rfl⟩, rfl, none.2.2, quits.leaving rfl⟩
    · -- the round goes on, and the runtime is still attached
      cases made
      have roles := kept.roles
      rw [owner] at roles
      have attached := (roles.of_looping rfl).1
      change s.phase = .retiring at retires
      simp [attached] at retires

-- What a call queues after the owner has retired is queued for one that has started since.
theorem Retired.restarts {s' last : State} {labels : List Label} {c : Call} {e : Entry}
    (reached : (bridge p).Reachable s) (retired : s.Retired) (path : (bridge p).Path s labels s')
    (called : (bridge p).step (.call c) s' = some last) (queues : last.queued = s'.queued ++ [e]) :
    ∃ front back middle, labels ++ [.call c] = front ++ back ∧ front ≠ [] ∧
      (bridge p).Path s front middle ∧ (bridge p).Path middle back last ∧
        middle.owner = .starting := by
  refine retired.path reached (path.append (.single called)) (Or.inl fun same => ?_)
  have before : e ∈ s'.queued :=
    (mem_queued_path reached path e).mpr (Or.inl (by rw [← same, queues]; simp))
  have logged := logged_of_reachable ((reached.path path).next called)
  exact logged.queued_fresh queues (List.mem_map_of_mem before)

end State

/-- Commands, cancellations and chunks that are returned: nothing waits unnoticed while the runtime
is attached. -/
theorem wakeups_kept {p : Platform} {s : State} (reached : (bridge p).Reachable s)
    (attached : s.phase = .attached) :
    (s.commands ≠ [] → s.Attended) ∧
      (∀ k task t, s.tasks.get k = some task → s.memory.ticket k = some t → task.marked = false →
        s.memory.Flagged s.refused t →
        s.Attended ∨ ∃ rest, s.owner = .cancelling rest ∧ k ∈ rest) ∧
      ∀ k task t, s.tasks.get k = some task → s.memory.ticket k = some t →
        task.stage = .waiting false → s.memory.Ready t → s.Attended := by
  refine ⟨State.commands_attended reached attached,
    fun _ _ _ present found => State.flagged_attended reached attached present found,
    fun k task t present found stage ready => ?_⟩
  have alert := State.alert_of_reachable reached attached
  exact alert.attended (alert.waiting k task t present found stage ready)

-- The host cancels the read of `reading`, and the pop loop has just ended.
def cancelling : List Label :=
  [.call (.cancel 7), .write, .mark, .owner .readByte, .owner .ack, .owner .pop]

set_option maxRecDepth 4000 in
theorem cancelling_sweeps : ∃ s,
    (bridge platform).exec (starting ++ answering ++ reading ++ cancelling) (bridge platform).init =
      some s ∧ s.phase = .attached ∧ (s.pipe = 0 ∧ s.lock = .free ∧ s.owner = .cancelling [7]) ∧
      s.tasks.get 7 = some ⟨.waiting true, false⟩ ∧
      ∃ t, s.memory.ticket 7 = some t ∧ s.memory.Flagged s.refused t := by
  have run : ((bridge platform).exec (starting ++ answering ++ reading ++ cancelling)
      (bridge platform).init).map (fun s => ((s.phase, s.pipe, s.lock, s.owner), s.tasks.get 7,
        s.memory.ticket 7)) =
      some ((.attached, 0, .free, .cancelling [7]), some ⟨.waiting true, false⟩,
        some ⟨.read, 0, true, false, false, some 3, ⟨.ok, .done, none, none, none⟩⟩) := by
    rfl
  obtain ⟨s, ends, same⟩ := Option.map_eq_some_iff.mp run
  simp only [Prod.mk.injEq] at same
  obtain ⟨⟨attached, pipe, lock, owner⟩, present, found⟩ := same
  exact ⟨s, ends, attached, ⟨pipe, lock, owner⟩, present, _, found, rfl, Or.inl rfl⟩

theorem wakeups_kept_cancelling : ∃ s,
    (bridge platform).exec (starting ++ answering ++ reading ++ cancelling) (bridge platform).init =
      some s ∧ s.tasks.get 7 = some ⟨.waiting true, false⟩ ∧
      (s.Attended ∨ ∃ rest, s.owner = .cancelling rest ∧ 7 ∈ rest) := by
  obtain ⟨s, ends, attached, _, present, t, found, flagged⟩ := cancelling_sweeps
  have kept := wakeups_kept (Machine.reachable_of_exec ends) attached
  exact ⟨s, ends, present, kept.2.1 7 _ t present found rfl flagged⟩

/-- The owner retires when nothing is left to do. What is queued after that is queued for an owner
that has started since, and it is off the queue when the threads come to rest. -/
theorem retired_serves {p : Platform} {s s' last : State} {labels : List Label}
    (reached : (bridge p).Reachable s) (idle : (bridge p).step (.owner .idle) s = some s')
    (retires : s'.phase = .retiring) (path : (bridge p).Path s' labels last) :
    (s.commands = [] ∧ s.memory.live = [] ∧ ∀ k, s.memory.ticket k = none) ∧
      (last.queued ≠ s.queued → ∃ front back middle, labels = front ++ back ∧ front ≠ [] ∧
        (bridge p).Path s' front middle ∧ (bridge p).Path middle back last ∧
          middle.owner = .starting) ∧
      ((bridge p).Rests (fun label => label.own = true) last → last.commands = []) := by
  obtain ⟨retired, queued, done⟩ := State.retired_of_idle reached idle retires
  have reached' : (bridge p).Reachable s' := reached.next idle
  refine ⟨done, fun more => ?_, fun rests => State.rests_commands rests (reached'.path path)⟩
  exact retired.path reached' path (Or.inl (queued.symm ▸ more))

-- After `closing` the owner looks once more and retires; the host creates another engine.
def retiring : List Label := [.owner .readByte, .owner .ack, .owner .pop, .owner .cancelNext]

def restarting : List Label :=
  [.owner .leave, .owner .drainEnd, .notifier .exit, .notifier .join, .reap] ++ starting.take 1

set_option maxRecDepth 4000 in
theorem retiring_restarts : ∃ s s' middle last c,
    (bridge platform).exec (starting ++ closing ++ retiring) (bridge platform).init = some s ∧
      (bridge platform).step (.owner .idle) s = some s' ∧ s'.phase = .retiring ∧
      (s.queued.length = 2 ∧ last.queued.length = 3) ∧ restarting = restarting.take 5 ++ [.call c] ∧
      (bridge platform).Path s' (restarting.take 5) middle ∧
      (bridge platform).step (.call c) middle = some last ∧
      last.queued = middle.queued ++ [⟨4, 3, .createEngine⟩] := by
  have run : ((bridge platform).exec (starting ++ closing ++ retiring) (bridge platform).init).map
      (fun s => (s.queued.length, ((bridge platform).step (.owner .idle) s).map fun s' =>
        (s'.phase, ((bridge platform).exec (restarting.take 5) s').map fun middle =>
          ((bridge platform).step
              (.call (.create ⟨.createEngine, 2, true, true, true, true, true, true⟩)) middle).map
            fun last => (last.queued.length, last.queued == middle.queued ++ [⟨4, 3, .createEngine⟩])))) =
      some (2, some (.retiring, some (some (3, true)))) := by
    rfl
  obtain ⟨s, ends, same⟩ := Option.map_eq_some_iff.mp run
  simp only [Prod.mk.injEq, Option.map_eq_some_iff, beq_iff_eq] at same
  obtain ⟨before, s', idle, phase, middle, path, last, called, after, queues⟩ := same
  exact ⟨s, s', middle, last, _, ends, idle, phase, ⟨before, after⟩, rfl, Machine.path_of_exec path,
    called, queues⟩

theorem retired_serves_restarting : ∃ s s' last,
    (bridge platform).exec (starting ++ closing ++ retiring) (bridge platform).init = some s ∧
      (bridge platform).step (.owner .idle) s = some s' ∧ s'.phase = .retiring ∧
      (bridge platform).Path s' restarting last ∧ last.queued.length = 3 ∧
      ∃ front back middle, restarting = front ++ back ∧ front ≠ [] ∧
        (bridge platform).Path s' front middle ∧ (bridge platform).Path middle back last ∧
          middle.owner = .starting := by
  obtain ⟨s, s', middle, last, c, ends, idle, phase, ⟨before, after⟩, labels, first, called, _⟩ :=
    retiring_restarts
  have path : (bridge platform).Path s' restarting last := by
    rw [labels]
    exact first.append (.single called)
  have serves := retired_serves (Machine.reachable_of_exec ends) idle phase path
  refine ⟨s, s', last, ends, idle, phase, path, after, serves.2.1 fun same => ?_⟩
  rw [same, before] at after
  cases after

/-- While it is attached the owner attends to every command and has every task before it that is
flagged; it retires when nothing is left, and what a call queues after that is queued for an owner
that has started since and answered like everything else. -/
theorem owner_attends {p : Platform} {s : State} (reached : (bridge p).Reachable s) :
    (s.phase = .attached →
      (s.commands ≠ [] → s.Attended) ∧
      ∀ k task t, s.tasks.get k = some task → s.memory.ticket k = some t → task.marked = false →
        s.memory.Flagged s.refused t →
        s.Attended ∨ ∃ rest, s.owner = .cancelling rest ∧ k ∈ rest) ∧
      ∀ s', (bridge p).step (.owner .idle) s = some s' → s'.phase = .retiring →
        (s.commands = [] ∧ s.memory.live = [] ∧ ∀ k, s.memory.ticket k = none) ∧
        ∀ labels middle c next e, (bridge p).Path s' labels middle →
          (bridge p).step (.call c) middle = some next → next.queued = middle.queued ++ [e] →
          (∃ front back started, labels ++ [.call c] = front ++ back ∧ front ≠ [] ∧
            (bridge p).Path s' front started ∧ (bridge p).Path started back next ∧
              started.owner = .starting) ∧
          ∀ more last, (bridge p).Path next more last → last.Settles p ∧
            ((bridge p).Rests (fun label => label.own = true) last →
              e.key ∉ last.commands ∧ (e ∈ last.taken ∨ last.HeldUp e.key)) := by
  refine ⟨fun attached => ⟨State.commands_attended reached attached,
    fun _ _ _ present found => State.flagged_attended reached attached present found⟩,
    fun s' idle retires => ?_⟩
  obtain ⟨retired, _, done⟩ := State.retired_of_idle reached idle retires
  refine ⟨done, fun labels middle c next e path called queues => ⟨?_, fun more last later => ?_⟩⟩
  · exact retired.restarts (reached.next idle) path called queues
  · have reached' : (bridge p).Reachable next := ((reached.next idle).path path).next called
    refine ⟨State.settles_of_reachable (reached'.path later), fun rests => ?_⟩
    have member : e ∈ last.queued :=
      (State.mem_queued_path reached' later e).mpr (Or.inl (by rw [queues]; simp))
    rw [State.rests_commands rests (reached'.path later)]
    exact ⟨List.not_mem_nil, State.delivered_at_rest (reached'.path later) rests member⟩

theorem owner_attends_cancelling :
    (∃ s, (bridge platform).exec (starting ++ answering ++ reading ++ cancelling)
        (bridge platform).init = some s ∧
      (s.Attended ∨ ∃ rest, s.owner = .cancelling rest ∧ 7 ∈ rest)) ∧
      ∃ s s' middle last c, (bridge platform).exec (starting ++ closing ++ retiring)
          (bridge platform).init = some s ∧
        (bridge platform).step (.owner .idle) s = some s' ∧
        (bridge platform).Path s' (restarting.take 5) middle ∧
        (bridge platform).step (.call c) middle = some last ∧
        ∃ front back started, restarting.take 5 ++ [.call c] = front ++ back ∧ front ≠ [] ∧
          (bridge platform).Path s' front started ∧ (bridge platform).Path started back last ∧
            started.owner = .starting := by
  obtain ⟨s, ends, attached, _, present, t, found, flagged⟩ := cancelling_sweeps
  obtain ⟨s₁, s', middle, last, c, ends₁, idle, phase, _, _, path, called, queues⟩ := retiring_restarts
  have sweeps := (owner_attends (Machine.reachable_of_exec ends)).1 attached
  have serves := ((owner_attends (Machine.reachable_of_exec ends₁)).2 s' idle phase).2
  exact ⟨⟨s, ends, sweeps.2 7 _ t present found rfl flagged⟩,
    s₁, s', middle, last, c, ends₁, idle, path, called, (serves _ _ _ _ _ path called queues).1⟩

-- The pop loop is over and no byte is there, but the sweep has the task still before it.
theorem owner_unattended : ∃ s k task t, (bridge platform).Reachable s ∧ s.phase = .attached ∧
    s.tasks.get k = some task ∧ s.memory.ticket k = some t ∧ task.marked = false ∧
      s.memory.Flagged s.refused t ∧ ¬s.Attended := by
  obtain ⟨s, ends, attached, ⟨pipe, lock, owner⟩, present, t, found, flagged⟩ := cancelling_sweeps
  refine ⟨s, 7, _, t, Machine.reachable_of_exec ends, attached, present, found, rfl, flagged, ?_⟩
  simp [State.Attended, pipe, lock, owner]

end HttpServer.CAbi
