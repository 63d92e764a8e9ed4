import HttpServer.CAbi.Rest

set_option autoImplicit false

/-!
# One notice for each operation

What a call accepts is queued, what is queued is answered once, and what is answered is delivered
once, the close of an instance behind everything else of it.
-/

namespace HttpServer.CAbi

/-- On a run that begins in `s` the call `c` is accepted and queues `e`. -/
inductive Accepted (p : Platform) : State → List Label → Call → Entry → Prop
  | here {s next : State} {rest : List Label} {c : Call} {e : Entry}
      (called : (bridge p).step (.call c) s = some next) (good : (c.run p s).1 = .ok)
      (queues : next.queued = s.queued ++ [e]) (asks : c.asks s.memory e) :
      Accepted p s (.call c :: rest) c e
  | later {s next : State} {label : Label} {rest : List Label} {c : Call} {e : Entry}
      (moves : (bridge p).step label s = some next) (accepted : Accepted p next rest c e) :
      Accepted p s (label :: rest) c e

theorem Accepted.behind {p : Platform} {s middle : State} {front back : List Label} {c : Call}
    {e : Entry} (path : (bridge p).Path s front middle) (accepted : Accepted p middle back c e) :
    Accepted p s (front ++ back) c e := by
  induction path with
  | here => exact accepted
  | step move _ ih => exact .later move (ih accepted)

namespace State

variable {p : Platform} {s s' : State}

/-- Left alone by the host the threads come to rest, whatever they do. -/
def Settles (p : Platform) (s : State) : Prop :=
  Acc (fun next s : State =>
      (bridge p).Reachable s ∧ ∃ label : Label, label.own = true ∧ s.step p label = some next) s ∧
    ∃ labels last, (∀ label ∈ labels, label.own = true) ∧ (bridge p).Path s labels last ∧
      (bridge p).Rests (fun label => label.own = true) last

theorem settles_of_reachable (reached : (bridge p).Reachable s) : s.Settles p :=
  ⟨(own_wellFounded p).apply s, reaches_rest reached⟩

theorem Starts.queued {started : Bool} (starts : Starts s started s') : s'.queued = s.queued := by
  cases starts <;> rfl

theorem queued_enqueue {m : Memory} {k : Key} {t : Ticket} (found : m.ticket k = some t) :
    ({ s with memory := m }.enqueue k).queued = s.queued ++ [t.entry k] := by
  have entries : ({ s with memory := m } : State).entries k = [t.entry k] := entries_eq found
  rw [enqueue, entries]
  rfl

-- A call queues what it asks for when it returns an operation, and a refused call queues nothing.
theorem Answers.queues {c : Call} {code : Code} (answers : Answers p s c code s') :
    s'.queued = s.queued ∧ (code = .ok → c.accepts = false) ∨
      code = .ok ∧ ∃ e, s'.queued = s.queued ++ [e] ∧ c.asks s.memory e := by
  cases answers with
  | refused failed | rejected _ failed => exact Or.inl ⟨rfl, fun good => absurd good failed⟩
  | unstarted starts failed => exact Or.inl ⟨Starts.queued starts, fun good => absurd good failed⟩
  | uncreated starts _ failed =>
    have queued := Starts.queued starts
    exact Or.inl ⟨queued, fun good => absurd good failed⟩
  | @created c s₁ k m starts _ made =>
    have queued := queued_enqueue (s := s₁) (m := m) ((made.ticket k).trans (if_pos rfl))
    refine Or.inr ⟨rfl, (Ticket.new c.kind s₁.memory.fresh none).entry k, ?_, rfl⟩
    rw [queued, Starts.queued starts]
  | @admitted c k _ _ _ m admits _ _ _ _ _ asks =>
    have queued := queued_enqueue (s := s) (m := m) ((admits.ticket k).trans (if_pos rfl))
    exact Or.inr ⟨rfl, _, queued, asks⟩
  | cancelled | late | unreleased | chunkReturned => exact Or.inl ⟨rfl, fun _ => rfl⟩
  | returned _ releases => exact Or.inl ⟨rfl, fun _ => releases⟩

theorem queued_ownerStep {move : OwnerMove} (made : s.ownerStep move = some s') :
    s'.queued = s.queued := by
  cases move with
  | drainComplete =>
    simp only [ownerStep] at made
    split at made <;> cases made
    exact (s.complete_still _ _ _).queued
  | pop =>
    simp only [ownerStep, Option.ite_none_right_eq_some] at made
    obtain ⟨_, made⟩ := made
    split at made <;> cases made <;> rfl
  | cancelNext | drainPop =>
    simp only [ownerStep] at made
    split at made <;> cases made <;> rfl
  | idle =>
    simp only [ownerStep, Option.ite_none_right_eq_some] at made
    obtain ⟨_, made⟩ := made
    split_ifs at made <;> cases made <;> rfl
  | attach | bootstrapFails | readByte | ack | leave | drainEnd =>
    simp only [ownerStep, Option.ite_none_right_eq_some, Option.some.injEq] at made
    obtain ⟨_, rfl⟩ := made
    rfl

theorem queued_notifierStep {move : NotifierMove} (made : s.notifierStep move = some s') :
    s'.queued = s.queued := by
  cases move with
  | take | returned =>
    simp only [notifierStep] at made
    split at made <;> cases made
    rfl
  | exit | join =>
    simp only [notifierStep, Option.ite_none_right_eq_some, Option.some.injEq] at made
    obtain ⟨_, rfl⟩ := made
    rfl

-- Only a call that is accepted queues anything.
theorem Kept.queued_step (kept : s.Kept) {label : Label} (made : s.step p label = some s') :
    s'.queued = s.queued ∨ ∃ c e, label = .call c ∧ (c.run p s).1 = .ok ∧
      s'.queued = s.queued ++ [e] ∧ c.asks s.memory e := by
  cases kept.steps made with
  | write =>
    left
    unfold writeByte
    split_ifs <;> rfl
  | mark | reap | serverStops | serverFails => exact Or.inl rfl
  | reads made | owner _ made => exact Or.inl (queued_ownerStep made)
  | @call c _ _ answers =>
    rcases Answers.queues answers with ⟨same, _⟩ | ⟨good, e, more, asks⟩
    · exact Or.inl same
    · exact Or.inr ⟨c, e, rfl, good, more, asks⟩
  | task _ _ _ _ _ works => exact Or.inl (Works.still works).queued
  | notifier _ made => exact Or.inl (queued_notifierStep made)

theorem queued_of_call (reached : (bridge p).Reachable s) {c : Call}
    (called : (bridge p).step (.call c) s = some s') :
    ((c.run p s).1 ≠ .ok → s'.queued = s.queued) ∧
      (c.accepts = true → (c.run p s).1 = .ok →
        ∃ e, s'.queued = s.queued ++ [e] ∧ c.asks s.memory e) := by
  have made : s.step p (.call c) = some s' := called
  cases (kept_of_reachable reached).steps made with
  | call _ _ answers =>
    rcases Answers.queues answers with ⟨same, unaccepted⟩ | ⟨good, more⟩
    · exact ⟨fun _ => same, fun accepts good => absurd accepts (by simp [unaccepted good])⟩
    · exact ⟨fun bad => absurd good bad, fun _ _ => more⟩

-- What is queued on a run is what its calls have queued.
theorem mem_queued_path {labels : List Label} (reached : (bridge p).Reachable s)
    (path : (bridge p).Path s labels s') (e : Entry) :
    e ∈ s'.queued ↔ e ∈ s.queued ∨ ∃ c, Accepted p s labels c e := by
  induction path with
  | here s =>
    refine ⟨Or.inl, fun known => known.resolve_right ?_⟩
    rintro ⟨c, accepted⟩
    cases accepted
  | @step s next last label rest move later ih =>
    rw [ih (reached.next move)]
    constructor
    · rintro (member | ⟨c, accepted⟩)
      · rcases (kept_of_reachable reached).queued_step move with same | ⟨c, e', rfl, good, more, asks⟩
        · exact Or.inl (same ▸ member)
        · rw [more, List.mem_append, List.mem_singleton] at member
          rcases member with before | rfl
          · exact Or.inl before
          · exact Or.inr ⟨c, .here move good more asks⟩
      · exact Or.inr ⟨c, .later move accepted⟩
    · rintro (before | ⟨c, accepted⟩)
      · rcases (kept_of_reachable reached).queued_step move with same | ⟨_, _, _, _, more, _⟩
        · exact Or.inl (same ▸ before)
        · exact Or.inl (more ▸ List.mem_append_left _ before)
      · cases accepted with
        | here called good queues asks =>
          cases move.symm.trans called
          exact Or.inl (queues ▸ List.mem_append_right _ (List.mem_singleton_self e))
        | later moves accepted =>
          cases move.symm.trans moves
          exact Or.inr ⟨c, accepted⟩

theorem mem_queued {labels : List Label} (path : (bridge p).Path (bridge p).init labels s) (e : Entry) :
    e ∈ s.queued ↔ ∃ c, Accepted p (bridge p).init labels c e := by
  have start : e ∉ (bridge p).init.queued := List.not_mem_nil
  rw [mem_queued_path ⟨[], .here _⟩ path e]
  exact ⟨fun known => known.resolve_left start, Or.inr⟩

namespace Logged

theorem taken_completed (logged : s.Logged) {e : Entry} (member : e ∈ s.taken) : e ∈ s.completed := by
  obtain ⟨rest, all, _⟩ := logged.order
  rw [all]
  exact List.mem_append_left _ member

theorem taken_once (logged : s.Logged) : (s.taken.map Entry.key).Nodup := by
  obtain ⟨rest, all, _⟩ := logged.order
  have once := logged.once
  rw [all, List.map_append] at once
  exact once.of_append_left

theorem queued_fresh (logged : s.Logged) {before : List Entry} {e : Entry}
    (queues : s.queued = before ++ [e]) : e.key ∉ before.map Entry.key := by
  have keys := logged.keys
  rw [queues, List.map_append, List.nodup_append] at keys
  exact fun member => keys.2.2 e.key member e.key (by simp) rfl

-- With the notice of a close every operation of the instance has its own.
theorem close_last (logged : s.Logged) {front back : List Entry} {e : Entry}
    (taken : s.taken = front ++ e :: back) (closes : e.kind.closes = true) :
    (∀ e' ∈ s.queued, e'.owner = e.owner → e' = e ∨ e' ∈ front) ∧
      ∀ e' ∈ back, e'.owner ≠ e.owner := by
  obtain ⟨rest, all, _⟩ := logged.order
  have completed : s.completed = front ++ e :: (back ++ rest) := by rw [all, taken]; simp
  have last := logged.last
  rw [completed, List.pairwise_append, List.pairwise_cons] at last
  have behind := last.2.1.1
  refine ⟨fun e' member owner => ?_, fun e' member => behind e' (List.mem_append_left _ member) closes⟩
  have done := logged.settled e (by simp [completed]) closes e' member owner
  rw [completed, List.mem_append, List.mem_cons] at done
  rcases done with before | here | after
  · exact Or.inr before
  · exact Or.inl here
  · exact absurd owner (behind e' after closes)

end Logged

-- What is queued and not delivered is at rest a read that waits.
theorem delivered_at_rest (reached : (bridge p).Reachable s)
    (rests : (bridge p).Rests (fun label => label.own = true) s) {e : Entry} (member : e ∈ s.queued) :
    e ∈ s.taken ∨ s.HeldUp e.key := by
  have logged := logged_of_reachable reached
  rcases logged.accounted e member with done | ⟨t, found, _, _⟩
  · obtain ⟨rest, all, keys⟩ := logged.order
    rw [rests_notices rests reached |>.1, List.map_eq_nil_iff] at keys
    rw [all, keys, List.append_nil] at done
    exact Or.inl done
  · exact Or.inr (rests_heldUp rests reached found)

end State

/-- In every interleaving a notice is delivered once and for what a call has accepted, and the
notice of a close is the last one of its instance. -/
theorem notices_once {p : Platform} {s : State} (reached : (bridge p).Reachable s) :
    (s.queued.map Entry.key).Nodup ∧ (s.taken.map Entry.key).Nodup ∧ (∀ e ∈ s.taken, e ∈ s.queued) ∧
      (∀ c : Call, c.legal s.memory = true →
        ((c.run p s).1 ≠ .ok → (c.run p s).2.queued = s.queued) ∧
        (c.accepts = true → (c.run p s).1 = .ok → ∃ e, (c.run p s).2.queued = s.queued ++ [e])) ∧
      ∀ front e back, s.taken = front ++ e :: back → e.kind.closes = true →
        (∀ e' ∈ s.queued, e'.owner = e.owner → e' = e ∨ e' ∈ front) ∧
          ∀ e' ∈ back, e'.owner ≠ e.owner := by
  have logged := State.logged_of_reachable reached
  refine ⟨logged.keys, logged.taken_once, fun e member => ?_, fun c legal => ?_,
    fun front e back taken closes => logged.close_last taken closes⟩
  · exact logged.accepted e (logged.taken_completed member)
  · have answers := State.run_answers (p := p) (State.kept_of_reachable reached).custody.tidy legal
    rcases State.Answers.queues answers with ⟨same, unaccepted⟩ | ⟨good, e, more, _⟩
    · exact ⟨fun _ => same, fun accepts good => absurd accepts (by simp [unaccepted good])⟩
    · exact ⟨fun bad => absurd good bad, fun _ _ => ⟨e, more⟩⟩

def closing : List Label :=
  [.call (.close 0 true true), .write] ++ around ++ [.task 2 (.begin true), .task 2 .shut] ++ notified

set_option maxRecDepth 4000 in
theorem closing_taken : ∃ s,
    (bridge platform).exec (starting ++ closing) (bridge platform).init = some s ∧
      s.taken = [⟨1, 0, .createEngine⟩, ⟨2, 0, .closeEngine⟩] := by
  have run : ((bridge platform).exec (starting ++ closing) (bridge platform).init).map
      (fun s => s.taken) = some [⟨1, 0, .createEngine⟩, ⟨2, 0, .closeEngine⟩] := by
    rfl
  exact Option.map_eq_some_iff.mp run

theorem notices_once_closing : ∃ s,
    (bridge platform).exec (starting ++ closing) (bridge platform).init = some s ∧
      s.taken = [⟨1, 0, .createEngine⟩, ⟨2, 0, .closeEngine⟩] ∧
      (s.queued.map Entry.key).Nodup ∧ (s.taken.map Entry.key).Nodup ∧ (∀ e ∈ s.taken, e ∈ s.queued) ∧
      (∀ c : Call, c.legal s.memory = true →
        ((c.run platform s).1 ≠ .ok → (c.run platform s).2.queued = s.queued) ∧
        (c.accepts = true → (c.run platform s).1 = .ok →
          ∃ e, (c.run platform s).2.queued = s.queued ++ [e])) ∧
      ∀ front e back, s.taken = front ++ e :: back → e.kind.closes = true →
        (∀ e' ∈ s.queued, e'.owner = e.owner → e' = e ∨ e' ∈ front) ∧
          ∀ e' ∈ back, e'.owner ≠ e.owner := by
  obtain ⟨s, ends, taken⟩ := closing_taken
  exact ⟨s, ends, taken, notices_once (Machine.reachable_of_exec ends)⟩

/-- Left alone by the host the threads come to rest whatever they do, and then every operation has
its notice but for reads that wait for a chunk which the host holds. -/
theorem notices_delivered {p : Platform} {s : State} (reached : (bridge p).Reachable s) :
    (Acc (fun next s : State =>
        (bridge p).Reachable s ∧ ∃ label : Label, label.own = true ∧ s.step p label = some next) s ∧
      ∃ labels last, (∀ label ∈ labels, label.own = true) ∧ (bridge p).Path s labels last ∧
        (bridge p).Rests (fun label => label.own = true) last) ∧
      ((bridge p).Rests (fun label => label.own = true) s →
        ∀ e ∈ s.queued, e ∈ s.taken ∨ s.HeldUp e.key) :=
  ⟨State.settles_of_reachable reached,
    fun rests _ member => State.delivered_at_rest reached rests member⟩

def reading : List Label :=
  [.call (.read 3 true true), .write] ++ around ++ [.task 7 (.begin true)]

set_option maxRecDepth 4000 in
theorem reading_rests : ∃ s,
    (bridge platform).exec (starting ++ answering ++ reading) (bridge platform).init = some s ∧
      (bridge platform).Rests (fun label => label.own = true) s ∧ ⟨7, 0, .read⟩ ∈ s.queued ∧
      ⟨7, 0, .read⟩ ∉ s.taken := by
  have run : ((bridge platform).exec (starting ++ answering ++ reading) (bridge platform).init).map
      (fun s => ((s.lock, s.owner, s.pipe), (s.notices, s.notifier, s.ownerDone), s.scopes, s.tasks,
        s.queued.contains ⟨7, 0, .read⟩, s.taken.contains ⟨7, 0, .read⟩)) =
      some ((.free, .reading, 0), ([], .waiting, false), ∅, OrderedMap.ofList [(7, ⟨.waiting false, false⟩)],
        true, false) := by
    rfl
  obtain ⟨s, ends, same⟩ := Option.map_eq_some_iff.mp run
  simp only [Prod.mk.injEq] at same
  obtain ⟨⟨free, owner, pipe⟩, ⟨notices, notifier, ownerDone⟩, scopes, tasks, queued, taken⟩ := same
  refine ⟨s, ends, ?_, by simpa using queued, by simpa using taken⟩
  refine State.rests_of free (fun move => ?_) (fun _ k task present => ?_) (fun i => ?_) fun move => ?_
  · cases move <;> simp [State.ownerStep, owner, pipe]
  · rw [tasks] at present
    obtain ⟨rfl, rfl⟩ | ⟨_, absent⟩ := OrderedMap.get_insert_eq_some.mp present
    · exact ⟨rfl, rfl⟩
    · cases absent
  · simp [scopes]
  · cases move <;> simp [State.notifierStep, notices, notifier, ownerDone]

theorem notices_delivered_reading : ∃ s,
    (bridge platform).exec (starting ++ answering ++ reading) (bridge platform).init = some s ∧
      (bridge platform).Rests (fun label => label.own = true) s ∧ ⟨7, 0, .read⟩ ∈ s.queued ∧
      ⟨7, 0, .read⟩ ∉ s.taken ∧ s.HeldUp 7 := by
  obtain ⟨s, ends, rests, queued, untaken⟩ := reading_rests
  have delivered := (notices_delivered (Machine.reachable_of_exec ends)).2 rests _ queued
  exact ⟨s, ends, rests, queued, untaken, delivered.resolve_left untaken⟩

/-- On every run each notice is that of an operation which a call has accepted and comes once, the
one of a close behind all others of its instance; left alone the threads come to rest, and then no
notice is missing but of reads that wait for a chunk which the host holds. -/
theorem operations_answered {p : Platform} {labels : List Label} {s : State}
    (path : (bridge p).Path (bridge p).init labels s) :
    (∀ c next, (bridge p).step (.call c) s = some next →
        ((c.run p s).1 ≠ .ok → next.queued = s.queued) ∧
        (c.accepts = true → (c.run p s).1 = .ok → ∃ e, e.key ∉ s.queued.map Entry.key ∧
          Accepted p (bridge p).init (labels ++ [.call c]) c e)) ∧
      ((s.taken.map Entry.key).Nodup ∧ ∀ e ∈ s.taken, ∃ c, Accepted p (bridge p).init labels c e) ∧
      s.Settles p ∧
      ((bridge p).Rests (fun label => label.own = true) s →
        ∀ c e, Accepted p (bridge p).init labels c e → e ∈ s.taken ∨ s.HeldUp e.key) ∧
      ∀ front e back, s.taken = front ++ e :: back → e.kind.closes = true →
        (∀ c e', Accepted p (bridge p).init labels c e' → e'.owner = e.owner → e' = e ∨ e' ∈ front) ∧
          ∀ e' ∈ back, e'.owner ≠ e.owner := by
  have reached : (bridge p).Reachable s := ⟨labels, path⟩
  have logged := State.logged_of_reachable reached
  have queued {c : Call} {e : Entry} (accepted : Accepted p (bridge p).init labels c e) :
      e ∈ s.queued := (State.mem_queued path e).mpr ⟨c, accepted⟩
  refine ⟨fun c next called => ?_, ⟨logged.taken_once, fun e member => ?_⟩,
    State.settles_of_reachable reached,
    fun rests c e accepted => State.delivered_at_rest reached rests (queued accepted),
    fun front e back taken closes => ?_⟩
  · obtain ⟨refused, accepts⟩ := State.queued_of_call reached called
    refine ⟨refused, fun returns good => ?_⟩
    obtain ⟨e, more, asks⟩ := accepts returns good
    have logged' := State.logged_of_reachable (reached.next called)
    exact ⟨e, logged'.queued_fresh more, .behind path (.here called good more asks)⟩
  · exact (State.mem_queued path e).mp (logged.accepted e (logged.taken_completed member))
  · obtain ⟨before, after⟩ := logged.close_last taken closes
    exact ⟨fun c e' accepted => before e' (queued accepted), after⟩

theorem operations_answered_closing : ∃ s,
    (bridge platform).exec (starting ++ closing) (bridge platform).init = some s ∧
      s.taken = [⟨1, 0, .createEngine⟩, ⟨2, 0, .closeEngine⟩] ∧
      (∀ e ∈ s.taken, ∃ c, Accepted platform (bridge platform).init (starting ++ closing) c e) ∧
      ∀ c e, Accepted platform (bridge platform).init (starting ++ closing) c e → e.owner = 0 →
        e = ⟨2, 0, .closeEngine⟩ ∨ e = ⟨1, 0, .createEngine⟩ := by
  obtain ⟨s, ends, taken⟩ := closing_taken
  have answered := operations_answered (Machine.path_of_exec ends)
  refine ⟨s, ends, taken, answered.2.1.2, fun c e accepted owner => ?_⟩
  have last := answered.2.2.2.2 [⟨1, 0, .createEngine⟩] ⟨2, 0, .closeEngine⟩ [] taken rfl
  simpa using last.1 c e accepted owner

-- A read that is accepted waits as long as the host keeps the chunk before it.
set_option maxRecDepth 4000 in
theorem operations_unanswered : ∃ labels s,
    (bridge platform).Path (bridge platform).init labels s ∧
      (bridge platform).Rests (fun label => label.own = true) s ∧
      Accepted platform (bridge platform).init labels (.read 3 true true) ⟨7, 0, .read⟩ ∧
      ⟨7, 0, .read⟩ ∉ s.taken := by
  obtain ⟨s, ends, rests, _, untaken⟩ := reading_rests
  have run : ((bridge platform).exec (starting ++ answering) (bridge platform).init).map
      (fun s => (((Call.read 3 true true).run platform s).1,
        ((bridge platform).step (.call (.read 3 true true)) s).map fun next =>
          next.queued == s.queued ++ [⟨7, 0, .read⟩])) = some (.ok, some true) := by
    rfl
  obtain ⟨middle, before, same⟩ := Option.map_eq_some_iff.mp run
  simp only [Prod.mk.injEq, Option.map_eq_some_iff, beq_iff_eq] at same
  obtain ⟨good, next, called, queued⟩ := same
  obtain ⟨e, more, asks⟩ :=
    (State.queued_of_call (Machine.reachable_of_exec before) called).2 rfl good
  obtain rfl : e = ⟨7, 0, .read⟩ := by simpa [queued] using more.symm
  exact ⟨_, s, Machine.path_of_exec ends, rests,
    .behind (Machine.path_of_exec before) (.here called good queued asks), untaken⟩

end HttpServer.CAbi
