import HttpServer.CAbi.Dormancy

set_option autoImplicit false

/-!
# Which notices are delivered, and in which order

A notice is delivered for what was queued and for nothing else, once, and the notice of a close is
the last one of its instance.
-/

namespace HttpServer.CAbi

theorem Ticket.Like.entry {t t' : Ticket} (like : t.Like t') (k : Key) : t'.entry k = t.entry k := by
  rw [Ticket.entry, Ticket.entry, like.owner, like.kind]

namespace State

variable {p : Platform} {s s' : State}

def Pending (s : State) (e : Entry) : Prop :=
  ∃ t, s.memory.ticket e.key = some t ∧ t.done = false ∧ t.entry e.key = e

structure Logged (s : State) : Prop where
  order : ∃ rest, s.completed = s.taken ++ rest ∧ rest.map Entry.key = s.notices
  keys : (s.queued.map Entry.key).Nodup
  addressed : ∀ e ∈ s.queued, e.key < s.memory.fresh ∧ e.owner < s.memory.fresh
  known : ∀ k t, s.memory.ticket k = some t → t.entry k ∈ s.queued
  accounted : ∀ e ∈ s.queued, e ∈ s.completed ∨ s.Pending e
  accepted : ∀ e ∈ s.completed, e ∈ s.queued
  once : (s.completed.map Entry.key).Nodup
  answered : ∀ e ∈ s.completed, ∀ t, s.memory.ticket e.key = some t → t.done = true
  shut : ∀ e ∈ s.queued, e.kind.closes = true → ∀ inst, s.memory.insts.get e.owner = some inst →
    inst.closing = true
  settled : ∀ e ∈ s.completed, e.kind.closes = true → ∀ e' ∈ s.queued, e'.owner = e.owner →
    e' ∈ s.completed
  last : s.completed.Pairwise fun e e' => e.kind.closes = true → e'.owner ≠ e.owner

theorem entries_eq {k : Key} {t : Ticket} (found : s.memory.ticket k = some t) :
    s.entries k = [t.entry k] := by
  obtain ⟨o, op, _, rfl⟩ := Memory.ticket_eq_some.mp found
  simp only [entries, op]
  rfl

namespace Logged

theorem eq_of_key (logged : s.Logged) {e e' : Entry} (member : e ∈ s.queued) (member' : e' ∈ s.queued)
    (same : e.key = e'.key) : e = e' :=
  List.inj_on_of_nodup_map logged.keys member member' same

theorem pending (follows : s.memory.Follows s'.memory) {e : Entry} (pending : s.Pending e) :
    s'.Pending e := by
  obtain ⟨t, found, undone, entry⟩ := pending
  obtain ⟨t', found', like⟩ := follows.stays e.key t found undone
  exact ⟨t', found', like.done.trans undone, (like.entry e.key).trans entry⟩

theorem same (logged : s.Logged) (follows : s.memory.Follows s'.memory)
    (queued : s'.queued = s.queued) (completed : s'.completed = s.completed)
    (taken : s'.taken = s.taken) (notices : s'.notices = s.notices) : s'.Logged where
  order := by
    rw [completed, taken, notices]
    exact logged.order
  keys := queued ▸ logged.keys
  addressed e member := by
    obtain ⟨key, owner⟩ := logged.addressed e (queued ▸ member)
    exact ⟨key.trans_le follows.fresh, owner.trans_le follows.fresh⟩
  known k t' found := by
    obtain ⟨t, before, like⟩ := follows.tickets k t' found
    rw [queued, like.entry]
    exact logged.known k t before
  accounted e member := by
    rw [completed]
    exact (logged.accounted e (queued ▸ member)).imp_right (Logged.pending follows)
  accepted e member := queued ▸ logged.accepted e (completed ▸ member)
  once := completed ▸ logged.once
  answered e member t' found := by
    obtain ⟨t, before, like⟩ := follows.tickets e.key t' found
    exact like.done.trans (logged.answered e (completed ▸ member) t before)
  shut e member closes inst' found := by
    obtain ⟨inst, before, closing⟩ := follows.closing e.owner inst' found
    exact closing (logged.shut e (queued ▸ member) closes inst before)
  settled e member closes e' member' owner := by
    rw [completed] at member ⊢
    exact logged.settled e member closes e' (queued ▸ member') owner
  last := completed ▸ logged.last

-- A close is answered when nothing else of its instance is open.
theorem completes (logged : s.Logged) (tidy : s.memory.Tidy) {k : Key} {t : Ticket} {code : Code}
    {kind : Option ResultKind} (found : s.memory.ticket k = some t) (undone : t.done = false)
    (alone : t.kind.closes = true → ∀ key u, s.memory.ticket key = some u → u.owner = t.owner →
      u.done = false → key = k)
    (memory : s'.memory = s.memory.complete k code kind) (queued : s'.queued = s.queued)
    (completed : s'.completed = s.completed ++ [t.entry k]) (taken : s'.taken = s.taken)
    (notices : s'.notices = s.notices ++ [k]) : s'.Logged := by
  obtain ⟨_, ticket⟩ := tidy.complete found undone code kind
  obtain ⟨o, present, _, rfl⟩ := Memory.ticket_eq_some.mp found
  have shuts : s.memory.Shuts (s.memory.complete k code kind) := Memory.complete_shuts present undone
  have here := logged.known k _ found
  have unanswered (e : Entry) (member : e ∈ s.completed) : e.key ≠ k := by
    intro same
    have done := logged.answered e member o.ticket (same ▸ found)
    simp [undone] at done
  constructor
  · obtain ⟨rest, all, keys⟩ := logged.order
    refine ⟨rest ++ [o.ticket.entry k], ?_, ?_⟩
    · rw [completed, taken, all, List.append_assoc]
    · rw [List.map_append, keys, notices]
      rfl
  · exact queued ▸ logged.keys
  · intro e member
    obtain ⟨key, owner⟩ := logged.addressed e (queued ▸ member)
    rw [memory]
    exact ⟨key.trans_le shuts.fresh, owner.trans_le shuts.fresh⟩
  · intro key u there
    rw [memory, ticket] at there
    rw [queued]
    split_ifs at there with same
    · cases there
      exact same ▸ here
    · exact logged.known key u there
  · intro e member
    rw [completed, List.mem_append, List.mem_singleton]
    rcases logged.accounted e (queued ▸ member) with done | ⟨u, there, open', entry⟩
    · exact Or.inl (Or.inl done)
    · by_cases same : e.key = k
      · left
        right
        exact logged.eq_of_key (queued ▸ member) here same
      · right
        exact ⟨u, by rw [memory, ticket, if_neg same, there], open', entry⟩
  · intro e member
    rw [completed, List.mem_append, List.mem_singleton] at member
    rw [queued]
    rcases member with older | rfl
    · exact logged.accepted e older
    · exact here
  · rw [completed, List.map_append, List.nodup_append]
    refine ⟨logged.once, List.nodup_singleton _, ?_⟩
    intro key member other also
    obtain ⟨e, older, rfl⟩ := List.mem_map.mp member
    rw [List.map_singleton, List.mem_singleton] at also
    rw [also]
    exact unanswered e older
  · intro e member u there
    rw [memory, ticket] at there
    split_ifs at there with same
    · cases there
      rfl
    · rw [completed, List.mem_append, List.mem_singleton] at member
      rcases member with older | rfl
      · exact logged.answered e older u there
      · exact absurd rfl same
  · intro e member closes inst' there
    rw [memory] at there
    obtain ⟨inst, before, closing, _⟩ := shuts.insts e.owner inst' there
    exact closing (logged.shut e (queued ▸ member) closes inst before)
  · intro e member closes e' member' owner
    rw [completed, List.mem_append, List.mem_singleton] at member ⊢
    rw [queued] at member'
    rcases member with older | rfl
    · exact Or.inl (logged.settled e older closes e' member' owner)
    · rcases logged.accounted e' member' with done | ⟨u, there, open', entry⟩
      · exact Or.inl done
      · right
        have same : u.owner = o.owner := (congrArg Entry.owner entry).trans owner
        exact logged.eq_of_key member' here (alone closes e'.key u there same open')
  · rw [completed, List.pairwise_append]
    refine ⟨logged.last, List.pairwise_singleton _ _, ?_⟩
    intro e older e' member closes owner
    rw [List.mem_singleton] at member
    subst member
    exact unanswered _ (logged.settled e older closes _ here owner) rfl

-- The instance of a new operation is not closing.
theorem enqueues (logged : s.Logged) {m : Memory} {k : Key} {t : Ticket}
    (fresh : s.memory.fresh ≤ k) (addressed : k < m.fresh) (owner : t.owner < m.fresh)
    (undone : t.done = false)
    (ticket : ∀ key, m.ticket key = if key = k then some t else s.memory.ticket key)
    (opened : ∀ e ∈ s.queued, e.kind.closes = true → e.owner ≠ t.owner)
    (closed : t.kind.closes = true → ∀ inst, m.insts.get t.owner = some inst → inst.closing = true)
    (shut : ∀ e ∈ s.queued, e.kind.closes = true → ∀ inst, m.insts.get e.owner = some inst →
      inst.closing = true) : ({ s with memory := m }.enqueue k).Logged := by
  have found : m.ticket k = some t := by rw [ticket, if_pos rfl]
  have entries : ({ s with memory := m } : State).entries k = [t.entry k] := entries_eq found
  have queued : ({ s with memory := m }.enqueue k).queued = s.queued ++ [t.entry k] := by
    rw [State.enqueue, entries]
    rfl
  have older (e : Entry) (member : e ∈ s.queued) : e.key ≠ k := by
    have before := (logged.addressed e member).1
    exact Nat.ne_of_lt (before.trans_le fresh)
  have pending (e : Entry) (pending : s.Pending e) (member : e ∈ s.queued) :
      ({ s with memory := m }.enqueue k).Pending e := by
    obtain ⟨u, there, open', entry⟩ := pending
    refine ⟨u, ?_, open', entry⟩
    change m.ticket e.key = _
    rw [ticket, if_neg (older e member), there]
  constructor
  · exact logged.order
  · rw [queued, List.map_append, List.nodup_append]
    refine ⟨logged.keys, List.nodup_singleton _, ?_⟩
    intro key member other also
    obtain ⟨e, there, rfl⟩ := List.mem_map.mp member
    rw [List.map_singleton, List.mem_singleton] at also
    rw [also]
    exact older e there
  · intro e member
    change e.key < m.fresh ∧ e.owner < m.fresh
    rw [queued, List.mem_append, List.mem_singleton] at member
    rcases member with before | rfl
    · obtain ⟨key, owner⟩ := logged.addressed e before
      have grows := fresh.trans addressed.le
      exact ⟨key.trans_le grows, owner.trans_le grows⟩
    · exact ⟨addressed, owner⟩
  · intro key u there
    change m.ticket key = _ at there
    rw [ticket] at there
    rw [queued, List.mem_append, List.mem_singleton]
    split_ifs at there with same
    · cases there
      exact Or.inr (by rw [same])
    · exact Or.inl (logged.known key u there)
  · intro e member
    rw [queued, List.mem_append, List.mem_singleton] at member
    rcases member with before | rfl
    · exact (logged.accounted e before).imp_right fun open' => pending e open' before
    · exact Or.inr ⟨t, found, undone, rfl⟩
  · intro e member
    rw [queued, List.mem_append]
    exact Or.inl (logged.accepted e member)
  · exact logged.once
  · intro e member u there
    change m.ticket e.key = _ at there
    rw [ticket, if_neg (older e (logged.accepted e member))] at there
    exact logged.answered e member u there
  · intro e member closes inst there
    rw [queued, List.mem_append, List.mem_singleton] at member
    rcases member with before | rfl
    · exact shut e before closes inst there
    · exact closed closes inst there
  · intro e member closes e' member' owner'
    rw [queued, List.mem_append, List.mem_singleton] at member'
    rcases member' with before | rfl
    · exact logged.settled e member closes e' before owner'
    · exact absurd owner'.symm (opened e (logged.accepted e member) closes)
  · exact logged.last

theorem takes (logged : s.Logged) (follows : s.memory.Follows s'.memory) {k : Key} {t : Ticket}
    {rest : List Key} (found : s.memory.ticket k = some t) (notices : s.notices = k :: rest)
    (queued : s'.queued = s.queued) (completed : s'.completed = s.completed)
    (notices' : s'.notices = rest) (taken : s'.taken = s.taken ++ [t.entry k]) : s'.Logged := by
  -- the order aside this is a step that only changes the memory
  have kept : ({ s with memory := s'.memory } : State).Logged := logged.same follows rfl rfl rfl rfl
  constructor
  · obtain ⟨waiting, all, keys⟩ := logged.order
    cases waiting with
    | nil => simp [notices] at keys
    | cons e others =>
      rw [notices, List.map_cons, List.cons.injEq] at keys
      have member : e ∈ s.completed := by simp [all]
      have entry : e = t.entry k :=
        logged.eq_of_key (logged.accepted e member) (logged.known k t found) keys.1
      refine ⟨others, ?_, by rw [notices', keys.2]⟩
      rw [completed, taken, all, entry, List.append_assoc, List.singleton_append]
  · exact queued ▸ kept.keys
  · exact queued ▸ kept.addressed
  · exact queued ▸ kept.known
  · rw [queued, completed]
    exact kept.accounted
  · rw [queued, completed]
    exact kept.accepted
  · exact completed ▸ kept.once
  · exact completed ▸ kept.answered
  · exact queued ▸ kept.shut
  · rw [queued, completed]
    exact kept.settled
  · exact completed ▸ kept.last

end Logged

theorem Starts.logged {started : Bool} (starts : Starts s started s') (logged : s.Logged) :
    s'.Logged := by
  cases starts with
  | ending | running => exact logged
  | unstarted | unowned | fresh => exact logged.same (Memory.follows_ids _ 1) rfl rfl rfl rfl

theorem Kept.logged_answers (kept : s.Kept) {c : Call} {code : Code}
    (answers : Answers p s c code s') (logged : s.Logged) : s'.Logged := by
  have tidy := kept.custody.tidy
  cases answers with
  | refused | late => exact logged
  | unstarted starts => exact Starts.logged starts logged
  | uncreated starts calm => exact (Starts.logged starts logged).same calm.follows rfl rfl rfl rfl
  | @created c s₁ k m starts creates made =>
    have logged := Starts.logged starts logged
    refine logged.enqueues made.fresh.le made.addressed (made.fresh.trans made.addressed) rfl
      made.ticket (fun e member _ => ?_) (fun closes => ?_) fun e member closes inst there => ?_
    · exact Nat.ne_of_lt (logged.addressed e member).2
    · exact absurd closes (by simp [Ticket.new, Kind.closes_of_creates creates])
    · rcases made.insts e.owner inst there with ⟨new, _⟩ | ⟨_, before, present, same, _⟩
      · exact absurd new (Nat.ne_of_lt (logged.addressed e member).2)
      · exact same.trans (logged.shut e member closes before present)
  | rejected calm | returned calm => exact logged.same calm.follows rfl rfl rfl rfl
  | admitted admits usable creates reads _ closed =>
    obtain ⟨inst, found, opened⟩ := usable.opened
    have owner := usable.known.addressed tidy.books
    refine logged.enqueues admits.fresh admits.addressed
      (owner.trans_le (admits.fresh.trans admits.addressed.le)) rfl admits.ticket
      (fun e member closes same => ?_) closed fun e member closes inst' there => ?_
    · simp [logged.shut e member closes inst (same ▸ found)] at opened
    · obtain ⟨before, present, closing, _⟩ := admits.shuts.insts e.owner inst' there
      exact closing (logged.shut e member closes before present)
  | cancelled => exact logged.same (Memory.follows_cancel _ _) rfl rfl rfl rfl
  | unreleased found held made =>
    obtain ⟨_, _, ticket, effect⟩ := Memory.releaseResponse_without tidy.books found held made
    exact logged.same ((Memory.released_shuts effect).follows ticket) rfl rfl rfl rfl
  | chunkReturned _ shuts _ ticket => exact logged.same (shuts.follows ticket) rfl rfl rfl rfl

theorem Kept.logged_owner (kept : s.Kept) {move : OwnerMove} (made : s.ownerStep move = some s')
    (resting : s.Resting) (logged : s.Logged) : s'.Logged := by
  have tidy := kept.custody.tidy
  cases move with
  | attach | bootstrapFails | readByte | ack | leave =>
    simp only [ownerStep, Option.ite_none_right_eq_some, Option.some.injEq] at made
    obtain ⟨_, rfl⟩ := made
    exact logged.same (Memory.Follows.refl _) rfl rfl rfl rfl
  | pop =>
    simp only [ownerStep, Option.ite_none_right_eq_some] at made
    obtain ⟨_, made⟩ := made
    split at made <;> cases made <;> exact logged.same (Memory.Follows.refl _) rfl rfl rfl rfl
  | cancelNext =>
    simp only [ownerStep] at made
    split at made <;> cases made <;> exact logged.same (Memory.Follows.refl _) rfl rfl rfl rfl
  | idle =>
    simp only [ownerStep, Option.ite_none_right_eq_some] at made
    obtain ⟨_, made⟩ := made
    split_ifs at made <;> cases made <;> exact logged.same (Memory.Follows.refl _) rfl rfl rfl rfl
  | drainPop =>
    simp only [ownerStep] at made
    split at made <;> cases made
    exact logged.same (Memory.Follows.refl _) rfl rfl rfl rfl
  | drainComplete =>
    simp only [ownerStep] at made
    split at made
    · rename_i k owner
      cases made
      obtain ⟨t, here, undone, _⟩ := kept.custody.handed owner
      have found := ticket_of_spot here
      have creates := (resting (by rw [owner]; rfl)).creating k t found undone
      rw [complete_eq found undone]
      refine logged.completes tidy found undone (fun closes => ?_) rfl rfl rfl rfl rfl
      simp [Kind.closes_of_creates creates] at closes
    · cases made
  | drainEnd =>
    simp only [ownerStep, Option.ite_none_right_eq_some, Option.some.injEq] at made
    obtain ⟨_, rfl⟩ := made
    obtain ⟨shuts, ticket, _⟩ := Memory.retireAll_effect (m := s.memory) s.memory.live
    exact logged.same (shuts.follows ticket) rfl rfl rfl rfl

theorem Kept.logged_notifier (kept : s.Kept) {move : NotifierMove}
    (made : s.notifierStep move = some s') (logged : s.Logged) : s'.Logged := by
  have tidy := kept.custody.tidy
  cases move with
  | take =>
    simp only [notifierStep] at made
    split at made
    · rename_i k rest _ notices
      cases made
      obtain ⟨t, here, done, undelivered⟩ := kept.custody.noticed (k := k) (by simp [notices])
      have found := ticket_of_spot here
      obtain ⟨follows, _⟩ := tidy.follows_deliver found done undelivered
      exact logged.takes follows found notices rfl rfl rfl (by rw [entries_eq found])
    · cases made
  | returned =>
    simp only [notifierStep] at made
    split at made
    · rename_i k notifier
      cases made
      obtain ⟨t, here, done, delivered⟩ := kept.custody.calling notifier
      obtain ⟨follows, _⟩ := tidy.follows_finish (ticket_of_spot here) done delivered
      exact logged.same follows rfl rfl rfl rfl
    · cases made
  | exit | join =>
    simp only [notifierStep, Option.ite_none_right_eq_some, Option.some.injEq] at made
    obtain ⟨_, rfl⟩ := made
    exact logged.same (Memory.Follows.refl _) rfl rfl rfl rfl

theorem Custody.follows_effort (custody : s.Custody) {k : Key} {task : Task} {o : Operation}
    {m : Memory} {stage : Stage} (present : s.tasks.get k = some task)
    (op : s.memory.ops.get k = some o) (effort : Effort p s k o task.stage m stage) :
    s.memory.Follows m := by
  obtain ⟨here, undone, fits⟩ := custody.op present op
  have tidy := custody.tidy
  have found := ticket_of_spot here
  have unanswered : o.Unanswered := by
    obtain ⟨o', op', unfinished, _⟩ := Memory.ticket_eq_some.mp found
    cases op.symm.trans op'
    exact ⟨undone, tidy.undelivered found undone, unfinished⟩
  have stays := fits.stage
  generalize task.stage = old at effort stays
  cases effort with
  | limits => exact (Memory.limits_calm tidy.books _ _ _ _).follows
  | header => exact (Memory.setHeader_calm tidy.books _ _ _).follows
  | responds submit made =>
    obtain ⟨_, _, insts, _, ticket⟩ :=
      Memory.makeResponse_effect tidy.books op unanswered stays.2.2.1 made
    have like : o.ticket.Like { o.ticket with
        event := { o.event with response := some s.memory.fresh, kind := .handled } } :=
      ⟨rfl, rfl, rfl, rfl, rfl⟩
    refine Memory.follows_at (Memory.makeResponse_fresh made) (fun i s' there => ?_) found like ticket
    obtain ⟨inst, before, same, _⟩ := insts i s' there
    exact ⟨inst, before, fun closing => same.trans closing⟩
  | chunk read made =>
    obtain ⟨r, response⟩ := Option.isSome_iff_exists.mp (tidy.reading k o.ticket found read)
    obtain ⟨_, _, quiet, ticket⟩ :=
      Memory.addChunk_effect tidy.books op unanswered response stays.2.2.2 made
    have like : o.ticket.Like { o.ticket with
        event := { o.event with chunk := some s.memory.fresh, kind := .chunk } } :=
      ⟨rfl, rfl, rfl, rfl, rfl⟩
    refine Memory.follows_at quiet.fresh (fun i s' there => ?_) found like ticket
    obtain ⟨inst, before, same, _⟩ := quiet.insts i s' there
    exact ⟨inst, before, fun closing => same.trans closing⟩
  | begins | waits | unchunked | wakes | waitsAgain | stopsAgain | drains =>
    exact Memory.Follows.refl _

theorem Custody.alone (custody : s.Custody) {k : Key} {t : Ticket} (found : s.memory.ticket k = some t)
    (undone : t.done = false) (few : active s.memory k ≤ 1) (key : Key) (u : Ticket)
    (there : s.memory.ticket key = some u) (owner : u.owner = t.owner) (undone' : u.done = false) :
    key = k := by
  obtain ⟨o, op, _, rfl⟩ := Memory.ticket_eq_some.mp found
  obtain ⟨o', op', _, rfl⟩ := Memory.ticket_eq_some.mp there
  have books := custody.tidy.books
  obtain ⟨inst, owned⟩ := books.owner_found op (le_refl 0)
  have counter := (books.conserved.counters o.owner inst owned).1
  simp only [active, op, Option.bind_some, owned, Option.elim_some, counter] at few
  have owner : o'.owner = o.owner := owner
  have undone : o.done = false := undone
  have undone' : o'.done = false := undone'
  have single : (s.memory.ops.count fun v => v.owner = o.owner && !v.done) ≤ 1 := by omega
  exact OrderedMap.count_le_one single op (by simp [undone]) op' (by simp [owner, undone'])

theorem Kept.logged_works (kept : s.Kept) {k : Key} {task : Task} {o : Operation}
    (present : s.tasks.get k = some task) (op : s.memory.ops.get k = some o)
    (works : Works p s k task o s') (logged : s.Logged) : s'.Logged := by
  have tidy := kept.custody.tidy
  obtain ⟨here, undone, fits⟩ := kept.custody.op present op
  have found := ticket_of_spot here
  cases works with
  | worked effort =>
    exact logged.same (kept.custody.follows_effort present op effort) rfl rfl rfl rfl
  | settled other =>
    rw [settle_eq found undone]
    refine logged.completes tidy found undone (fun closes => ?_) rfl rfl rfl rfl rfl
    simp [Operation.ticket, other] at closes
  | ready server =>
    rw [ready_eq found undone]
    refine logged.completes tidy found undone (fun closes => ?_) rfl rfl rfl rfl rfl
    simp [Operation.ticket, server, Kind.closes] at closes
  | stops | shuts | drains => exact logged.same (Memory.Follows.refl _) rfl rfl rfl rfl
  | closed closes few before =>
    have alone := fun (_ : o.kind.closes = true) => kept.custody.alone found undone few
    rcases before with rfl | rfl
    · rw [settle_eq found undone]
      exact logged.completes tidy found undone alone rfl rfl rfl rfl rfl
    · rw [settle_eq (s := s.cancelOthers k) found undone]
      exact logged.completes tidy found undone alone rfl rfl rfl rfl rfl

theorem Kept.logged_step (kept : s.Kept) {label : Label} (made : s.step p label = some s')
    (resting : s.Resting) (logged : s.Logged) : s'.Logged := by
  cases kept.steps made with
  | write =>
    unfold writeByte
    split_ifs <;> exact logged.same (Memory.Follows.refl _) rfl rfl rfl rfl
  | mark | reap | serverStops | serverFails =>
    exact logged.same (Memory.Follows.refl _) rfl rfl rfl rfl
  | reads made | owner _ made => exact kept.logged_owner made resting logged
  | call _ _ answers => exact kept.logged_answers answers logged
  | task _ present op _ _ works => exact kept.logged_works present op works logged
  | notifier _ made => exact kept.logged_notifier made logged

theorem logged_of_reachable (reached : (bridge p).Reachable s) : s.Logged := by
  refine reached.invariant_with (P := Logged) ?_
    (fun _ reached => And.intro (kept_of_reachable reached) (resting_of_reachable reached))
    fun _ _ _ logged known made => known.1.logged_step made known.2 logged
  refine ⟨⟨[], rfl, rfl⟩, ?_, ?_, ?_, ?_, ?_, ?_, ?_, ?_, ?_, ?_⟩
  all_goals simp [bridge, initial, Memory.empty, Memory.ticket]

end State

end HttpServer.CAbi
