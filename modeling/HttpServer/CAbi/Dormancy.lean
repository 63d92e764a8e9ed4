import HttpServer.CAbi.Conservation

set_option autoImplicit false

/-!
# Outside of the loop

Before the loop of the owner and after it the host can use no instance: new ones are not created
yet, and the loop ends only when no instance is live.
-/

namespace HttpServer.CAbi

namespace Memory

variable {m m' : Memory}

/-- Outside of the loop the host can use no instance, and what is not answered is a create. -/
structure Dormant (m : Memory) : Prop where
  unusable : ∀ i, ¬m.Usable i
  creating : ∀ k t, m.ticket k = some t → t.done = false → t.kind.creates = true
  handle : ∀ k t, m.ticket k = some t → t.event.handle = none

/-- Instances do not open again and operations stay what they are; one that is not answered
stays. -/
structure Follows (m m' : Memory) : Prop where
  fresh : m.fresh ≤ m'.fresh
  closing : ∀ i s', m'.insts.get i = some s' →
    ∃ s, m.insts.get i = some s ∧ (s.closing = true → s'.closing = true)
  tickets : ∀ k t', m'.ticket k = some t' → ∃ t, m.ticket k = some t ∧ t.Like t'
  stays : ∀ k t, m.ticket k = some t → t.done = false → ∃ t', m'.ticket k = some t' ∧ t.Like t'

theorem Dormant.followed (dormant : m.Dormant) (follows : m.Follows m')
    (known : ∀ i, m'.Known i → m.Known i) : m'.Dormant where
  unusable i usable := by
    obtain ⟨known', s', found, opened⟩ := usable
    obtain ⟨s, before, closing⟩ := follows.closing i s' found
    refine dormant.unusable i ⟨known i known', s, before, ?_⟩
    by_contra shut
    simp [closing (by simpa using shut)] at opened
  creating k t' found undone := by
    obtain ⟨t, before, like⟩ := follows.tickets k t' found
    rw [like.kind]
    exact dormant.creating k t before (like.done ▸ undone)
  handle k t' found := by
    obtain ⟨t, before, like⟩ := follows.tickets k t' found
    rw [like.handle]
    exact dormant.handle k t before

theorem Shuts.follows (shuts : m.Shuts m') (ticket : m'.ticket = m.ticket) : m.Follows m' where
  fresh := shuts.fresh
  closing i s' found := by
    obtain ⟨s, before, closing, _⟩ := shuts.insts i s' found
    exact ⟨s, before, closing⟩
  tickets k t found := ⟨t, ticket ▸ found, .refl t⟩
  stays k t found _ := ⟨t, by rw [ticket, found], .refl t⟩

theorem Calm.follows (calm : m.Calm m') : m.Follows m' := calm.quiet.shuts.follows calm.ticket

theorem Follows.refl (m : Memory) : m.Follows m := (Quiet.refl m).shuts.follows rfl

theorem follows_at {k : Key} {t t' : Ticket} (fresh : m.fresh ≤ m'.fresh)
    (closing : ∀ i s', m'.insts.get i = some s' →
      ∃ s, m.insts.get i = some s ∧ (s.closing = true → s'.closing = true))
    (found : m.ticket k = some t) (like : t.Like t')
    (ticket : ∀ key, m'.ticket key = if key = k then some t' else m.ticket key) : m.Follows m' where
  fresh := fresh
  closing := closing
  tickets key u there := by
    rw [ticket] at there
    split_ifs at there with same
    · cases there
      exact ⟨t, same ▸ found, like⟩
    · exact ⟨u, there, .refl u⟩
  stays key u there _ := by
    rw [ticket]
    split_ifs with same
    · subst same
      cases found.symm.trans there
      exact ⟨t', rfl, like⟩
    · exact ⟨u, there, .refl u⟩

theorem makeResponse_fresh {sizes : Sizes} {k : Key} {count : Nat} {allocated : Bool}
    (made : m.makeResponse sizes k count allocated = some m') : m.fresh ≤ m'.fresh := by
  unfold makeResponse at made
  split at made
  · cases made
  · dsimp only at made
    split at made
    · cases made
    · split_ifs at made
      split at made
      · cases made
      · rename_i charge
        obtain ⟨_, _, _, rfl⟩ := charge_eq_some.mp charge
        cases made
        exact Nat.le_succ m.fresh

theorem follows_ids (m : Memory) (nextId : Nat) : m.Follows { m with nextId := nextId } := by
  have quiet : m.Quiet { m with nextId := nextId } := quiet_of_same (le_refl m.fresh) rfl rfl
  exact quiet.shuts.follows rfl

theorem follows_cancel (m : Memory) (k : Key) : m.Follows (m.cancel k) := by
  cases found : m.ticket k with
  | some t =>
    have like : t.Like { t with cancelled := true } := ⟨rfl, rfl, rfl, rfl, rfl⟩
    refine follows_at (le_refl _) (fun i s' present => ?_) found like fun key => ?_
    · exact ⟨s', present, id⟩
    · rw [cancel_ticket, found]
      rfl
  | none =>
    refine (quiet_onOp k _).shuts.follows ?_
    funext key
    change (m.cancel k).ticket key = _
    rw [cancel_ticket, found]
    split_ifs with same
    · rw [same, found]
      rfl
    · rfl

theorem Tidy.follows_deliver (tidy : m.Tidy) {k : Key} {t : Ticket} (found : m.ticket k = some t)
    (done : t.done = true) (undelivered : t.delivered = false) : m.Follows (m.deliver k) ∧
      (t.event.handle = none → ∀ i, (m.deliver k).Known i → m.Known i) := by
  obtain ⟨o, present, unfinished, rfl⟩ := ticket_eq_some.mp found
  obtain ⟨_, _, fresh, insts, responses, ticket⟩ :=
    deliver_effect tidy.books present done undelivered unfinished
  have like : o.ticket.Like { o.ticket with delivered := true } := ⟨rfl, rfl, rfl, rfl, rfl⟩
  refine ⟨follows_at fresh (fun i s' there => ?_) found like ticket, ?_⟩
  · obtain ⟨s, before, same, _⟩ := insts i s' there
    exact ⟨s, before, fun closing => same.trans closing⟩
  · rintro blank i (⟨s', there, held⟩ | ⟨r, x', there, owner⟩)
    · obtain ⟨s, before, _, fewer⟩ := insts i s' there
      have blank : o.event.handle = none := blank
      exact Or.inl ⟨s, before, held.trans_le (fewer (by simp [blank]))⟩
    · obtain ⟨x, before, same, _⟩ := responses r x' there
      exact Or.inr ⟨r, x, before, same ▸ owner⟩

theorem Tidy.follows_finish (tidy : m.Tidy) {k : Key} {t : Ticket} (found : m.ticket k = some t)
    (done : t.done = true) (delivered : t.delivered = true) :
    m.Follows (m.finish k) ∧ m.Shuts (m.finish k) := by
  obtain ⟨o, present, unfinished, rfl⟩ := ticket_eq_some.mp found
  obtain ⟨_, quiet, _, ticket⟩ := finish_effect tidy.books present delivered unfinished
  refine ⟨⟨quiet.fresh, fun i s' there => ?_, fun key u there => ?_, fun key u there undone => ?_⟩,
    quiet.shuts⟩
  · obtain ⟨s, before, same, _⟩ := quiet.insts i s' there
    exact ⟨s, before, fun closing => same.trans closing⟩
  · rw [ticket] at there
    split_ifs at there
    exact ⟨u, there, .refl u⟩
  · refine ⟨u, ?_, .refl u⟩
    rw [ticket]
    split_ifs with same
    · rw [same, found, Option.some.injEq] at there
      rw [there, undone] at done
      cases done
    · exact there

theorem Dormant.complete {k : Key} {t : Ticket} {code : Code} {kind : Option ResultKind}
    (dormant : m.Dormant) (tidy : m.Tidy) (found : m.ticket k = some t) (undone : t.done = false)
    (failed : code ≠ .ok) : (m.complete k code kind).Dormant := by
  obtain ⟨_, ticket⟩ := tidy.complete found undone code kind
  obtain ⟨o, present, _, rfl⟩ := ticket_eq_some.mp found
  have shuts : m.Shuts (m.complete k code kind) := complete_shuts present undone
  refine ⟨fun i usable => ?_, fun key u there undone' => ?_, fun key u there => ?_⟩
  · obtain ⟨known, s', there, opened⟩ := usable
    obtain ⟨s, before, closing, _⟩ := shuts.insts i s' there
    refine dormant.unusable i ⟨shuts.known known, s, before, ?_⟩
    by_contra shut
    simp [closing (by simpa using shut)] at opened
  · rw [ticket] at there
    split_ifs at there
    · cases there
      simp [Ticket.answered] at undone'
    · exact dormant.creating key u there undone'
  · rw [ticket] at there
    split_ifs at there
    · cases there
      simpa [Ticket.answered, failed] using dormant.handle k _ found
    · exact dormant.handle key u there

-- Nothing is live any more and nothing is left to do.
theorem Tidy.dormant (tidy : m.Tidy) (instances : m.instances = 0) (activeOps : m.activeOps = 0) :
    m.Dormant ∧ ∀ k, m.ticket k = none := by
  have live : m.live = [] := by
    have length := tidy.books.conserved.instances
    rw [instances] at length
    exact List.length_eq_zero_iff.mp (by omega)
  have gone (k : Key) : m.ticket k = none := by
    by_contra present
    obtain ⟨t, found⟩ := Option.ne_none_iff_exists'.mp present
    obtain ⟨o, there, unfinished, _⟩ := ticket_eq_some.mp found
    have none := tidy.books.conserved.activeOps
    rw [activeOps] at none
    have some := OrderedMap.count_pos (P := fun o : Operation => !o.finished) there (by simp [unfinished])
    omega
  refine ⟨⟨?_, fun k t found => ?_, fun k t found => ?_⟩, gone⟩
  · rintro i ⟨_, s, found, opened⟩
    have member := tidy.linked i s found opened
    simp [live] at member
  · simp [gone] at found
  · simp [gone] at found

end Memory

namespace State

variable {p : Platform} {s s' : State}

-- The host can use an instance only while the owner is in its loop.
def Resting (s : State) : Prop := s.owner.looping = false → s.memory.Dormant

theorem dormant_enqueue {m : Memory} {k : Key} {kind : Kind} (dormant : s.memory.Dormant)
    (books : s.memory.Books) (made : s.memory.Creates m k kind) (creates : kind.creates = true) :
    m.Dormant where
  unusable i usable := by
    obtain ⟨known, s', found, opened⟩ := usable
    rcases made.insts i s' found with ⟨new, _, held⟩ | ⟨old, s, before, same, fewer⟩
    · rcases known with ⟨s'', found', positive⟩ | ⟨r, x', present, owner⟩
      · cases found.symm.trans found'
        omega
      · obtain ⟨x, before, same⟩ := made.responses r x' present
        have addressed := Memory.response_owner_addressed books before
        rw [← same, owner, new] at addressed
        exact lt_irrefl _ addressed
    · refine dormant.unusable i ⟨?_, s, before, same ▸ opened⟩
      rcases known with ⟨s'', found', positive⟩ | ⟨r, x', present, owner⟩
      · cases found.symm.trans found'
        exact Or.inl ⟨s, before, positive.trans_le fewer⟩
      · obtain ⟨x, before, same⟩ := made.responses r x' present
        exact Or.inr ⟨r, x, before, same ▸ owner⟩
  creating key t found undone := by
    rw [made.ticket] at found
    split_ifs at found
    · cases found
      exact creates
    · exact dormant.creating key t found undone
  handle key t found := by
    rw [made.ticket] at found
    split_ifs at found
    · cases found
      rfl
    · exact dormant.handle key t found

theorem Starts.dormant {started : Bool} (starts : Starts s started s')
    (dormant : s.memory.Dormant) : s'.memory.Dormant := by
  cases starts with
  | ending | running => exact dormant
  | unstarted | unowned | fresh =>
    exact dormant.followed (Memory.follows_ids _ 1) fun _ known => known

theorem Starts.looping {started : Bool} (starts : Starts s started s')
    (roles : Roles s.phase s.owner s.notifier s.ownerDone) (out : s'.owner.looping = false) :
    s.owner.looping = false := by
  cases starts with
  | ending | running | unstarted | unowned => exact out
  | fresh phase =>
    rw [phase] at roles
    rw [roles.of_off.1]
    rfl

theorem Kept.resting_answers (kept : s.Kept) {c : Call} {code : Code}
    (answers : Answers p s c code s') (resting : s.Resting) : s'.Resting := by
  intro out
  have tidy := kept.custody.tidy
  cases answers with
  | refused | late => exact resting out
  | unstarted starts => exact Starts.dormant starts (resting (Starts.looping starts kept.roles out))
  | uncreated starts calm =>
    have dormant := Starts.dormant starts (resting (Starts.looping starts kept.roles out))
    exact dormant.followed calm.follows fun _ => calm.quiet.shuts.known
  | created starts creates made =>
    have dormant := Starts.dormant starts (resting (Starts.looping starts kept.roles out))
    exact dormant_enqueue dormant (Starts.tidy starts tidy).books made creates
  | rejected calm | returned calm =>
    exact (resting out).followed calm.follows fun _ => calm.quiet.shuts.known
  | admitted admits usable => exact absurd usable ((resting out).unusable _)
  | cancelled =>
    exact (resting out).followed (Memory.follows_cancel _ _) fun _ => (Memory.quiet_onOp _ _).shuts.known
  | unreleased found held made =>
    obtain ⟨_, _, ticket, effect⟩ := Memory.releaseResponse_without tidy.books found held made
    have shuts := Memory.released_shuts effect
    exact (resting out).followed (shuts.follows ticket) fun _ => shuts.known
  | chunkReturned _ shuts _ ticket =>
    exact (resting out).followed (shuts.follows ticket) fun _ => shuts.known

theorem Kept.resting_owner (kept : s.Kept) {move : OwnerMove} (made : s.ownerStep move = some s')
    (resting : s.Resting) : s'.Resting := by
  intro out
  have tidy := kept.custody.tidy
  cases move with
  | attach | readByte | ack =>
    simp only [ownerStep, Option.ite_none_right_eq_some, Option.some.injEq] at made
    obtain ⟨_, rfl⟩ := made
    cases out
  | bootstrapFails =>
    simp only [ownerStep, Option.ite_none_right_eq_some, Option.some.injEq] at made
    obtain ⟨owner, rfl⟩ := made
    exact resting (by rw [owner]; rfl)
  | pop =>
    simp only [ownerStep, Option.ite_none_right_eq_some] at made
    obtain ⟨owner, made⟩ := made
    split at made
    · cases made
      cases out
    · cases made
      exact resting out
  | cancelNext =>
    simp only [ownerStep] at made
    split at made
    · cases made
      cases out
    · cases made
      cases out
    · cases made
  | idle =>
    simp only [ownerStep, Option.ite_none_right_eq_some] at made
    obtain ⟨_, made⟩ := made
    split_ifs at made with idle
    · cases made
      exact (tidy.dormant idle.1 idle.2.1).1
    · cases made
      cases out
  | leave =>
    simp only [ownerStep, Option.ite_none_right_eq_some, Option.some.injEq] at made
    obtain ⟨⟨owner, _⟩, rfl⟩ := made
    exact resting (by rw [owner]; rfl)
  | drainPop =>
    simp only [ownerStep] at made
    split at made
    · rename_i owner _
      cases made
      exact resting (by rw [owner]; rfl)
    · cases made
  | drainComplete =>
    simp only [ownerStep] at made
    split at made
    · rename_i k owner
      cases made
      obtain ⟨t, here, undone, _⟩ := kept.custody.handed owner
      have found := ticket_of_spot here
      rw [complete_eq found undone]
      exact (resting (by rw [owner]; rfl)).complete tidy found undone (by decide)
    · cases made
  | drainEnd =>
    simp only [ownerStep, Option.ite_none_right_eq_some, Option.some.injEq] at made
    obtain ⟨⟨owner, _⟩, rfl⟩ := made
    obtain ⟨shuts, ticket, _⟩ := Memory.retireAll_effect (m := s.memory) s.memory.live
    exact (resting (by rw [owner]; rfl)).followed (shuts.follows ticket) fun _ => shuts.known

theorem Kept.resting_notifier (kept : s.Kept) {move : NotifierMove}
    (made : s.notifierStep move = some s') (resting : s.Resting) : s'.Resting := by
  intro out
  have tidy := kept.custody.tidy
  cases move with
  | take =>
    simp only [notifierStep] at made
    split at made
    · rename_i k rest _ notices
      cases made
      obtain ⟨t, here, done, undelivered⟩ := kept.custody.noticed (k := k) (by simp [notices])
      have found := ticket_of_spot here
      obtain ⟨follows, known⟩ := tidy.follows_deliver found done undelivered
      exact (resting out).followed follows (known ((resting out).handle k t found))
    · cases made
  | returned =>
    simp only [notifierStep] at made
    split at made
    · rename_i k notifier
      cases made
      obtain ⟨t, here, done, delivered⟩ := kept.custody.calling notifier
      obtain ⟨follows, shuts⟩ := tidy.follows_finish (ticket_of_spot here) done delivered
      exact (resting out).followed follows fun _ => shuts.known
    · cases made
  | exit | join =>
    simp only [notifierStep, Option.ite_none_right_eq_some, Option.some.injEq] at made
    obtain ⟨_, rfl⟩ := made
    exact resting out

theorem writeByte_same (s : State) (p : Platform) :
    (s.writeByte p).owner = s.owner ∧ (s.writeByte p).memory = s.memory := by
  unfold writeByte
  split_ifs <;> exact ⟨rfl, rfl⟩

theorem Kept.resting_step (kept : s.Kept) {label : Label} (made : s.step p label = some s')
    (resting : s.Resting) : s'.Resting := by
  cases kept.steps made with
  | write =>
    obtain ⟨owner, memory⟩ := s.writeByte_same p
    intro out
    rw [memory]
    exact resting (owner ▸ out)
  | mark | reap | serverStops | serverFails => exact resting
  | reads made | owner _ made => exact kept.resting_owner made resting
  | call _ _ answers => exact kept.resting_answers answers resting
  | task _ _ _ reading _ works =>
    intro out
    rw [(Works.still works).owner, reading] at out
    cases out
  | notifier _ made => exact kept.resting_notifier made resting

theorem resting_of_reachable (reached : (bridge p).Reachable s) : s.Resting := by
  refine reached.invariant_with (P := Resting) ?_ (fun _ => kept_of_reachable)
    fun _ _ _ resting kept made => kept.resting_step made resting
  intro _
  constructor
  · rintro i ⟨_, s, found, _⟩
    simp [bridge, initial, Memory.empty] at found
  · intro k t found
    simp [bridge, initial, Memory.empty, Memory.ticket] at found
  · intro k t found
    simp [bridge, initial, Memory.empty, Memory.ticket] at found

end State

end HttpServer.CAbi
