import HttpServer.CAbi.Notices

set_option autoImplicit false

/-!
# When the owner ends

The loop ends with nothing queued and nothing left to do, and what is queued after that is for an
owner that has started since.
-/

namespace HttpServer.CAbi

namespace Roles

variable {o : Owner} {n : Notifier} {done : Bool}

theorem of_phase_starting (roles : Roles .starting o n done) : o = .starting := by
  cases roles
  rfl

theorem of_attached (roles : Roles .attached o n done) : o.looping := by
  cases roles with
  | attached looping => exact looping

end Roles

namespace State

variable {p : Platform} {s s' : State}

structure Quits (s : State) : Prop where
  commands : s.owner = .leaving ∨ s.owner = .absent → s.commands = []
  leaving : s.owner = .leaving → s.memory.live = [] ∧ ∀ k, s.memory.ticket k = none
  notices : s.owner = .absent → s.notifier.running = false → s.notices = []

/-- Nothing is queued, answered or begun. -/
structure Aside (s s' : State) : Prop where
  owner : s'.owner = s.owner
  commands : s'.commands = s.commands
  queued : s'.queued = s.queued
  notices : s'.notices = s.notices
  live : s'.memory.live = s.memory.live
  follows : s.memory.Follows s'.memory
  notifier : s'.notifier.running = false → s.notifier.running = false

theorem Quits.aside (quits : s.Quits) (aside : s.Aside s') : s'.Quits where
  commands := by
    rw [aside.owner, aside.commands]
    exact quits.commands
  leaving := by
    rw [aside.owner, aside.live]
    refine fun owner => ⟨(quits.leaving owner).1, fun k => ?_⟩
    by_contra present
    obtain ⟨t', found⟩ := Option.ne_none_iff_exists'.mp present
    obtain ⟨t, before, _⟩ := aside.follows.tickets k t' found
    simp [(quits.leaving owner).2 k] at before
  notices := by
    rw [aside.owner, aside.notices]
    exact fun owner stopped => quits.notices owner (aside.notifier stopped)

-- While the owner is in its loop or starts nothing has to hold.
theorem quits_of_owner (running : s.owner ≠ .leaving ∧ s.owner ≠ .absent) : s.Quits where
  commands owner := absurd owner (not_or.mpr running)
  leaving owner := absurd owner running.1
  notices owner := absurd owner running.2

theorem Starts.aside {started : Bool} (starts : Starts s started s') :
    s.Aside s' ∨ s'.owner = .starting := by
  cases starts with
  | ending | running => exact Or.inl ⟨rfl, rfl, rfl, rfl, rfl, Memory.Follows.refl _, id⟩
  | unstarted => exact Or.inl ⟨rfl, rfl, rfl, rfl, rfl, Memory.follows_ids _ 1, id⟩
  | unowned =>
    refine Or.inl ⟨rfl, rfl, rfl, rfl, rfl, Memory.follows_ids _ 1, fun stopped => ?_⟩
    cases stopped
  | fresh => exact Or.inr rfl

-- The runtime runs when a call has started it or found it.
theorem Starts.owned (starts : Starts s true s')
    (roles : Roles s.phase s.owner s.notifier s.ownerDone) (out : s.owner.looping = false) :
    s'.owner = .starting := by
  cases starts with
  | running phase =>
    rcases phase with phase | phase
    · rw [phase] at roles
      exact roles.of_phase_starting
    · rw [phase] at roles
      have looping := roles.of_attached
      simp [out] at looping
  | fresh => rfl

theorem Starts.owner {started : Bool} (starts : Starts s started s') :
    s'.owner = s.owner ∨ s'.owner = .starting := by
  cases starts with
  | fresh => exact Or.inr rfl
  | _ => exact Or.inl rfl

theorem Answers.owner {c : Call} {code : Code} (answers : Answers p s c code s') :
    s'.owner = s.owner ∨ s'.owner = .starting := by
  cases answers with
  | unstarted starts => exact Starts.owner starts
  | uncreated starts | created starts =>
    have owner := Starts.owner starts
    exact owner
  | _ => exact Or.inl rfl

-- Outside of the loop a call that is accepted has started an owner.
theorem Kept.aside_answers (kept : s.Kept) (resting : s.Resting) (out : s.owner.looping = false)
    {c : Call} {code : Code} (answers : Answers p s c code s') : s.Aside s' ∨ s'.owner = .starting := by
  have tidy := kept.custody.tidy
  have calm {m : Memory} (calm : s.memory.Calm m) : s.Aside { s with memory := m } :=
    ⟨rfl, rfl, rfl, rfl, calm.live, calm.follows, id⟩
  cases answers with
  | refused | late => exact Or.inl ⟨rfl, rfl, rfl, rfl, rfl, Memory.Follows.refl _, id⟩
  | unstarted starts => exact Starts.aside starts
  | uncreated starts | created starts =>
    have started := Starts.owned starts kept.roles out
    exact Or.inr started
  | rejected known | returned known => exact Or.inl (calm known)
  | admitted _ usable => exact absurd usable ((resting out).unusable _)
  | cancelled => exact Or.inl ⟨rfl, rfl, rfl, rfl, rfl, Memory.follows_cancel _ _, id⟩
  | unreleased found held made =>
    obtain ⟨_, live, ticket, effect⟩ := Memory.releaseResponse_without tidy.books found held made
    exact Or.inl ⟨rfl, rfl, rfl, rfl, live, (Memory.released_shuts effect).follows ticket, id⟩
  | chunkReturned _ shuts live ticket =>
    exact Or.inl ⟨rfl, rfl, rfl, rfl, live, shuts.follows ticket, id⟩

theorem aside_write (s : State) (p : Platform) : s.Aside (s.writeByte p) := by
  unfold writeByte
  split_ifs <;> exact ⟨rfl, rfl, rfl, rfl, rfl, Memory.Follows.refl _, id⟩

theorem Kept.quits_owner (kept : s.Kept) {move : OwnerMove} (made : s.ownerStep move = some s') :
    s'.Quits := by
  cases move with
  | attach | bootstrapFails | readByte | ack | leave =>
    simp only [ownerStep, Option.ite_none_right_eq_some, Option.some.injEq] at made
    obtain ⟨_, rfl⟩ := made
    exact quits_of_owner (by simp [wake])
  | pop =>
    simp only [ownerStep, Option.ite_none_right_eq_some] at made
    obtain ⟨owner, made⟩ := made
    split at made <;> cases made <;> exact quits_of_owner (by simp [owner])
  | cancelNext =>
    simp only [ownerStep] at made
    split at made <;> cases made <;> exact quits_of_owner (by simp)
  | idle =>
    simp only [ownerStep, Option.ite_none_right_eq_some] at made
    obtain ⟨_, made⟩ := made
    split_ifs at made with idle
    · cases made
      have tidy := kept.custody.tidy
      have live : s.memory.live = [] := by
        have length := tidy.books.conserved.instances
        rw [idle.1] at length
        exact List.length_eq_zero_iff.mp (by omega)
      refine ⟨fun _ => idle.2.2, fun _ => ⟨live, (tidy.dormant idle.1 idle.2.1).2⟩, fun absent => ?_⟩
      cases absent
    · cases made
      exact quits_of_owner (by simp)
  | drainPop | drainComplete =>
    simp only [ownerStep] at made
    split at made <;> cases made
    exact quits_of_owner (by simp)
  | drainEnd =>
    simp only [ownerStep, Option.ite_none_right_eq_some, Option.some.injEq] at made
    obtain ⟨⟨owner, commands⟩, rfl⟩ := made
    refine ⟨fun _ => commands, fun leaving => ?_, fun _ stopped => ?_⟩
    · cases leaving
    · have roles := kept.roles
      rw [owner] at roles
      have running := roles.of_draining.2.1
      change s.notifier.running = false at stopped
      simp [stopped] at running

theorem Kept.quits_notifier (kept : s.Kept) {move : NotifierMove}
    (made : s.notifierStep move = some s') (quits : s.Quits) : s'.Quits := by
  -- an operation that is there keeps the owner from leaving
  have stays {k : Key} {t : Ticket} (found : s.memory.ticket k = some t) : s.owner ≠ .leaving := by
    intro owner
    simp [(quits.leaving owner).2 k] at found
  cases move with
  | take =>
    simp only [notifierStep] at made
    split at made
    · rename_i k rest _ notices
      cases made
      obtain ⟨t, here, _⟩ := kept.custody.noticed (k := k) (by simp [notices])
      refine ⟨quits.commands, fun owner => absurd owner (stays (ticket_of_spot here)), fun _ stopped => ?_⟩
      cases stopped
    · cases made
  | returned =>
    simp only [notifierStep] at made
    split at made
    · rename_i k notifier
      cases made
      obtain ⟨t, here, _⟩ := kept.custody.calling notifier
      refine ⟨quits.commands, fun owner => absurd owner (stays (ticket_of_spot here)), fun _ stopped => ?_⟩
      cases stopped
    · cases made
  | exit =>
    simp only [notifierStep, Option.ite_none_right_eq_some, Option.some.injEq] at made
    obtain ⟨⟨_, notices, _⟩, rfl⟩ := made
    exact ⟨quits.commands, quits.leaving, fun _ _ => notices⟩
  | join =>
    simp only [notifierStep, Option.ite_none_right_eq_some, Option.some.injEq] at made
    obtain ⟨⟨notifier, owner⟩, rfl⟩ := made
    exact ⟨quits.commands, quits.leaving, fun _ _ => quits.notices owner (by rw [notifier]; rfl)⟩

theorem Kept.quits_step (kept : s.Kept) {label : Label} (made : s.step p label = some s')
    (resting : s.Resting) (quits : s.Quits) : s'.Quits := by
  cases kept.steps made with
  | write => exact quits.aside (s.aside_write p)
  | mark | reap | serverStops | serverFails =>
    exact quits.aside ⟨rfl, rfl, rfl, rfl, rfl, Memory.Follows.refl _, id⟩
  | reads made | owner _ made => exact kept.quits_owner made
  | call _ _ answers =>
    by_cases out : s.owner.looping = true
    · refine quits_of_owner ?_
      rcases Answers.owner answers with same | starting
      · rw [same]
        refine ⟨fun owner => ?_, fun owner => ?_⟩
        · simp [owner, Owner.looping] at out
        · simp [owner, Owner.looping] at out
      · simp [starting]
    · rcases kept.aside_answers resting (by simpa using out) answers with aside | starting
      · exact quits.aside aside
      · exact quits_of_owner (by simp [starting])
  | task _ _ _ reading _ works =>
    refine quits_of_owner ?_
    rw [(Works.still works).owner, reading]
    simp
  | notifier _ made => exact kept.quits_notifier made quits

theorem quits_of_reachable (reached : (bridge p).Reachable s) : s.Quits := by
  refine reached.invariant_with (P := Quits) ⟨fun _ => rfl, fun owner => ?_, fun _ _ => rfl⟩
    (fun _ reached => And.intro (kept_of_reachable reached) (resting_of_reachable reached))
    fun _ _ _ quits known made => known.1.quits_step made known.2 quits
  cases owner

def Retired (s : State) : Prop :=
  s.commands = [] ∧ (s.owner = .leaving ∨ s.owner = .draining none ∨ s.owner = .absent)

theorem Retired.looping (retired : s.Retired) : s.owner.looping = false := by
  rcases retired.2 with owner | owner | owner <;> rw [owner] <;> rfl

theorem Retired.same (retired : s.Retired) (owner : s'.owner = s.owner)
    (commands : s'.commands = s.commands) (queued : s'.queued = s.queued) :
    s'.Retired ∧ s'.queued = s.queued :=
  ⟨⟨commands.trans retired.1, owner ▸ retired.2⟩, queued⟩

theorem Retired.ownerStep (retired : s.Retired) {move : OwnerMove}
    (made : s.ownerStep move = some s') : s'.Retired ∧ s'.queued = s.queued := by
  obtain ⟨commands, owner⟩ := retired
  rcases owner with owner | owner | owner
  · cases move <;> simp [State.ownerStep, owner] at made
    obtain ⟨_, rfl⟩ := made
    exact ⟨⟨commands, Or.inr (Or.inl rfl)⟩, rfl⟩
  · cases move <;> simp [State.ownerStep, owner, commands] at made
    subst made
    exact ⟨⟨rfl, Or.inr (Or.inr rfl)⟩, rfl⟩
  · cases move <;> simp [State.ownerStep, owner] at made

theorem Kept.retired_step (kept : s.Kept) {label : Label} (made : s.step p label = some s')
    (resting : s.Resting) (retired : s.Retired) :
    s'.Retired ∧ s'.queued = s.queued ∨ s'.owner = .starting := by
  cases kept.steps made with
  | write =>
    have aside := s.aside_write p
    exact Or.inl (retired.same aside.owner aside.commands aside.queued)
  | mark | reap | serverStops | serverFails => exact Or.inl (retired.same rfl rfl rfl)
  | reads made | owner _ made => exact Or.inl (retired.ownerStep made)
  | call _ _ answers =>
    rcases kept.aside_answers resting retired.looping answers with aside | starting
    · exact Or.inl (retired.same aside.owner aside.commands aside.queued)
    · exact Or.inr starting
  | task _ _ _ reading =>
    have out := retired.looping
    rw [reading] at out
    cases out
  | @notifier move _ _ made =>
    left
    cases move with
    | take | returned =>
      simp only [notifierStep] at made
      split at made <;> cases made
      exact retired.same rfl rfl rfl
    | exit | join =>
      simp only [notifierStep, Option.ite_none_right_eq_some, Option.some.injEq] at made
      obtain ⟨_, rfl⟩ := made
      exact retired.same rfl rfl rfl

-- What is queued after the owner has retired is queued for an owner that has started since.
theorem Retired.path {labels : List Label} (reached : (bridge p).Reachable s) (retired : s.Retired)
    (path : (bridge p).Path s labels s') (more : s'.queued ≠ s.queued ∨ s'.commands ≠ []) :
    ∃ front back middle, labels = front ++ back ∧ front ≠ [] ∧ (bridge p).Path s front middle ∧
      (bridge p).Path middle back s' ∧ middle.owner = .starting := by
  induction path with
  | here s =>
    rcases more with queued | commands
    · exact absurd rfl queued
    · exact absurd retired.1 commands
  | @step s next last label rest move later ih =>
    rcases (kept_of_reachable reached).retired_step move (resting_of_reachable reached) retired with
      ⟨retired', queued⟩ | starting
    · obtain ⟨front, back, middle, rfl, _, first, second, starting⟩ :=
        ih (reached.next move) retired' (queued ▸ more)
      exact ⟨label :: front, back, middle, rfl, by simp, .step move first, second, starting⟩
    · exact ⟨[label], rest, next, rfl, by simp, .single move, later, starting⟩

end State

end HttpServer.CAbi
