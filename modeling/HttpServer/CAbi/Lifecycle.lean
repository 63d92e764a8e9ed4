import HttpServer.CAbi.Tickets

set_option autoImplicit false

/-!
# What the operations of an instance say about it

The host does not know an instance before its create operation is done, and a close operation that
is not done is the only one of its instance.
-/

namespace HttpServer.CAbi

theorem Kind.closes_of_business {kind : Kind} (business : kind.business = true) :
    kind.closes = false := by
  cases kind <;> first | rfl | cases business

theorem Kind.closes_of_creates {kind : Kind} (creates : kind.creates = true) :
    kind.closes = false := by
  cases kind <;> first | rfl | cases creates

/-- As far as the life of an instance goes nothing has changed. -/
structure Ticket.Like (t t' : Ticket) : Prop where
  kind : t'.kind = t.kind
  owner : t'.owner = t.owner
  response : t'.response = t.response
  done : t'.done = t.done
  handle : t'.event.handle = t.event.handle

theorem Ticket.Like.refl (t : Ticket) : t.Like t := ⟨rfl, rfl, rfl, rfl, rfl⟩

namespace Memory

variable {m m' : Memory}

def Known (m : Memory) (i : Key) : Prop :=
  (∃ s, m.insts.get i = some s ∧ 0 < s.held) ∨ ∃ r x, m.responses.get r = some x ∧ x.owner = i

structure Unborn (m : Memory) (k i : Key) : Prop where
  live : i ∈ m.live
  unknown : ¬m.Known i
  only : ∀ key t, m.ticket key = some t → t.owner = i → key = k

structure Dying (m : Memory) (k i : Key) : Prop where
  live : i ∈ m.live
  closing : ∀ s, m.insts.get i = some s → s.closing = true
  only : ∀ key t, m.ticket key = some t → t.owner = i → t.kind.closes = true → t.done = false →
    key = k

structure Tidy (m : Memory) : Prop where
  books : m.Books
  linked : ∀ i s, m.insts.get i = some s → s.closing = false → i ∈ m.live
  handle : ∀ k t i, m.ticket k = some t → t.event.handle = some i →
    t.kind.creates = true ∧ t.owner = i ∧ t.done = true
  reading : ∀ k t, m.ticket k = some t → t.kind = .read → t.response.isSome
  -- an operation on a response belongs to the instance of the response
  paired : ∀ k t r x, m.ticket k = some t → t.response = some r → m.responses.get r = some x →
    x.owner = t.owner
  creating : ∀ k t, m.ticket k = some t → t.kind.creates = true → t.done = false →
    m.Unborn k t.owner
  closing : ∀ k t, m.ticket k = some t → t.kind.closes = true → t.done = false → m.Dying k t.owner

theorem tidy_empty (books : empty.Books) : empty.Tidy where
  books := books
  linked i s found := by simp [empty] at found
  handle k t i found := by simp [empty, ticket] at found
  reading k t found := by simp [empty, ticket] at found
  paired k t r x found := by simp [empty, ticket] at found
  creating k t found := by simp [empty, ticket] at found
  closing k t found := by simp [empty, ticket] at found

theorem Sound.ticket_addressed (sound : m.Sound) {k : Key} {t : Ticket}
    (found : m.ticket k = some t) : k < m.fresh := by
  obtain ⟨o, found, _⟩ := ticket_eq_some.mp found
  exact (sound.ops k o found).addressed

theorem Sound.ticket_absent (sound : m.Sound) {k : Key} (fresh : m.fresh ≤ k) :
    m.ticket k = none := by
  by_contra present
  obtain ⟨t, found⟩ := Option.ne_none_iff_exists'.mp present
  exact absurd (sound.ticket_addressed found) (not_lt.mpr fresh)

theorem owner_addressed (books : m.Books) {k : Key} {t : Ticket} (found : m.ticket k = some t) :
    t.owner < m.fresh := by
  obtain ⟨o, op, _, rfl⟩ := ticket_eq_some.mp found
  obtain ⟨s, present⟩ := books.owner_found op (le_refl 0)
  exact (books.sound.insts _ s present).addressed

theorem response_owner_addressed (books : m.Books) {r : Key} {x : Response}
    (found : m.responses.get r = some x) : x.owner < m.fresh := by
  obtain ⟨s, present⟩ := books.instance_found (k := x.owner) (by
    have pointer := response_pointer found
    omega)
  exact (books.sound.insts _ s present).addressed

theorem response_of_ticket (books : m.Books) {k r : Key} {t : Ticket} (found : m.ticket k = some t)
    (uses : t.response = some r) : ∃ x, m.responses.get r = some x := by
  obtain ⟨o, op, _, rfl⟩ := ticket_eq_some.mp found
  apply books.response_found
  have user := op_user (k := r) op (Or.inl uses)
  omega

theorem Known.addressed (books : m.Books) {i : Key} (known : m.Known i) : i < m.fresh := by
  rcases known with ⟨s, found, _⟩ | ⟨r, x, found, rfl⟩
  · exact (books.sound.insts i s found).addressed
  · exact response_owner_addressed books found

theorem Shuts.known (shuts : m.Shuts m') {i : Key} (known : m'.Known i) : m.Known i := by
  rcases known with ⟨s', found, held⟩ | ⟨r, x', found, owner⟩
  · obtain ⟨s, before, _, fewer⟩ := shuts.insts i s' found
    exact Or.inl ⟨s, before, held.trans_le fewer⟩
  · obtain ⟨x, before, same⟩ := shuts.responses r x' found
    exact Or.inr ⟨r, x, before, same ▸ owner⟩

/-- No operation is new, none is answered and no instance gets known before its time. -/
structure Carries (m m' : Memory) : Prop where
  books : m'.Books
  live : m'.live = m.live
  closing : ∀ i s', m'.insts.get i = some s' →
    ∃ s, m.insts.get i = some s ∧ (s.closing = true → s'.closing = true)
  tickets : ∀ k t', m'.ticket k = some t' → ∃ t, m.ticket k = some t ∧ t.Like t'
  responses : ∀ r x', m'.responses.get r = some x' →
    m.responses.get r = none ∨ ∃ x, m.responses.get r = some x ∧ x'.owner = x.owner
  known : ∀ k t, m.ticket k = some t → t.kind.creates = true → t.done = false →
    m'.Known t.owner → m.Known t.owner

theorem Tidy.carried (tidy : m.Tidy) (carries : m.Carries m') : m'.Tidy where
  books := carries.books
  linked i s' found opened := by
    obtain ⟨s, before, closing⟩ := carries.closing i s' found
    rw [carries.live]
    apply tidy.linked i s before
    by_contra shut
    simp [closing (by simpa using shut)] at opened
  handle k t' i found handle := by
    obtain ⟨t, before, like⟩ := carries.tickets k t' found
    rw [like.kind, like.owner, like.done]
    exact tidy.handle k t i before (like.handle ▸ handle)
  reading k t' found read := by
    obtain ⟨t, before, like⟩ := carries.tickets k t' found
    rw [like.response]
    exact tidy.reading k t before (like.kind ▸ read)
  paired k t' r x' found uses present := by
    obtain ⟨t, before, like⟩ := carries.tickets k t' found
    have uses : t.response = some r := like.response ▸ uses
    obtain ⟨y, there⟩ := response_of_ticket tidy.books before uses
    rw [like.owner]
    rcases carries.responses r x' present with absent | ⟨x, old, same⟩
    · simp [absent] at there
    · exact same.trans (tidy.paired k t r x before uses old)
  creating k t' found creates undone := by
    obtain ⟨t, before, like⟩ := carries.tickets k t' found
    have undone : t.done = false := like.done ▸ undone
    have creates : t.kind.creates = true := like.kind ▸ creates
    have unborn := tidy.creating k t before creates undone
    rw [like.owner]
    refine ⟨carries.live ▸ unborn.live, fun known => ?_, fun key u' present owner => ?_⟩
    · exact unborn.unknown (carries.known k t before creates undone known)
    · obtain ⟨u, present, like'⟩ := carries.tickets key u' present
      exact unborn.only key u present (like'.owner.symm.trans owner)
  closing k t' found closes undone := by
    obtain ⟨t, before, like⟩ := carries.tickets k t' found
    have dying := tidy.closing k t before (like.kind ▸ closes) (like.done ▸ undone)
    rw [like.owner]
    refine ⟨carries.live ▸ dying.live, fun s' present => ?_, fun key u' present owner closes undone => ?_⟩
    · obtain ⟨s, present, closing⟩ := carries.closing t.owner s' present
      exact closing (dying.closing s present)
    · obtain ⟨u, present, like'⟩ := carries.tickets key u' present
      exact dying.only key u present (like'.owner.symm.trans owner) (like'.kind ▸ closes)
        (like'.done ▸ undone)

theorem Shuts.carries (shuts : m.Shuts m') (books : m'.Books) (live : m'.live = m.live)
    (tickets : ∀ k t', m'.ticket k = some t' → ∃ t, m.ticket k = some t ∧ t.Like t') :
    m.Carries m' where
  books := books
  live := live
  closing i s' found := by
    obtain ⟨s, before, closing, _⟩ := shuts.insts i s' found
    exact ⟨s, before, closing⟩
  tickets := tickets
  responses r x' found := Or.inr (shuts.responses r x' found)
  known _ _ _ _ _ := shuts.known

theorem Shuts.carries_same (shuts : m.Shuts m') (books : m'.Books) (live : m'.live = m.live)
    (ticket : m'.ticket = m.ticket) : m.Carries m' :=
  shuts.carries books live fun _ t found => ⟨t, ticket ▸ found, .refl t⟩

theorem released_shuts {r : Key} {released : Bool}
    (effect : if released then m.Quiet m' else (m.marked r).Quiet m') : m.Shuts m' := by
  split_ifs at effect
  · exact effect.shuts
  · exact (shuts_marked r).trans effect.shuts

theorem Calm.carries (calm : m.Calm m') : m.Carries m' :=
  calm.quiet.shuts.carries_same calm.books calm.live calm.ticket

theorem Tidy.ids (tidy : m.Tidy) (nextId : Nat) : { m with nextId := nextId }.Tidy := by
  have books : ({ m with nextId := nextId } : Memory).Books := by
    refine ⟨fun a => ?_, { tidy.books.sound with }⟩
    have same : ({ m with nextId := nextId } : Memory).total a = m.total a := by
      cases a <;> rfl
    exact same.trans (tidy.books.balance a)
  refine tidy.carried (Shuts.carries_same (Quiet.shuts ?_) books rfl rfl)
  exact quiet_of_same (le_refl m.fresh) rfl rfl

theorem Tidy.admits {k i : Key} {kind : Kind} {response : Option Key} (tidy : m.Tidy)
    (admits : m.Admits m' k (.new kind i response)) (known : m.Known i)
    (creates : kind.creates = false) (reads : kind = .read → response.isSome)
    (owned : ∀ r, response = some r → ∃ x, m.responses.get r = some x ∧ x.owner = i)
    (closes : kind.closes = true → ∃ s, m.insts.get i = some s ∧ s.closing = false)
    (closed : kind.closes = true → ∀ s', m'.insts.get i = some s' → s'.closing = true) :
    m'.Tidy where
  books := admits.books
  linked j s' found opened := by
    obtain ⟨s, before, closing, _⟩ := admits.shuts.insts j s' found
    rw [admits.live]
    apply tidy.linked j s before
    by_contra shut
    simp [closing (by simpa using shut)] at opened
  handle key t j found handle := by
    rw [admits.ticket] at found
    split_ifs at found
    · cases found
      simp [Ticket.new] at handle
    · exact tidy.handle key t j found handle
  reading key t found read := by
    rw [admits.ticket] at found
    split_ifs at found
    · cases found
      exact reads read
    · exact tidy.reading key t found read
  paired key t r x' found uses present := by
    obtain ⟨x, before, same⟩ := admits.shuts.responses r x' present
    rw [same]
    rw [admits.ticket] at found
    split_ifs at found
    · cases found
      obtain ⟨y, there, owner⟩ := owned r uses
      cases before.symm.trans there
      exact owner
    · exact tidy.paired key t r x found uses before
  creating key t found made undone := by
    rw [admits.ticket] at found
    split_ifs at found with here
    · cases found
      simp [Ticket.new, creates] at made
    · have unborn := tidy.creating key t found made undone
      refine ⟨admits.live ▸ unborn.live, fun known => unborn.unknown (admits.shuts.known known), ?_⟩
      intro other u present owner
      rw [admits.ticket] at present
      split_ifs at present
      · cases present
        simp only [Ticket.new] at owner
        exact absurd known (owner ▸ unborn.unknown)
      · exact unborn.only other u present owner
  closing key t found shuts undone := by
    have alone (other : Key) (u : Ticket) (present : m.ticket other = some u) (owner : u.owner = i)
        (shuts : u.kind.closes = true) (undone : u.done = false) (here : kind.closes = true) :
        False := by
      have dying := tidy.closing other u present shuts undone
      obtain ⟨s, before, opened⟩ := closes here
      simp [dying.closing s (owner ▸ before)] at opened
    rw [admits.ticket] at found
    split_ifs at found with here
    · cases found
      obtain ⟨s, before, opened⟩ := closes shuts
      refine ⟨admits.live ▸ tidy.linked i s before opened, closed shuts, ?_⟩
      intro other u present owner shuts' undone'
      rw [admits.ticket] at present
      split_ifs at present with same
      · exact same.trans here.symm
      · exact (alone other u present owner shuts' undone' shuts).elim
    · have dying := tidy.closing key t found shuts undone
      refine ⟨admits.live ▸ dying.live, fun s' present => ?_, ?_⟩
      · obtain ⟨s, before, closing, _⟩ := admits.shuts.insts _ s' present
        exact closing (dying.closing s before)
      · intro other u present owner shuts' undone'
        rw [admits.ticket] at present
        split_ifs at present with same
        · cases present
          exact (alone key t found owner.symm shuts undone shuts').elim
        · exact dying.only other u present owner shuts' undone'

theorem Tidy.creates {k : Key} {kind : Kind} (tidy : m.Tidy) (made : m.Creates m' k kind)
    (creates : kind.creates = true) : m'.Tidy where
  books := made.books
  linked i s' found opened := by
    rw [made.live]
    rcases made.insts i s' found with ⟨rfl, _⟩ | ⟨_, s, before, same, _⟩
    · exact List.mem_cons_self
    · exact List.mem_cons_of_mem _ (tidy.linked i s before (same ▸ opened))
  handle key t i found handle := by
    rw [made.ticket] at found
    split_ifs at found
    · cases found
      simp [Ticket.new] at handle
    · exact tidy.handle key t i found handle
  reading key t found read := by
    rw [made.ticket] at found
    split_ifs at found
    · cases found
      simp [Ticket.new] at read
      simp [read, Kind.creates] at creates
    · exact tidy.reading key t found read
  paired key t r x' found uses present := by
    obtain ⟨x, before, same⟩ := made.responses r x' present
    rw [made.ticket] at found
    split_ifs at found
    · cases found
      cases uses
    · exact same.trans (tidy.paired key t r x found uses before)
  creating key t found creating undone := by
    rw [made.ticket] at found
    split_ifs at found with here
    · cases found
      refine ⟨by simp [Ticket.new, made.live], ?_, ?_⟩
      · rintro (⟨s', present, held⟩ | ⟨r, x', present, owner⟩)
        · rcases made.insts _ s' present with ⟨_, _, none⟩ | ⟨other, _⟩
          · omega
          · exact other rfl
        · obtain ⟨x, before, same⟩ := made.responses r x' present
          have old := response_owner_addressed tidy.books before
          rw [← same, owner] at old
          exact absurd old (lt_irrefl _)
      · intro other u present owner
        rw [made.ticket] at present
        split_ifs at present with same
        · exact same.trans here.symm
        · have old := owner_addressed tidy.books present
          rw [owner] at old
          exact absurd old (lt_irrefl _)
    · have unborn := tidy.creating key t found creating undone
      have old := owner_addressed tidy.books found
      refine ⟨by rw [made.live]; exact List.mem_cons_of_mem _ unborn.live, ?_, ?_⟩
      · rintro (⟨s', present, held⟩ | ⟨r, x', present, owner⟩)
        · rcases made.insts _ s' present with ⟨new, _⟩ | ⟨_, s, before, _, fewer⟩
          · exact absurd new (Nat.ne_of_lt old)
          · exact unborn.unknown (Or.inl ⟨s, before, held.trans_le fewer⟩)
        · obtain ⟨x, before, same⟩ := made.responses r x' present
          exact unborn.unknown (Or.inr ⟨r, x, before, same ▸ owner⟩)
      · intro other u present owner
        rw [made.ticket] at present
        split_ifs at present with same
        · cases present
          simp only [Ticket.new] at owner
          exact absurd owner.symm (Nat.ne_of_lt old)
        · exact unborn.only other u present owner
  closing key t found closes undone := by
    rw [made.ticket] at found
    split_ifs at found with here
    · cases found
      simp [Ticket.new, Kind.closes_of_creates creates] at closes
    · have dying := tidy.closing key t found closes undone
      have old := owner_addressed tidy.books found
      refine ⟨by rw [made.live]; exact List.mem_cons_of_mem _ dying.live, ?_, ?_⟩
      · intro s' present
        rcases made.insts _ s' present with ⟨new, _⟩ | ⟨_, s, before, same, _⟩
        · exact absurd new (Nat.ne_of_lt old)
        · exact same.trans (dying.closing s before)
      · intro other u present owner closes' undone'
        rw [made.ticket] at present
        split_ifs at present with same
        · cases present
          simp [Ticket.new, Kind.closes_of_creates creates] at closes'
        · exact dying.only other u present owner closes' undone'

theorem Tidy.undelivered (tidy : m.Tidy) {k : Key} {t : Ticket} (found : m.ticket k = some t)
    (undone : t.done = false) : t.delivered = false := by
  obtain ⟨o, present, _, rfl⟩ := ticket_eq_some.mp found
  change o.delivered = false
  by_contra delivered
  have done := (tidy.books.sound.ops k o present).delivered (by simpa using delivered)
  simp [Operation.ticket, done] at undone

theorem Tidy.respond {sizes : Sizes} {k : Key} {count : Nat} {allocated : Bool} {t : Ticket}
    (tidy : m.Tidy) (found : m.ticket k = some t) (submit : t.kind = .submit)
    (undone : t.done = false) (blank : t.event.response = none)
    (made : m.makeResponse sizes k count allocated = some m') : m'.Tidy ∧
      ∀ key, m'.ticket key = if key = k then some { t with
        event := { t.event with response := some m.fresh, kind := .handled } } else m.ticket key := by
  obtain ⟨o, present, unfinished, rfl⟩ := ticket_eq_some.mp found
  obtain ⟨books, live, insts, responses, ticket⟩ := makeResponse_effect tidy.books present
    ⟨undone, tidy.undelivered found undone, unfinished⟩ blank made
  refine ⟨tidy.carried ⟨books, live, fun i s' there => ?_, fun key t' there => ?_,
    fun r x' after => ?_, ?_⟩, ticket⟩
  · obtain ⟨s, before, same, _⟩ := insts i s' there
    exact ⟨s, before, fun closing => same.trans closing⟩
  · rw [ticket] at there
    split_ifs at there with here
    · cases there
      exact ⟨o.ticket, here ▸ found, ⟨rfl, rfl, rfl, rfl, rfl⟩⟩
    · exact ⟨t', there, .refl t'⟩
  · rcases responses r x' after with ⟨new, _⟩ | ⟨x, before, same, _⟩
    · left
      by_contra present
      obtain ⟨x, old⟩ := Option.ne_none_iff_exists'.mp present
      have addressed := (tidy.books.sound.responses r x old).addressed
      exact absurd new (Nat.ne_of_lt addressed)
    · exact Or.inr ⟨x, before, same⟩
  · rintro key u there creates undone' (⟨s', after, held⟩ | ⟨r, x', after, owner⟩)
    · obtain ⟨s, before, _, fewer⟩ := insts _ s' after
      exact Or.inl ⟨s, before, held.trans_le fewer⟩
    · rcases responses r x' after with ⟨_, owned⟩ | ⟨x, before, same, _⟩
      · -- the submit would be an operation of an instance that is not there yet
        have unborn := tidy.creating key u there creates undone'
        have same := unborn.only k o.ticket found (owned.symm.trans owner)
        rw [← same, found, Option.some.injEq] at there
        simp [← there, submit, Kind.creates] at creates
      · exact Or.inr ⟨r, x, before, same ▸ owner⟩

theorem Tidy.chunk {k : Key} {length : Nat} {allocated : Bool} {t : Ticket}
    (tidy : m.Tidy) (found : m.ticket k = some t) (read : t.kind = .read)
    (undone : t.done = false) (blank : t.event.chunk = none)
    (made : m.addChunk k length allocated = some m') : m'.Tidy ∧
      ∀ key, m'.ticket key = if key = k then some { t with
        event := { t.event with chunk := some m.fresh, kind := .chunk } } else m.ticket key := by
  obtain ⟨r, response⟩ := Option.isSome_iff_exists.mp (tidy.reading k t found read)
  obtain ⟨o, present, unfinished, rfl⟩ := ticket_eq_some.mp found
  obtain ⟨books, live, quiet, ticket⟩ := addChunk_effect tidy.books present
    ⟨undone, tidy.undelivered found undone, unfinished⟩ response blank made
  refine ⟨tidy.carried (quiet.shuts.carries books live fun key t' there => ?_), ticket⟩
  rw [ticket] at there
  split_ifs at there with here
  · cases there
    exact ⟨o.ticket, here ▸ found, ⟨rfl, rfl, rfl, rfl, rfl⟩⟩
  · exact ⟨t', there, .refl t'⟩

theorem Tidy.cancel (tidy : m.Tidy) (k : Key) : (m.cancel k).Tidy := by
  refine tidy.carried ((quiet_onOp k _).shuts.carries (cancel_ledger tidy.books k) rfl ?_)
  intro key t' there
  change (m.cancel k).ticket key = some t' at there
  rw [cancel_ticket] at there
  split_ifs at there with here
  · obtain ⟨t, before, rfl⟩ := Option.map_eq_some_iff.mp there
    exact ⟨t, here ▸ before, ⟨rfl, rfl, rfl, rfl, rfl⟩⟩
  · exact ⟨t', there, .refl t'⟩

theorem Tidy.deliver {k : Key} {t : Ticket} (tidy : m.Tidy) (found : m.ticket k = some t)
    (done : t.done = true) (undelivered : t.delivered = false) : (m.deliver k).Tidy ∧
      ∀ key, (m.deliver k).ticket key =
        if key = k then some { t with delivered := true } else m.ticket key := by
  obtain ⟨o, present, unfinished, rfl⟩ := ticket_eq_some.mp found
  obtain ⟨books, live, _, insts, responses, ticket⟩ :=
    deliver_effect tidy.books present done undelivered unfinished
  refine ⟨tidy.carried ⟨books, live, fun i s' there => ?_, fun key t' there => ?_,
    fun r x' after => ?_, ?_⟩, ticket⟩
  · obtain ⟨s, before, same, _⟩ := insts i s' there
    exact ⟨s, before, fun closing => same.trans closing⟩
  · rw [ticket] at there
    split_ifs at there with here
    · cases there
      exact ⟨o.ticket, here ▸ found, ⟨rfl, rfl, rfl, rfl, rfl⟩⟩
    · exact ⟨t', there, .refl t'⟩
  · obtain ⟨x, before, same, _⟩ := responses r x' after
    exact Or.inr ⟨x, before, same⟩
  · rintro key u there creates undone (⟨s', after, held⟩ | ⟨r, x', after, owner⟩)
    · obtain ⟨s, before, _, fewer⟩ := insts _ s' after
      refine Or.inl ⟨s, before, held.trans_le (fewer fun handle => ?_)⟩
      -- only the create of an instance hands it out, and it would be done
      obtain ⟨_, owner, _⟩ := tidy.handle k o.ticket u.owner found handle
      have same := (tidy.creating key u there creates undone).only k o.ticket found owner
      rw [← same, found, Option.some.injEq] at there
      rw [there] at done
      simp [undone] at done
    · obtain ⟨x, before, same, _⟩ := responses r x' after
      exact Or.inr ⟨r, x, before, same ▸ owner⟩

theorem Tidy.finish {k : Key} {t : Ticket} (tidy : m.Tidy) (found : m.ticket k = some t)
    (delivered : t.delivered = true) : (m.finish k).Tidy ∧
      ∀ key, (m.finish k).ticket key = if key = k then none else m.ticket key := by
  obtain ⟨o, present, unfinished, rfl⟩ := ticket_eq_some.mp found
  obtain ⟨books, quiet, live, ticket⟩ := finish_effect tidy.books present delivered unfinished
  refine ⟨tidy.carried (quiet.shuts.carries books live fun key t' there => ?_), ticket⟩
  rw [ticket] at there
  split_ifs at there
  exact ⟨t', there, .refl t'⟩

theorem Tidy.complete {k : Key} {t : Ticket} (tidy : m.Tidy) (found : m.ticket k = some t)
    (undone : t.done = false) (code : Code) (kind : Option ResultKind) :
    (m.complete k code kind).Tidy ∧ ∀ key, (m.complete k code kind).ticket key =
      if key = k then some (t.answered code kind) else m.ticket key := by
  obtain ⟨o, present, unfinished, rfl⟩ := ticket_eq_some.mp found
  have ticket (key : Key) : (m.complete k code kind).ticket key =
      if key = k then some (o.ticket.answered code kind) else m.ticket key :=
    complete_ticket present undone unfinished key
  have shuts : m.Shuts (m.complete k code kind) := complete_shuts present undone
  have live : (m.complete k code kind).live =
      if retires o code then m.live.erase o.owner else m.live := complete_live present undone
  -- the operations that may take their instance out of the live ones are alone
  have kept (key : Key) (u : Ticket) (there : m.ticket key = some u) (other : key ≠ k)
      (status : u.kind.creates = true ∨ u.kind.closes = true) (undone' : u.done = false)
      (member : u.owner ∈ m.live) : u.owner ∈ (m.complete k code kind).live := by
    rw [live]
    split_ifs with retired
    · refine (tidy.books.sound.live.mem_erase_iff).mpr ⟨fun same => ?_, member⟩
      rcases status with creates | closes
      · exact other ((tidy.creating key u there creates undone').only k _ found same.symm).symm
      · simp only [retires, Bool.or_eq_true, Bool.and_eq_true] at retired
        rcases retired with ⟨creates, _⟩ | closes'
        · exact other ((tidy.creating k _ found creates undone).only key u there same)
        · exact other ((tidy.closing k _ found closes' undone).only key u there same closes undone')
    · exact member
  refine ⟨⟨?_, ?_, ?_, ?_, ?_, ?_, ?_⟩, ticket⟩
  · apply complete_ledger tidy.books present undone
    rintro (creates | closes)
    · exact (tidy.creating k _ found creates undone).live
    · exact (tidy.closing k _ found closes undone).live
  · intro i s' there opened
    obtain ⟨s, before, closing, _⟩ := shuts.insts i s' there
    have opened' : s.closing = false := by
      by_contra shut
      simp [closing (by simpa using shut)] at opened
    have member := tidy.linked i s before opened'
    rw [live]
    split_ifs with retired
    · refine (tidy.books.sound.live.mem_erase_iff).mpr ⟨fun same => ?_, member⟩
      simp only [retires, Bool.or_eq_true, Bool.and_eq_true, decide_eq_true_eq] at retired
      rcases retired with ⟨creates, failed⟩ | closes
      · simp [complete_closing present undone creates failed s' (same ▸ there)] at opened
      · subst same
        simp [(tidy.closing k _ found closes undone).closing s before] at opened'
    · exact member
  · intro key u i there handle
    rw [ticket] at there
    split_ifs at there with here
    · cases there
      change (if o.kind.creates = true ∧ code = .ok then some o.owner else o.event.handle) = some i
        at handle
      split_ifs at handle with made
      · exact ⟨made.1, Option.some.inj handle, rfl⟩
      · obtain ⟨_, _, done⟩ := tidy.handle k _ i found handle
        simp [undone] at done
    · exact tidy.handle key u i there handle
  · intro key u there read
    rw [ticket] at there
    split_ifs at there with here
    · cases there
      exact tidy.reading k o.ticket found read
    · exact tidy.reading key u there read
  · intro key u r x' there uses present
    obtain ⟨x, before, same⟩ := shuts.responses r x' present
    rw [ticket] at there
    rw [same]
    split_ifs at there with here
    · cases there
      exact tidy.paired k o.ticket r x found uses before
    · exact tidy.paired key u r x there uses before
  · intro key u there creates undone'
    rw [ticket] at there
    split_ifs at there with here
    · cases there
      simp [Ticket.answered] at undone'
    · have unborn := tidy.creating key u there creates undone'
      refine ⟨kept key u there here (Or.inl creates) undone' unborn.live,
        fun known => unborn.unknown (shuts.known known), fun other w present owner => ?_⟩
      rw [ticket] at present
      split_ifs at present with same
      · cases present
        exact same.trans (unborn.only k _ found owner)
      · exact unborn.only other w present owner
  · intro key u there closes undone'
    rw [ticket] at there
    split_ifs at there with here
    · cases there
      simp [Ticket.answered] at undone'
    · have dying := tidy.closing key u there closes undone'
      refine ⟨kept key u there here (Or.inr closes) undone' dying.live, fun s' present => ?_,
        fun other w present owner closes' undone'' => ?_⟩
      · obtain ⟨s, before, closing, _⟩ := shuts.insts _ s' present
        exact closing (dying.closing s before)
      · rw [ticket] at present
        split_ifs at present
        · cases present
          simp [Ticket.answered] at undone''
        · exact dying.only other w present owner closes' undone''

theorem retireAll_closing (keys : List Key) : ∀ i ∈ keys, ∀ s,
    (m.retireAll keys).insts.get i = some s → s.closing = true := by
  induction keys generalizing m with
  | nil => simp
  | cons k rest ih =>
    intro i member s found
    by_cases later : i ∈ rest
    · exact ih i later s found
    · rcases List.mem_cons.mp member with rfl | there
      · obtain ⟨shuts, _⟩ := retireAll_effect (m := (m.onInst i fun s =>
          { s with closed := true, closing := true }).retire i) rest
        obtain ⟨s₁, before, closing, _⟩ := ((quiet_retire i).shuts.trans shuts).insts i s found
        rw [onInst, OrderedMap.get_modify_self] at before
        obtain ⟨_, _, rfl⟩ := Option.map_eq_some_iff.mp before
        exact closing rfl
      · exact absurd there later

-- Nothing is open any more when the owner ends.
theorem Tidy.retireAll (tidy : m.Tidy) (answered : ∀ k t, m.ticket k = some t → t.done = true) :
    (m.retireAll m.live).Tidy := by
  obtain ⟨shuts, ticket, _⟩ := retireAll_effect (m := m) m.live
  refine ⟨retireAll_ledger tidy.books rfl, fun i s' found opened => ?_, ?_, ?_,
    fun k t r x' found uses present => ?_, fun k t found _ undone => ?_, fun k t found _ undone => ?_⟩
  · obtain ⟨s, before, closing, _⟩ := shuts.insts i s' found
    have opened' : s.closing = false := by
      by_contra shut
      simp [closing (by simpa using shut)] at opened
    simp [retireAll_closing m.live i (tidy.linked i s before opened') s' found] at opened
  · simpa only [ticket] using tidy.handle
  · simpa only [ticket] using tidy.reading
  · obtain ⟨x, before, same⟩ := shuts.responses r x' present
    exact same.trans (tidy.paired k t r x (ticket ▸ found) uses before)
  · simp [answered k t (ticket ▸ found)] at undone
  · simp [answered k t (ticket ▸ found)] at undone

end Memory

end HttpServer.CAbi
