import HttpServer.CAbi.Ledger

set_option autoImplicit false

/-!
# What the runtime knows of an operation

A ticket is an operation without its references and charges; it is there until the notifier has
finished with the operation. Most functions leave all tickets alone.
-/

namespace HttpServer.CAbi

structure Ticket where
  kind : Kind
  owner : Key
  cancelled : Bool
  done : Bool
  delivered : Bool
  response : Option Key
  event : Event
  deriving DecidableEq

def Operation.ticket (o : Operation) : Ticket where
  kind := o.kind
  owner := o.owner
  cancelled := o.cancelled
  done := o.done
  delivered := o.delivered
  response := o.response
  event := o.event

def Ticket.new (kind : Kind) (owner : Key) (response : Option Key) : Ticket where
  kind
  owner
  cancelled := false
  done := false
  delivered := false
  response
  event := ⟨.ok, .done, none, none, none⟩

def Ticket.answered (t : Ticket) (code : Code) (kind : Option ResultKind) : Ticket :=
  { t with
    done := true
    event := { t.event with
      code
      kind := kind.getD t.event.kind
      handle := if t.kind.creates ∧ code = .ok then some t.owner else t.event.handle
      response := if code = .ok then t.event.response else none } }

namespace Memory

variable {m : Memory}

def ticket (m : Memory) (k : Key) : Option Ticket :=
  (m.ops.get k).bind fun o => if o.finished then none else some o.ticket

theorem ticket_eq_some {k : Key} {t : Ticket} :
    m.ticket k = some t ↔ ∃ o, m.ops.get k = some o ∧ o.finished = false ∧ o.ticket = t := by
  simp [ticket, Option.bind_eq_some_iff]

theorem ticket_of_ops {m' : Memory} (same : m'.ops = m.ops) : m'.ticket = m.ticket := by
  funext k
  simp only [ticket, same]

theorem ticket_of_get {k : Key} {o : Operation} (found : m.ops.get k = some o)
    (unfinished : o.finished = false) : m.ticket k = some o.ticket := by
  simp [ticket, found, unfinished]

theorem ticket_onOp {k : Key} {f : Operation → Operation} (key : Key) :
    (m.onOp k f).ticket key = if key = k then
      (m.ops.get k).bind fun o => if (f o).finished then none else some (f o).ticket
    else m.ticket key := by
  simp only [ticket, get_onOp]
  split_ifs
  · cases m.ops.get k <;> rfl
  · rfl

theorem ticket_onOp_same {k : Key} {f : Operation → Operation}
    (same : ∀ o, (f o).finished = o.finished ∧ (f o).ticket = o.ticket) :
    (m.onOp k f).ticket = m.ticket := by
  funext key
  rw [ticket_onOp]
  split_ifs with here
  · simp only [same, here, ticket]
  · rfl

/-- Nothing that the runtime knows has changed. -/
structure Calm (m m' : Memory) : Prop where
  books : m'.Books
  quiet : m.Quiet m'
  live : m'.live = m.live
  ticket : m'.ticket = m.ticket

structure Admits (m m' : Memory) (k : Key) (t : Ticket) : Prop where
  books : m'.Books
  shuts : m.Shuts m'
  live : m'.live = m.live
  fresh : m.fresh ≤ k
  addressed : k < m'.fresh
  ticket : ∀ key, m'.ticket key = if key = k then some t else m.ticket key

theorem Admits.then_calm {m m' m'' : Memory} {k : Key} {t : Ticket} (admits : m.Admits m' k t)
    (calm : m'.Calm m'') : m.Admits m'' k t where
  books := calm.books
  shuts := admits.shuts.trans calm.quiet.shuts
  live := calm.live.trans admits.live
  fresh := admits.fresh
  addressed := admits.addressed.trans_le calm.quiet.fresh
  ticket := by simpa only [calm.ticket] using admits.ticket

theorem newOp_ops {sizes : Sizes} {kind : Kind} {i k : Key} {allocated : Bool} {m' : Memory}
    (made : m.newOp sizes kind i allocated = some (k, m')) :
    k = m.fresh ∧ m'.fresh = m.fresh + 1 ∧ m'.live = m.live ∧ m'.responses = m.responses ∧
      m.Quiet m' ∧ ∃ bytes, m'.ops = m.ops.insert k (m.newOperation kind i bytes) := by
  obtain ⟨_, _, made⟩ := newOp_eq_some.mp made
  split_ifs at made
  · obtain ⟨s, _, _, made⟩ := made
    cases made
    exact ⟨rfl, rfl, rfl, rfl, (quiet_charged _ _ _).trans (quiet_addOp _ _ _), _, rfl⟩
  · cases made
    exact ⟨rfl, rfl, rfl, rfl, quiet_addOp _ _ _, _, rfl⟩

theorem newOp_get {sizes : Sizes} {kind : Kind} {i k : Key} {allocated : Bool} {m' : Memory}
    (made : m.newOp sizes kind i allocated = some (k, m')) :
    ∃ o, m'.ops.get k = some o ∧ o.Unanswered ∧ o.event.Blank ∧ o.inputCharge = 0 ∧
      o.response = none ∧ o.ticket = .new kind i none ∧ o.owner = i ∧ o.refs = 2 ∧ o.held = 1 := by
  obtain ⟨_, _, _, _, _, bytes, ops⟩ := newOp_ops made
  exact ⟨m.newOperation kind i bytes, by rw [ops, OrderedMap.get_insert_self], ⟨rfl, rfl, rfl⟩,
    ⟨rfl, rfl, rfl⟩, rfl, rfl, rfl, rfl, rfl, rfl⟩

theorem newOp_admits {sizes : Sizes} {kind : Kind} {i k : Key} {allocated : Bool} {m' : Memory}
    {s : Instance} (books : m.Books) (found : m.insts.get i = some s)
    (made : m.newOp sizes kind i allocated = some (k, m')) :
    m.Admits m' k (.new kind i none) := by
  obtain ⟨address, fresh, live, _, quiet, bytes, ops⟩ := newOp_ops made
  refine ⟨newOp_ledger books made found, quiet.shuts, live, address.ge,
    by rw [address, fresh]; exact Nat.lt_succ_self _, fun key => ?_⟩
  simp only [ticket, ops, OrderedMap.get_insert]
  split_ifs
  · simp [newOperation, Operation.ticket, Ticket.new]
  · rfl

theorem chargeInput_ops {k : Key} {o : Operation} {bytes : Int} {m' : Memory}
    (found : m.ops.get k = some o) (made : m.chargeInput k bytes = some m') :
    m.Quiet m' ∧ m'.live = m.live ∧ m'.ticket = m.ticket ∧
      m'.ops.get k = some { o with inputCharge := bytes } ∧ m'.fresh = m.fresh := by
  simp only [chargeInput, found, Option.map_eq_some_iff] at made
  obtain ⟨paid, charge, rfl⟩ := made
  obtain ⟨s, _, _, rfl⟩ := charge_eq_some.mp charge
  refine ⟨(quiet_charged _ _ _).trans (quiet_onOp _ _), rfl, ?_, ?_, rfl⟩
  · exact ticket_onOp_same fun _ => ⟨rfl, rfl⟩
  · rw [get_onOp_self, ops_charged, found]
    rfl

theorem chargeInput_calm {k : Key} {o : Operation} {bytes : Int} {m' : Memory} (books : m.Books)
    (found : m.ops.get k = some o) (first : o.inputCharge = 0) (nonneg : 0 ≤ bytes)
    (made : m.chargeInput k bytes = some m') : m.Calm m' := by
  obtain ⟨quiet, live, ticket, _⟩ := chargeInput_ops found made
  exact ⟨chargeInput_ledger books made found first nonneg, quiet, live, ticket⟩

theorem abandon_ops {k : Key} {o : Operation} (found : m.ops.get k = some o) :
    m.Quiet (m.abandon k) ∧ (m.abandon k).live = m.live ∧ (m.abandon k).fresh = m.fresh ∧
      ∀ key, (m.abandon k).ops.get key = if key = k then none else m.ops.get key := by
  simp only [abandon, found]
  rw [opDrop_last (o := { o with refs := 1 }) (by simp [onOp, onInst, found]) rfl]
  refine ⟨?_, ?_, ?_, fun key => ?_⟩
  · have fewer : m.Quiet { m with activeOps := m.activeOps - 1 } := quiet_of_same (le_refl _) rfl rfl
    refine ((fewer.trans (quiet_onInst _ ?_)).trans (quiet_onOp _ _)).trans (quiet_opFree _ _)
    exact fun _ => ⟨rfl, le_refl _⟩
  · rw [live_opFree]
    rfl
  · rw [fresh_opFree]
    rfl
  · rw [ops_opFree, OrderedMap.get_erase, get_onOp]
    split_ifs <;> rfl

theorem abandoned_calm {m₁ m₂ : Memory} {k : Key} {t : Ticket} {o : Operation}
    (books : m.Books) (admits : m.Admits m₁ k t) (quiet : m.Quiet m₁) (calm : m₁.Calm m₂)
    (found : m₂.ops.get k = some o) (unanswered : o.Unanswered) (blank : o.event.Blank) :
    m.Calm (m₂.abandon k) := by
  obtain ⟨abandoned, live, _, ops⟩ := abandon_ops found
  refine ⟨abandon_ledger calm.books found unanswered blank plain_zero,
    (quiet.trans calm.quiet).trans abandoned, live.trans (calm.live.trans admits.live), ?_⟩
  funext key
  by_cases same : key = k
  · have absent : m.ops.get k = none := by
      by_contra present
      obtain ⟨old, found⟩ := Option.ne_none_iff_exists'.mp present
      exact absurd (books.sound.ops k old found).addressed (not_lt.mpr admits.fresh)
    simp [ticket, ops, same, absent]
  · have kept := admits.ticket key
    rw [if_neg same, ← calm.ticket] at kept
    rw [← kept]
    simp [ticket, ops, same]

theorem submit_rejected {sizes : Sizes} {i : Key} {cost : Nat} {allocated copied : Bool}
    {code : Code} {m' : Memory} {s : Instance} (books : m.Books) (found : m.insts.get i = some s)
    (made : m.submit sizes i cost allocated copied = (code, none, m')) :
    m.Calm m' ∧ code ≠ .ok := by
  unfold submit at made
  cases new : m.newOp sizes .submit i allocated with
  | none =>
    simp only [new, Prod.mk.injEq] at made
    obtain ⟨rfl, _, rfl⟩ := made
    exact ⟨⟨books, Quiet.refl m, rfl, rfl⟩, by simp⟩
  | some result =>
    obtain ⟨k, m₁⟩ := result
    have admits := newOp_admits books found new
    obtain ⟨_, _, _, _, quiet, _⟩ := newOp_ops new
    obtain ⟨o, present, unanswered, blank, input, _⟩ := newOp_get new
    simp only [new] at made
    cases charge : m₁.chargeInput k cost with
    | none =>
      simp only [charge, Prod.mk.injEq] at made
      obtain ⟨rfl, _, rfl⟩ := made
      exact ⟨abandoned_calm books admits quiet ⟨admits.books, Quiet.refl m₁, rfl, rfl⟩ present
        unanswered blank, by simp⟩
    | some m₂ =>
      have calm := chargeInput_calm admits.books present input (Int.natCast_nonneg _) charge
      obtain ⟨_, _, _, present, _⟩ := chargeInput_ops present charge
      simp only [charge] at made
      split_ifs at made
      · cases made
      · simp only [Prod.mk.injEq] at made
        obtain ⟨rfl, _, rfl⟩ := made
        exact ⟨abandoned_calm books admits quiet calm present ⟨unanswered.1, unanswered.2, unanswered.3⟩
          blank, by simp⟩

theorem submit_admits {sizes : Sizes} {i k : Key} {cost : Nat} {allocated copied : Bool}
    {code : Code} {m' : Memory} {s : Instance} (books : m.Books) (found : m.insts.get i = some s)
    (made : m.submit sizes i cost allocated copied = (code, some k, m')) :
    m.Admits m' k (.new .submit i none) := by
  unfold submit at made
  cases new : m.newOp sizes .submit i allocated with
  | none => simp [new] at made
  | some result =>
    obtain ⟨key, m₁⟩ := result
    have admits := newOp_admits books found new
    obtain ⟨o, present, _, _, input, _⟩ := newOp_get new
    simp only [new] at made
    cases charge : m₁.chargeInput key cost with
    | none => simp [charge] at made
    | some m₂ =>
      have calm := chargeInput_calm admits.books present input (Int.natCast_nonneg _) charge
      simp only [charge] at made
      split_ifs at made
      · simp only [Prod.mk.injEq, Option.some.injEq] at made
        obtain ⟨_, rfl, rfl⟩ := made
        exact admits.then_calm calm
      · cases made

theorem startClosing_admits {sizes : Sizes} {i k : Key} {server allocated : Bool} {m' : Memory}
    {s : Instance} (books : m.Books) (found : m.insts.get i = some s)
    (made : m.startClosing sizes i server allocated = some (k, m')) :
    m.Admits m' k (.new (if server then .stopServer else .closeEngine) i none) ∧
      ∀ s', m'.insts.get i = some s' → s'.closing = true := by
  simp only [startClosing, Option.map_eq_some_iff, Prod.exists, Prod.mk.injEq] at made
  obtain ⟨key, m₁, new, rfl, rfl⟩ := made
  have admits := newOp_admits books found new
  have closing : m₁.Shuts (m₁.onInst i fun s => { s with closing := true }) :=
    shuts_onInst i fun _ => ⟨fun _ => rfl, le_refl _⟩
  refine ⟨⟨?_, admits.shuts.trans closing, admits.live, admits.fresh, admits.addressed, ?_⟩, ?_⟩
  · exact onInst_ledger admits.books (fun _ _ => rfl) fun _ ok => { ok with }
  · exact admits.ticket
  · intro s' present
    rw [onInst, OrderedMap.get_modify_self] at present
    obtain ⟨_, _, rfl⟩ := Option.map_eq_some_iff.mp present
    rfl

theorem useResponse_admits {k i r : Key} {kind : Kind} {m₁ : Memory} {o : Operation}
    {response : Response} (admits : m.Admits m₁ k (.new kind i none))
    (found : m₁.ops.get k = some o) (first : o.response = none)
    (present : m₁.responses.get r = some response) :
    m.Admits (m₁.useResponse k r) k (.new kind i (some r)) := by
  have quiet : m₁.Quiet (m₁.useResponse k r) :=
    (quiet_onOp _ _).trans (quiet_onResponse _ fun _ => ⟨rfl, rfl, le_refl _⟩)
  refine ⟨useResponse_ledger admits.books found first present, admits.shuts.trans quiet.shuts,
    admits.live, admits.fresh, admits.addressed, fun key => ?_⟩
  have before := admits.ticket key
  change (m₁.onOp k _).ticket key = _
  rw [ticket_onOp]
  split_ifs at before ⊢ with same
  · obtain ⟨o', found', unfinished, new⟩ := ticket_eq_some.mp (same ▸ before)
    cases found.symm.trans found'
    simp only [found, Option.bind_some, unfinished, Bool.false_eq_true, if_false, Option.some.injEq]
    simp only [Operation.ticket, Ticket.new, Ticket.mk.injEq] at new ⊢
    simp [new]
  · exact before

theorem read_admits {sizes : Sizes} {i k r : Key} {allocated : Bool} {m' : Memory} {s : Instance}
    {response : Response} (books : m.Books) (found : m.insts.get i = some s)
    (present : m.responses.get r = some response)
    (made : m.read sizes i r allocated = some (k, m')) :
    m.Admits m' k (.new .read i (some r)) := by
  simp only [read, Option.map_eq_some_iff, Prod.exists, Prod.mk.injEq] at made
  obtain ⟨key, m₁, new, rfl, rfl⟩ := made
  obtain ⟨_, _, _, responses, _⟩ := newOp_ops new
  obtain ⟨o, op, _, _, _, first, _⟩ := newOp_get new
  have admits := useResponse_admits (newOp_admits books found new) op first
    (r := r) (responses ▸ present)
  refine admits.then_calm ⟨?_, quiet_onResponse r fun _ => ⟨rfl, rfl, le_refl _⟩, rfl, rfl⟩
  exact onResponse_ledger admits.books (fun _ a => by cases a <;> rfl) fun _ ok => { ok with }

theorem internalOp_admits {sizes : Sizes} {i k r : Key} {allocated : Bool} {m' : Memory}
    {s : Instance} {x : Response} (ledger : Ledger (due (.responseRefs r) 1) m)
    (found : m.insts.get i = some s) (present : m.responses.get r = some x)
    (made : m.internalOp sizes i r allocated = some (k, m')) :
    Ledger (due (.responseRefs r) 1) m' ∧ m.Quiet m' ∧ m'.live = m.live ∧ k = m.fresh ∧
      m'.fresh = m.fresh + 1 ∧ ∀ key, m'.ticket key =
        if key = k then some (.new .release i (some r)) else m.ticket key := by
  simp only [internalOp, Option.map_eq_some_iff, Prod.exists, Prod.mk.injEq] at made
  obtain ⟨key, m₁, new, rfl, rfl⟩ := made
  obtain ⟨address, fresh, live, responses, quiet, bytes, ops⟩ := newOp_ops new
  obtain ⟨o, op, unanswered, blank, _, first, _, _, refs, held⟩ := newOp_get new
  have kept : Ledger (due (.responseRefs r) 1)
      (m₁.onOp key fun o => { o with refs := 1, held := 0 }) := by
    have before := newOp_ledger ledger new found
    constructor
    · intro a
      rw [total_onOp op, before.balance]
      cases a <;> simp [Operation.net, Operation.bytes, refs, held]
    · exact before.sound.onOp fun o _ ok => { ok with refs := Int.one_pos, held := le_refl 0 }
  refine ⟨useResponse_ledger (o := { o with refs := 1, held := 0 }) kept
    (by rw [get_onOp_self, op]; rfl) first (responses ▸ present), ?_, live, address, fresh, fun other => ?_⟩
  · exact (quiet.trans (quiet_onOp _ _)).trans
      ((quiet_onOp _ _).trans (quiet_onResponse _ fun _ => ⟨rfl, rfl, le_refl _⟩))
  · change ((m₁.onOp key _).onOp key _).ticket other = _
    rw [ticket_onOp, ticket_onOp, get_onOp_self]
    simp only [ops, OrderedMap.get_insert_self, ticket, OrderedMap.get_insert]
    split_ifs
    · simp [newOperation, Operation.ticket, Ticket.new]
    · rfl

def marked (m : Memory) (r : Key) : Memory :=
  (m.onResponse r fun r => { r with held := r.held - 1 }).onResponse r fun r =>
    { r with released := true }

theorem marked_ledger {r : Key} {response : Response} (books : m.Books)
    (found : m.responses.get r = some response) (held : 0 < response.held) :
    Ledger (due (.responseRefs r) 1)
        (m.onResponse r fun r => { r with held := r.held - 1 }) ∧
      Ledger (due (.responseRefs r) 1) (m.marked r) := by
  have returned : Ledger (due (.responseRefs r) 1)
      (m.onResponse r fun r => { r with held := r.held - 1 }) := by
    constructor
    · intro a
      rw [total_onResponse found, books.balance]
      cases a <;> simp [due, Response.net]
      grind
    · apply books.sound.onResponse
      intro r' present ok
      cases present.symm.trans found
      exact { ok with held := by change 0 ≤ response.held - 1; omega }
  exact ⟨returned, onResponse_ledger returned (fun _ a => by cases a <;> rfl) fun _ ok => { ok with }⟩

theorem shuts_marked (r : Key) : m.Shuts (m.marked r) := by
  refine Shuts.trans (shuts_onResponse r ?_) (shuts_onResponse r ?_)
  · exact fun _ => rfl
  · exact fun _ => rfl

theorem drop_calm {r : Key} (ledger : Ledger (due (.responseRefs r) 1) m) :
    (m.responseDrop r).Books ∧ m.Quiet (m.responseDrop r) ∧ (m.responseDrop r).live = m.live ∧
      (m.responseDrop r).ticket = m.ticket :=
  ⟨responseDrop_ledger (ledger.cast fun a => by simp) (plain_zero.owing m), quiet_responseDrop r,
    live_responseDrop r, ticket_of_ops (ops_responseDrop r)⟩

-- No operation comes of a release: the response was released before, or the owner of the
-- response closes or no operation could be made.
theorem releaseResponse_without {sizes : Sizes} {r : Key} {allocated : Bool} {m' : Memory}
    {response : Response} (books : m.Books) (found : m.responses.get r = some response)
    (held : 0 < response.held) (made : m.releaseResponse sizes r allocated = (none, m')) :
    m'.Books ∧ m'.live = m.live ∧ m'.ticket = m.ticket ∧
      if response.released then m.Quiet m' else (m.marked r).Quiet m' := by
  obtain ⟨returned, marks⟩ := marked_ledger books found held
  simp only [releaseResponse, found] at made
  by_cases released : response.released = true
  · simp only [released, if_true, Prod.mk.injEq, true_and] at made ⊢
    subst made
    obtain ⟨books, quiet, live, ticket⟩ := drop_calm returned
    refine ⟨books, live, ticket, Quiet.trans (quiet_onResponse r ?_) quiet⟩
    exact fun _ => ⟨rfl, rfl, le_refl _⟩
  · simp only [released, Bool.false_eq_true, if_false] at made ⊢
    obtain ⟨books, quiet, live, ticket⟩ := drop_calm marks
    split at made
    · cases made
      exact ⟨books, live, ticket, quiet⟩
    · split at made
      · cases made
        exact ⟨books, live, ticket, quiet⟩
      · cases made

theorem releaseResponse_admits {sizes : Sizes} {r k : Key} {allocated : Bool} {m' : Memory}
    {response : Response} (books : m.Books) (found : m.responses.get r = some response)
    (held : 0 < response.held) (made : m.releaseResponse sizes r allocated = (some k, m')) :
    m.Admits m' k (.new .release response.owner (some r)) ∧
      ∃ s, m.insts.get response.owner = some s ∧ s.closing = false := by
  obtain ⟨_, marks⟩ := marked_ledger books found held
  obtain ⟨s, owner⟩ := books.instance_found (k := response.owner) (by
    have pointer := response_pointer found
    omega)
  simp only [releaseResponse, found] at made
  split_ifs at made with released closing
  · cases made
  · cases made
  split at made
  · cases made
  · rename_i key m₁ new
    simp only [Prod.mk.injEq, Option.some.injEq] at made
    obtain ⟨rfl, rfl⟩ := made
    have marks' : Ledger (due (.responseRefs r) 1) ((m.onResponse r fun r =>
        { r with held := r.held - 1 }).onResponse r fun r => { r with released := true }) := marks
    obtain ⟨ledger, quiet, live, address, fresh, ticket⟩ := internalOp_admits marks' owner
      (x := { response with held := response.held - 1, released := true })
      (by simp [onResponse, found]) new
    obtain ⟨books, quiet', live', ticket'⟩ := drop_calm ledger
    refine ⟨⟨books, ((shuts_marked r).trans quiet.shuts).trans quiet'.shuts, live'.trans live,
      address.ge, ?_, ?_⟩, s, owner, by simpa [onResponse, owner] using closing⟩
    · rw [fresh_responseDrop, fresh, address]
      exact Nat.lt_succ_self _
    · intro other
      rw [ticket', ticket]
      rfl

def refsAt (m : Memory) (i : Key) : Int := (m.insts.get i).elim 0 (·.refs)

theorem refsAt_onInst (k i : Key) {f : Instance → Instance} (same : ∀ s, (f s).refs = s.refs) :
    (m.onInst k f).refsAt i = m.refsAt i := by
  simp only [refsAt, onInst, OrderedMap.get_modify]
  split_ifs with here
  · cases found : m.insts.get k with
    | none => simp [here, found]
    | some s => simp [here, found, same]
  · rfl

theorem refsAt_instanceDrop {i : Key} (referred : 0 < m.refsAt i) :
    (m.instanceDrop i).refsAt i = m.refsAt i - 1 := by
  cases found : m.insts.get i with
  | none => simp [refsAt, found] at referred
  | some s =>
    simp only [instanceDrop, found]
    split_ifs with last
    · simp [refsAt, OrderedMap.get_erase, found, last]
    · simp [refsAt, onInst, found]

theorem refsAt_newOp {sizes : Sizes} {kind : Kind} {i k : Key} {allocated : Bool} {m' : Memory}
    (referred : 0 < m.refsAt i) (made : m.newOp sizes kind i allocated = some (k, m')) :
    m'.refsAt i = m.refsAt i + 1 := by
  have added (m : Memory) (referred : 0 < m.refsAt i) (bytes : Int) :
      (m.addOp kind i bytes).2.refsAt i = m.refsAt i + 1 := by
    cases found : m.insts.get i with
    | none => simp [refsAt, found] at referred
    | some s => simp [addOp, refsAt, onInst, found]
  obtain ⟨_, _, made⟩ := newOp_eq_some.mp made
  split_ifs at made
  · obtain ⟨s, _, _, made⟩ := made
    have charged : (m.charged i (.operation m.fresh) sizes.operation).refsAt i = m.refsAt i := by
      rw [charged, refsAt_onInst]
      · rfl
      · exact fun _ => rfl
    have result := added _ (charged ▸ referred) sizes.operation
    rw [made] at result
    exact result.trans (by rw [charged])
  · have result := added m referred 0
    rwa [made] at result

theorem refsAt_chargeInput {k : Key} {bytes : Int} {m' : Memory} (i : Key)
    (made : m.chargeInput k bytes = some m') : m'.refsAt i = m.refsAt i := by
  unfold chargeInput at made
  split at made
  · cases made
  · simp only [Option.map_eq_some_iff] at made
    obtain ⟨paid, charge, rfl⟩ := made
    obtain ⟨s, _, _, rfl⟩ := charge_eq_some.mp charge
    change (m.charged _ _ _).refsAt i = _
    rw [charged, refsAt_onInst]
    · rfl
    · exact fun _ => rfl

theorem refsAt_abandon {k : Key} {o : Operation} (found : m.ops.get k = some o)
    (first : o.response = none) (referred : 0 < m.refsAt o.owner) :
    (m.abandon k).refsAt o.owner = m.refsAt o.owner - 1 := by
  have refund (m : Memory) (bytes : Int) :
      (if bytes ≠ 0 then m.uncharge o.owner (.operation k) bytes else m).refsAt o.owner =
        m.refsAt o.owner := by
    split_ifs
    · rw [uncharge, refsAt_onInst]
      · rfl
      · exact fun _ => rfl
    · rfl
  have counted : ({ ({ m with activeOps := m.activeOps - 1 }.onInst o.owner fun s => { s with
      active := s.active - 1, notifications := s.notifications - 1 }).onOp k fun o =>
        { o with refs := 1 } with ops := (({ m with activeOps := m.activeOps - 1 }.onInst o.owner
          fun s => { s with active := s.active - 1, notifications := s.notifications - 1 }).onOp k
            fun o => { o with refs := 1 }).ops.erase k } : Memory).refsAt o.owner =
      m.refsAt o.owner := by
    change (({ m with activeOps := m.activeOps - 1 } : Memory).onInst o.owner _).refsAt o.owner = _
    rw [refsAt_onInst]
    · rfl
    · exact fun _ => rfl
  simp only [abandon, found]
  rw [opDrop_last (o := { o with refs := 1 }) (by simp [onOp, onInst, found]) rfl]
  simp only [opFree, first, dropResponse?]
  rw [refsAt_instanceDrop, refund, refund, counted]
  rwa [refund, refund, counted]

theorem freed_of_refsAt {i : Key} (books : m.Books) (zero : m.refsAt i = 0) :
    m.insts.get i = none := by
  by_contra present
  obtain ⟨s, found⟩ := Option.ne_none_iff_exists'.mp present
  have positive := (books.sound.insts i s found).refs
  simp only [refsAt, found, Option.elim_some] at zero
  omega

structure Creates (m m' : Memory) (k : Key) (kind : Kind) : Prop where
  books : m'.Books
  fresh : m.fresh < k
  addressed : k < m'.fresh
  live : m'.live = m.fresh :: m.live
  insts : ∀ i s', m'.insts.get i = some s' → i = m.fresh ∧ s'.closing = false ∧ s'.held = 0 ∨
    i ≠ m.fresh ∧ ∃ s, m.insts.get i = some s ∧ s'.closing = s.closing ∧ s'.held ≤ s.held
  responses : ∀ r x', m'.responses.get r = some x' →
    ∃ x, m.responses.get r = some x ∧ x'.owner = x.owner
  ticket : ∀ key, m'.ticket key = if key = k then some (.new kind m.fresh none) else m.ticket key

theorem addInstance_get (server : Bool) (i : Key) :
    (m.addInstance server).insts.get i =
      if i = m.fresh then some (m.newInstance server) else m.insts.get i :=
  OrderedMap.get_insert _ _ _ _

theorem created_insts {server : Bool} {m' : Memory} (quiet : (m.addInstance server).Quiet m')
    (i : Key) (s' : Instance) (found : m'.insts.get i = some s') :
    i = m.fresh ∧ s'.closing = false ∧ s'.held ≤ 0 ∨
      i ≠ m.fresh ∧ ∃ s, m.insts.get i = some s ∧ s'.closing = s.closing ∧ s'.held ≤ s.held := by
  obtain ⟨s, before, same, held⟩ := quiet.insts i s' found
  rw [addInstance_get] at before
  split_ifs at before with new
  · cases before
    exact Or.inl ⟨new, same, held⟩
  · exact Or.inr ⟨new, s, before, same, held⟩

theorem create_rejected_calm {server : Bool} {m' : Memory} (books : m'.Books)
    (quiet : (m.addInstance server).Quiet m') (live : m'.live = m.live)
    (ticket : m'.ticket = m.ticket) (freed : m'.refsAt m.fresh = 0) : m.Calm m' := by
  refine ⟨books, ⟨?_, fun i s' found => ?_, quiet.responses⟩, live, ticket⟩
  · exact (Nat.le_succ m.fresh).trans quiet.fresh
  · rcases created_insts quiet i s' found with ⟨rfl, _⟩ | ⟨_, old⟩
    · have gone := freed_of_refsAt books freed
      simp [gone] at found
    · exact old

theorem create_given_up {server : Bool} {k : Key} {m₂ : Memory} {o : Operation}
    (ledger : Ledger (due (.refs m.fresh) 1) m₂) (quiet : (m.addInstance server).Quiet m₂)
    (live : m₂.live = m.live) (found : m₂.ops.get k = some o) (owner : o.owner = m.fresh)
    (unanswered : o.Unanswered) (blank : o.event.Blank) (first : o.response = none)
    (refs : m₂.refsAt m.fresh = 2)
    (others : ∀ key, m.ticket key = if key = k then none else m₂.ticket key) :
    m.Calm ((m₂.abandon k).instanceDrop m.fresh) := by
  obtain ⟨abandoned, lives, _, ops⟩ := abandon_ops found
  have given := abandon_ledger ledger found unanswered blank (plain_refs m.fresh)
  have left : (m₂.abandon k).refsAt m.fresh = 1 := by
    rw [← owner, refsAt_abandon found first (by rw [owner, refs]; omega), owner, refs]
    rfl
  apply create_rejected_calm
  · exact instanceDrop_ledger (given.cast fun a => by simp) (plain_zero.owing _)
  · exact (quiet.trans abandoned).trans (quiet_instanceDrop _)
  · rw [live_instanceDrop, lives, live]
  · rw [ticket_of_ops (ops_instanceDrop m.fresh)]
    funext key
    rw [others]
    simp only [ticket, ops]
    split_ifs <;> rfl
  · rw [refsAt_instanceDrop (by rw [left]; exact Int.one_pos), left]
    rfl

theorem create_effect {sizes : Sizes} {kind : Kind} {length : Nat}
    {operationAllocated inputAllocated : Bool} (books : m.Books) :
    match m.create sizes kind length operationAllocated inputAllocated with
    | (none, m') => m.Calm m'
    | (some k, m') => m.Creates m' k kind := by
  have single : Ledger (due (.refs m.fresh) 1) (m.addInstance (kind = .startServer)) :=
    (addInstance_ledger books (kind = .startServer)).cast fun a => by simp
  have present : (m.addInstance (kind = .startServer)).insts.get m.fresh =
      some (m.newInstance (kind = .startServer)) := by
    simp [addInstance_get]
  have refs : (m.addInstance (kind = .startServer)).refsAt m.fresh = 1 := by
    simp [refsAt, present, newInstance]
  have tickets : (m.addInstance (kind = .startServer)).ticket = m.ticket := ticket_of_ops rfl
  simp only [create]
  cases new : (m.addInstance (kind = .startServer)).newOp sizes kind m.fresh operationAllocated with
  | none =>
    simp only
    apply create_rejected_calm
    · exact instanceDrop_ledger (single.cast fun a => by simp) (plain_zero.owing _)
    · exact quiet_instanceDrop _
    · exact live_instanceDrop _
    · rw [ticket_of_ops (ops_instanceDrop m.fresh), tickets]
    · rw [refsAt_instanceDrop (by rw [refs]; exact Int.one_pos), refs]
      rfl
  | some result =>
    obtain ⟨k, m₁⟩ := result
    have ledger₁ := newOp_ledger single new present
    obtain ⟨address, fresh₁, live₁, _, quiet₁, bytes, ops₁⟩ := newOp_ops new
    obtain ⟨o, found, unanswered, blank, input, first, made, owner, _⟩ := newOp_get new
    have refs₁ : m₁.refsAt m.fresh = 2 := by
      rw [refsAt_newOp (by rw [refs]; exact Int.one_pos) new, refs]
      rfl
    have later : m.fresh < k := by
      rw [address]
      exact Nat.lt_succ_self _
    have absent : m.ticket k = none := by
      have unused : m.ops.get k = none := by
        by_contra there
        obtain ⟨old, found⟩ := Option.ne_none_iff_exists'.mp there
        exact absurd (books.sound.ops k old found).addressed (not_lt.mpr later.le)
      simp [ticket, unused]
    have others (key : Key) : m.ticket key = if key = k then none else m₁.ticket key := by
      split_ifs with same
      · rw [same, absent]
      · simp only [ticket, ops₁, OrderedMap.get_insert, if_neg same]
        rfl
    simp only
    cases charge : m₁.chargeInput k (length + 1) with
    | none =>
      exact create_given_up ledger₁ quiet₁ live₁ found owner unanswered blank first refs₁ others
    | some m₂ =>
      have ledger₂ := chargeInput_ledger ledger₁ charge found input (by omega)
      obtain ⟨quiet, live₂, ticket₂, found₂, fresh₂⟩ := chargeInput_ops found charge
      have refs₂ := (refsAt_chargeInput m.fresh charge).trans refs₁
      have quiet₂ := quiet₁.trans quiet
      rw [← ticket₂] at others
      simp only
      split_ifs with refused
      · exact create_given_up (o := { o with inputCharge := length + 1 }) ledger₂ quiet₂
          (live₂.trans live₁) found₂ owner ⟨unanswered.1, unanswered.2, unanswered.3⟩ blank first
          refs₂ others
      · have unlinked : m.fresh ∉ m₂.live := by
          rw [live₂, live₁]
          exact fun live => absurd (books.sound.addressed _ live) (lt_irrefl _)
        have addressed : k < m₂.fresh := by
          rw [fresh₂, fresh₁, address]
          exact Nat.lt_succ_self _
        refine ⟨link_ledger (ledger₂.cast fun a => by simp) (later.trans addressed) unlinked, later,
          addressed, ?_, fun i s' present => ?_, fun r x' present => ?_, fun key => ?_⟩
        · exact congrArg _ (live₂.trans live₁)
        · rcases created_insts quiet₂ i s' present with ⟨here, closing, held⟩ | old
          · have nonneg := (ledger₂.sound.insts i s' present).held
            exact Or.inl ⟨here, closing, by omega⟩
          · exact Or.inr old
        · obtain ⟨x, before, owner, _⟩ := quiet₂.responses r x' present
          exact ⟨x, before, owner⟩
        · have known := others key
          change m₂.ticket key = _
          split_ifs at known ⊢ with same
          · rw [same, ticket₂, ticket_of_get found unanswered.finished, made]
          · exact known.symm

theorem releaseInstance_calm {i : Key} {s : Instance} (books : m.Books)
    (found : m.insts.get i = some s) (held : 0 < s.held) : m.Calm (m.releaseInstance i) := by
  refine ⟨releaseInstance_ledger books found held, ?_, live_instanceDrop i, ?_⟩
  · refine Quiet.trans (quiet_onInst i ?_) (quiet_instanceDrop i)
    exact fun s => ⟨rfl, by change s.held - 1 ≤ s.held; omega⟩
  · exact ticket_of_ops (ops_instanceDrop i)

-- The operation is there as long as the notifier has not finished with it.
theorem releaseOperation_calm {k : Key} {o : Operation} (books : m.Books)
    (found : m.ops.get k = some o) (held : 0 < o.held) : m.Calm (m.releaseOperation k) := by
  have refs := books.opRefs found
  refine ⟨releaseOperation_ledger books found held,
    (quiet_onOp _ _).trans (quiet_opDrop k), live_opDrop k, ?_⟩
  have found' : (m.onOp k fun o => { o with held := o.held - 1 }).ops.get k =
      some { o with held := o.held - 1 } := by
    rw [get_onOp_self, found]
    rfl
  have same : (m.onOp k fun o => { o with held := o.held - 1 }).ticket = m.ticket :=
    ticket_onOp_same fun _ => ⟨rfl, rfl⟩
  rw [← same, releaseOperation]
  by_cases last : o.refs = 1
  · have finished : o.finished = true := by
      by_contra unfinished
      simp only [Bool.not_eq_true] at unfinished
      simp only [unfinished, one_true] at refs
      omega
    rw [opDrop_last found' last]
    funext key
    simp only [ticket, ops_opFree, OrderedMap.get_erase]
    split_ifs with here
    · rw [here, found']
      simp [finished]
    · rfl
  · simp only [opDrop, found', if_neg last]
    exact ticket_onOp_same fun _ => ⟨rfl, rfl⟩

theorem cancel_ticket (k key : Key) :
    (m.cancel k).ticket key = if key = k then (m.ticket k).map fun t => { t with cancelled := true }
      else m.ticket key := by
  rw [cancel, ticket_onOp]
  split_ifs
  · simp only [ticket]
    cases m.ops.get k with
    | none => rfl
    | some o => cases h : o.finished <;> simp [h, Operation.ticket]
  · rfl

theorem releaseChunk_effect {k : Key} {c : Chunk} (books : m.Books)
    (found : m.chunks.get k = some c) (held : 0 < c.held) :
    (m.releaseChunk k).Books ∧ m.Shuts (m.releaseChunk k) ∧ (m.releaseChunk k).live = m.live ∧
      (m.releaseChunk k).ticket = m.ticket := by
  refine ⟨releaseChunk_ledger books found held, ?_, ?_, ?_⟩
  · simp only [releaseChunk, found]
    have erased : m.Shuts { m with chunks := m.chunks.erase k } := by
      apply Quiet.shuts
      exact quiet_of_same (le_refl m.fresh) rfl rfl
    refine Shuts.trans (Shuts.trans (Shuts.trans (erased.trans (quiet_uncharge _ _ _).shuts)
      (shuts_onResponse _ ?_)) (quiet_responseDrop _).shuts) (quiet_instanceDrop _).shuts
    exact fun _ => rfl
  · simp only [releaseChunk, found, live_instanceDrop, live_responseDrop]
    rfl
  · apply ticket_of_ops
    simp only [releaseChunk, found, ops_instanceDrop, ops_responseDrop]
    rfl

theorem limits_calm (books : m.Books) (k : Key) (capacity budget responses : Int) :
    m.Calm (m.limits k capacity budget responses) :=
  ⟨limits_ledger books k capacity budget responses, quiet_onInst k fun _ => ⟨rfl, le_refl _⟩, rfl,
    rfl⟩

theorem setHeader_calm (books : m.Books) (r : Key) (bytes : Nat) (copied : Bool) :
    m.Calm (m.setHeader r bytes copied).2 := by
  have ledger := setHeader_ledger books r bytes copied
  revert ledger
  unfold setHeader
  split
  · exact fun ledger => ⟨ledger, Quiet.refl m, rfl, rfl⟩
  · split
    · exact fun ledger => ⟨ledger, Quiet.refl m, rfl, rfl⟩
    · rename_i charge
      obtain ⟨s, _, _, rfl⟩ := charge_eq_some.mp charge
      intro ledger
      refine ⟨ledger, Quiet.trans (quiet_charged _ _ _) (quiet_onResponse _ ?_), rfl, rfl⟩
      exact fun _ => ⟨rfl, rfl, le_refl _⟩

theorem makeResponse_effect {sizes : Sizes} {k : Key} {count : Nat} {allocated : Bool}
    {o : Operation} {m' : Memory} (books : m.Books) (found : m.ops.get k = some o)
    (unanswered : o.Unanswered) (blank : o.event.response = none)
    (made : m.makeResponse sizes k count allocated = some m') :
    m'.Books ∧ m'.live = m.live ∧
      (∀ i s', m'.insts.get i = some s' →
        ∃ s, m.insts.get i = some s ∧ s'.closing = s.closing ∧ s'.held ≤ s.held) ∧
      (∀ r x', m'.responses.get r = some x' → r = m.fresh ∧ x'.owner = o.owner ∨
        ∃ x, m.responses.get r = some x ∧ x'.owner = x.owner ∧ x'.released = x.released ∧
          x.chunks ≤ x'.chunks) ∧
      ∀ key, m'.ticket key = if key = k then some { o.ticket with
        event := { o.event with response := some m.fresh, kind := .handled } } else m.ticket key := by
  refine ⟨makeResponse_ledger books made found unanswered.delivered blank, ?_⟩
  simp only [makeResponse, found] at made
  split at made
  · cases made
  · split_ifs at made
    split at made
    · cases made
    · rename_i paid charge
      obtain ⟨s, owner, room, rfl⟩ := charge_eq_some.mp charge
      simp only [Option.some.injEq] at made
      subst made
      refine ⟨rfl, fun i s' present => ?_, fun r x' present => ?_, fun key => ?_⟩
      · refine (Quiet.trans (quiet_charged o.owner (.response m.fresh) _)
          (quiet_onInst o.owner ?_)).insts i s' present
        exact fun _ => ⟨rfl, le_refl _⟩
      · change (OrderedMap.insert _ _ _).get r = some x' at present
        rw [OrderedMap.get_insert] at present
        split_ifs at present with new
        · cases present
          exact Or.inl ⟨new, rfl⟩
        · exact Or.inr ⟨x', present, rfl, rfl, le_refl _⟩
      · rw [ticket_onOp]
        change (if key = k then (m.ops.get k).bind _ else m.ticket key) = _
        rw [found]
        simp [unanswered.finished, Operation.ticket]

theorem addChunk_effect {k r : Key} {length : Nat} {allocated : Bool} {o : Operation}
    {m' : Memory} (books : m.Books) (found : m.ops.get k = some o)
    (unanswered : o.Unanswered) (response : o.response = some r) (blank : o.event.chunk = none)
    (made : m.addChunk k length allocated = some m') :
    m'.Books ∧ m'.live = m.live ∧ m.Quiet m' ∧
      ∀ key, m'.ticket key = if key = k then some { o.ticket with
        event := { o.event with chunk := some m.fresh, kind := .chunk } } else m.ticket key := by
  refine ⟨addChunk_ledger books made found response unanswered.delivered blank, ?_⟩
  simp only [addChunk, found, response] at made
  split_ifs at made
  split at made
  · cases made
  · rename_i paid charge
    obtain ⟨s, owner, room, rfl⟩ := charge_eq_some.mp charge
    simp only [Option.some.injEq] at made
    subst made
    refine ⟨rfl, ?_, fun key => ?_⟩
    · refine Quiet.trans ?_ (quiet_onOp k _)
      refine Quiet.trans ?_ (quiet_onResponse r ?_)
      · refine Quiet.trans ?_ (quiet_onInst o.owner ?_)
        · refine Quiet.trans (quiet_charged o.owner (.chunk m.fresh) length) (quiet_of_same ?_ ?_ ?_)
          · exact Nat.le_succ m.fresh
          · rfl
          · rfl
        · exact fun _ => ⟨rfl, le_refl _⟩
      · exact fun x => ⟨rfl, rfl, by change x.chunks ≤ x.chunks + 1; omega⟩
    · rw [ticket_onOp]
      change (if key = k then (m.ops.get k).bind _ else m.ticket key) = _
      rw [found]
      simp [unanswered.finished, Operation.ticket]

theorem deliver_effect {k : Key} {o : Operation} (books : m.Books) (found : m.ops.get k = some o)
    (done : o.done = true) (undelivered : o.delivered = false) (unfinished : o.finished = false) :
    (m.deliver k).Books ∧ (m.deliver k).live = m.live ∧ m.fresh ≤ (m.deliver k).fresh ∧
      (∀ i s', (m.deliver k).insts.get i = some s' → ∃ s, m.insts.get i = some s ∧
        s'.closing = s.closing ∧ (o.event.handle ≠ some i → s'.held ≤ s.held)) ∧
      (∀ r x', (m.deliver k).responses.get r = some x' → ∃ x, m.responses.get r = some x ∧
        x'.owner = x.owner ∧ x'.released = x.released ∧ x.chunks ≤ x'.chunks) ∧
      ∀ key, (m.deliver k).ticket key =
        if key = k then some { o.ticket with delivered := true } else m.ticket key := by
  refine ⟨deliver_ledger books found done undelivered, ?_⟩
  obtain ⟨live, fresh, insts, responses, ops⟩ : (m.deliver k).live = m.live ∧
      (m.deliver k).fresh = m.fresh ∧
      (m.deliver k).insts = (m.giveInstance? o.event.handle).insts ∧
      (m.deliver k).responses = (m.giveResponse? o.event.response).responses ∧
      (m.deliver k).ops = (m.onOp k fun o => { o with delivered := true }).ops := by
    simp only [deliver, found]
    cases o.event.handle <;> cases o.event.response <;> cases o.event.chunk <;>
      exact ⟨rfl, rfl, rfl, rfl, rfl⟩
  refine ⟨live, fresh.ge, fun i s' present => ?_, fun r x' present => ?_, fun key => ?_⟩
  · rw [insts] at present
    cases handle : o.event.handle with
    | none =>
      rw [handle] at present
      exact ⟨s', present, rfl, fun _ => le_refl _⟩
    | some key =>
      rw [handle] at present
      change (m.insts.modify key _).get i = some s' at present
      rw [OrderedMap.get_modify] at present
      split_ifs at present with same
      · obtain ⟨s, before, rfl⟩ := Option.map_eq_some_iff.mp present
        exact ⟨s, same ▸ before, rfl, fun other => absurd (congrArg some same.symm) other⟩
      · exact ⟨s', present, rfl, fun _ => le_refl _⟩
  · rw [responses] at present
    have quiet : m.Quiet (m.giveResponse? o.event.response) := by
      cases o.event.response with
      | none => exact Quiet.refl m
      | some r => exact quiet_onResponse r fun _ => ⟨rfl, rfl, le_refl _⟩
    exact quiet.responses r x' present
  · rw [ticket_of_ops ops, ticket_onOp, found]
    simp [unfinished, Operation.ticket]

theorem finish_effect {k : Key} {o : Operation} (books : m.Books) (found : m.ops.get k = some o)
    (delivered : o.delivered = true) (unfinished : o.finished = false) :
    (m.finish k).Books ∧ m.Quiet (m.finish k) ∧ (m.finish k).live = m.live ∧
      ∀ key, (m.finish k).ticket key = if key = k then none else m.ticket key := by
  refine ⟨finish_ledger books found delivered unfinished, ?_⟩
  simp only [finish, found]
  refine ⟨?_, live_opDrop k, fun key => ?_⟩
  · have fewer : m.Quiet { m with activeOps := m.activeOps - 1 } := quiet_of_same (le_refl _) rfl rfl
    refine ((fewer.trans (quiet_onInst _ ?_)).trans (quiet_onOp _ _)).trans (quiet_opDrop _)
    exact fun _ => ⟨rfl, le_refl _⟩
  · have found' : ((({ m with activeOps := m.activeOps - 1 } : Memory).onInst o.owner fun s => { s with
        notifications := s.notifications - 1 }).onOp k fun o => { o with finished := true }).ops.get k =
        some { o with finished := true } := by
      simp [onOp, onInst, found]
    by_cases last : o.refs = 1
    · rw [opDrop_last found' last]
      simp only [ticket, ops_opFree, OrderedMap.get_erase]
      split_ifs with here
      · rfl
      · rw [get_onOp, if_neg here]
        rfl
    · simp only [opDrop, found', if_neg last]
      rw [ticket_onOp, found']
      split_ifs with here
      · rfl
      · rw [ticket_onOp, if_neg here]
        rfl

theorem complete_eq {k : Key} {code : Code} {kind : Option ResultKind} {o : Operation}
    (found : m.ops.get k = some o) (undone : o.done = false) : m.complete k code kind =
      (((((m.onOp k (answer code kind)).resetResponse k code o).settleInstance k code o).endRead
        o).onInst o.owner fun s => { s with active := s.active - 1 }) := by
  simp only [complete, found, undone, Bool.false_eq_true, if_false]

theorem complete_shuts {k : Key} {code : Code} {kind : Option ResultKind} {o : Operation}
    (found : m.ops.get k = some o) (undone : o.done = false) :
    m.Shuts (m.complete k code kind) := by
  rw [complete_eq found undone]
  refine Shuts.trans ?_ (quiet_onInst _ ?_).shuts
  · refine Shuts.trans ?_ (quiet_endRead o).shuts
    exact ((quiet_onOp _ _).trans (quiet_resetResponse _ _ _)).shuts.trans (shuts_settleInstance _ _ _)
  · exact fun _ => ⟨rfl, le_refl _⟩

theorem complete_live {k : Key} {code : Code} {kind : Option ResultKind} {o : Operation}
    (found : m.ops.get k = some o) (undone : o.done = false) :
    (m.complete k code kind).live =
      if retires o code then m.live.erase o.owner else m.live := by
  rw [complete_eq found undone]
  change (endRead _ o).live = _
  rw [live_endRead, live_settleInstance, live_resetResponse]
  rfl

theorem complete_ticket {k : Key} {code : Code} {kind : Option ResultKind} {o : Operation}
    (found : m.ops.get k = some o) (undone : o.done = false) (unfinished : o.finished = false)
    (key : Key) : (m.complete k code kind).ticket key =
      if key = k then some (o.ticket.answered code kind) else m.ticket key := by
  rw [complete_eq found undone]
  change (endRead _ o).ticket key = _
  rw [ticket_of_ops (ops_endRead o)]
  have reset (key : Key) : (m.onOp k (answer code kind) |>.resetResponse k code o).ops.get key =
      if key = k then some { answer code kind o with event := { (answer code kind o).event with
        response := if code = .ok then o.event.response else none } }
      else m.ops.get key := by
    rw [ops_resetResponse]
    split_ifs with failed same same <;> simp_all [get_onOp, answer]
  have settled (key : Key) : (((m.onOp k (answer code kind)).resetResponse k code o).settleInstance k
      code o).ops.get key = if key = k then some { answer code kind o with
        event := { (answer code kind o).event with
          handle := if o.kind.creates ∧ code = .ok then some o.owner else o.event.handle
          response := if code = .ok then o.event.response else none } }
      else m.ops.get key := by
    rw [ops_settleInstance]
    by_cases creates : o.kind.creates = true ∧ code = .ok
    · rw [if_pos creates, get_onOp, reset, reset]
      by_cases here : key = k
      · simp [here, creates, answer]
      · simp [here]
    · rw [if_neg creates, reset]
      simp only [if_neg creates]
      rfl
  rw [ticket, settled]
  by_cases here : key = k
  · rw [if_pos here, if_pos here]
    by_cases creates : o.kind.creates = true <;> by_cases good : code = .ok <;>
      simp [creates, good, answer, unfinished, Operation.ticket, Ticket.answered]
  · rw [if_neg here, if_neg here]
    rfl

theorem complete_closing {k : Key} {code : Code} {kind : Option ResultKind} {o : Operation}
    (found : m.ops.get k = some o) (undone : o.done = false) (creates : o.kind.creates = true)
    (failed : code ≠ .ok) (s' : Instance)
    (present : (m.complete k code kind).insts.get o.owner = some s') : s'.closing = true := by
  rw [complete_eq found undone] at present
  have settled : ((m.onOp k (answer code kind)).resetResponse k code o).settleInstance k code o =
      (((m.onOp k (answer code kind)).resetResponse k code o).onInst o.owner fun s =>
        { s with closing := true, closed := true }).retire o.owner := by
    simp [settleInstance, creates, failed]
  have quiet : ((((m.onOp k (answer code kind)).resetResponse k code o).onInst o.owner fun s =>
      { s with closing := true, closed := true })).Quiet
      (((((m.onOp k (answer code kind)).resetResponse k code o).settleInstance k code o).endRead
        o).onInst o.owner fun s => { s with active := s.active - 1 }) := by
    rw [settled]
    refine Quiet.trans ((quiet_retire _).trans (quiet_endRead o)) (quiet_onInst _ ?_)
    exact fun _ => ⟨rfl, le_refl _⟩
  obtain ⟨s, before, same, _⟩ := quiet.insts o.owner s' present
  rw [onInst, OrderedMap.get_modify_self] at before
  obtain ⟨_, _, rfl⟩ := Option.map_eq_some_iff.mp before
  exact same

theorem retireAll_effect (keys : List Key) : m.Shuts (m.retireAll keys) ∧
    (m.retireAll keys).ticket = m.ticket ∧ (m.live = keys → (m.retireAll keys).live = []) := by
  induction keys generalizing m with
  | nil => exact ⟨(Quiet.refl m).shuts, rfl, id⟩
  | cons k rest ih =>
    obtain ⟨shuts, ticket, live⟩ := ih (m := (m.onInst k fun s =>
      { s with closed := true, closing := true }).retire k)
    refine ⟨?_, ?_, fun lives => live ?_⟩
    · refine Shuts.trans (Shuts.trans (shuts_onInst k ?_) (quiet_retire k).shuts) shuts
      exact fun _ => ⟨fun _ => rfl, le_refl _⟩
    · exact ticket.trans (ticket_of_ops (ops_retire k))
    · rw [live_retire]
      simp [onInst, lives]

end Memory

end HttpServer.CAbi
