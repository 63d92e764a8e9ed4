import HttpServer.CAbi.Memory
import Mathlib.Tactic.SplitIfs

set_option autoImplicit false

namespace HttpServer.CAbi

namespace Memory

variable {m : Memory}

def RoomFor (m : Memory) (s : Instance) (bytes : Int) : Prop :=
  bytes ≤ s.budget ∧ s.charged ≤ s.budget - bytes ∧ bytes ≤ cap ∧ m.retained ≤ cap - bytes

instance (m : Memory) (s : Instance) (bytes : Int) : Decidable (m.RoomFor s bytes) :=
  inferInstanceAs (Decidable (_ ∧ _ ∧ _ ∧ _))

def charged (m : Memory) (k : Key) (holder : Holder) (bytes : Int) : Memory :=
  { m with
    retained := m.retained + bytes
    charges := (holder, bytes) :: m.charges }.onInst k fun s =>
      { s with charged := s.charged + bytes }

theorem charge_eq_some {k : Key} {holder : Holder} {bytes : Int} {m' : Memory} :
    m.charge k holder bytes = some m' ↔
      ∃ s, m.insts.get k = some s ∧ m.RoomFor s bytes ∧ m.charged k holder bytes = m' := by
  unfold charge
  cases found : m.insts.get k with
  | none => simp
  | some s =>
    simp only [Option.ite_none_left_eq_some, not_or, Option.some.injEq, not_lt, gt_iff_lt,
      exists_eq_left', RoomFor, charged]

@[simp] theorem fresh_charged (k : Key) (holder : Holder) (bytes : Int) :
    (m.charged k holder bytes).fresh = m.fresh := rfl

@[simp] theorem ops_charged (k : Key) (holder : Holder) (bytes : Int) :
    (m.charged k holder bytes).ops = m.ops := rfl

@[simp] theorem ops_onInst (k : Key) (f : Instance → Instance) : (m.onInst k f).ops = m.ops := rfl

theorem get_onOp (k key : Key) (f : Operation → Operation) :
    (m.onOp k f).ops.get key = if key = k then (m.ops.get k).map f else m.ops.get key :=
  OrderedMap.get_modify m.ops k key f

@[simp] theorem get_onOp_self (k : Key) (f : Operation → Operation) :
    (m.onOp k f).ops.get k = (m.ops.get k).map f :=
  OrderedMap.get_modify_self m.ops k f

@[simp] theorem ops_onResponse (k : Key) (f : Response → Response) :
    (m.onResponse k f).ops = m.ops := rfl

@[simp] theorem ops_onChunk (k : Key) (f : Chunk → Chunk) : (m.onChunk k f).ops = m.ops := rfl

@[simp] theorem ops_uncharge (k : Key) (holder : Holder) (bytes : Int) :
    (m.uncharge k holder bytes).ops = m.ops := rfl

@[simp] theorem ops_instanceDrop (k : Key) : (m.instanceDrop k).ops = m.ops := by
  unfold instanceDrop
  split
  · rfl
  · split_ifs <;> rfl

@[simp] theorem ops_responseDrop (k : Key) : (m.responseDrop k).ops = m.ops := by
  unfold responseDrop
  split
  · rfl
  · split_ifs
    · simp
    · rfl

@[simp] theorem ops_dropResponse (response : Option Key) :
    (m.dropResponse? response).ops = m.ops := by
  cases response with
  | none => rfl
  | some r => exact ops_responseDrop r

theorem ops_opFree (k : Key) (o : Operation) : (m.opFree k o).ops = m.ops.erase k := by
  simp only [opFree, ops_instanceDrop, ops_dropResponse]
  split_ifs <;> rfl

@[simp] theorem ops_retire (k : Key) : (m.retire k).ops = m.ops := by
  simp [retire, unlinkInstance]

@[simp] theorem ops_endRead (o : Operation) : (m.endRead o).ops = m.ops := by
  unfold endRead
  split
  · split_ifs <;> rfl
  · rfl

theorem ops_resetResponse (k : Key) (code : Code) (o : Operation) :
    (m.resetResponse k code o).ops =
      if code ≠ .ok ∧ o.event.response.isSome then
        (m.onOp k fun o => { o with event := { o.event with response := none } }).ops
      else m.ops := by
  unfold resetResponse
  split_ifs
  · exact ops_dropResponse _
  · rfl

theorem ops_settleInstance (k : Key) (code : Code) (o : Operation) :
    (m.settleInstance k code o).ops =
      if o.kind.creates ∧ code = .ok then
        (m.onOp k fun op => { op with event := { op.event with handle := some op.owner } }).ops
      else m.ops := by
  unfold settleInstance
  split_ifs <;> simp_all [onOp]

@[simp] theorem live_instanceDrop (k : Key) : (m.instanceDrop k).live = m.live := by
  unfold instanceDrop
  split
  · rfl
  · split_ifs <;> rfl

@[simp] theorem fresh_instanceDrop (k : Key) : (m.instanceDrop k).fresh = m.fresh := by
  unfold instanceDrop
  split
  · rfl
  · split_ifs <;> rfl

@[simp] theorem live_responseDrop (k : Key) : (m.responseDrop k).live = m.live := by
  unfold responseDrop
  split
  · rfl
  · split_ifs
    · simp [uncharge, onInst]
    · rfl

@[simp] theorem fresh_responseDrop (k : Key) : (m.responseDrop k).fresh = m.fresh := by
  unfold responseDrop
  split
  · rfl
  · split_ifs
    · simp [uncharge, onInst]
    · rfl

@[simp] theorem live_dropResponse (response : Option Key) :
    (m.dropResponse? response).live = m.live := by
  cases response with
  | none => rfl
  | some r => exact live_responseDrop r

@[simp] theorem fresh_dropResponse (response : Option Key) :
    (m.dropResponse? response).fresh = m.fresh := by
  cases response with
  | none => rfl
  | some r => exact fresh_responseDrop r

@[simp] theorem live_opFree (k : Key) (o : Operation) : (m.opFree k o).live = m.live := by
  simp only [opFree, live_instanceDrop, live_dropResponse]
  split_ifs <;> rfl

@[simp] theorem fresh_opFree (k : Key) (o : Operation) : (m.opFree k o).fresh = m.fresh := by
  simp only [opFree, fresh_instanceDrop, fresh_dropResponse]
  split_ifs <;> rfl

@[simp] theorem live_opDrop (k : Key) : (m.opDrop k).live = m.live := by
  unfold opDrop
  split
  · rfl
  · split_ifs
    · exact live_opFree _ _
    · rfl

@[simp] theorem live_resetResponse (k : Key) (code : Code) (o : Operation) :
    (m.resetResponse k code o).live = m.live := by
  unfold resetResponse
  split_ifs
  · simp [onOp]
  · rfl

/-- What a function without a wake-up may change: closing flags, releases and owners stay, chunks
may be added, and the host gets no instance. -/
structure Quiet (m m' : Memory) : Prop where
  fresh : m.fresh ≤ m'.fresh
  insts : ∀ i s', m'.insts.get i = some s' →
    ∃ s, m.insts.get i = some s ∧ s'.closing = s.closing ∧ s'.held ≤ s.held
  responses : ∀ r x', m'.responses.get r = some x' → ∃ x, m.responses.get r = some x ∧
    x'.owner = x.owner ∧ x'.released = x.released ∧ x.chunks ≤ x'.chunks

/-- Instances may be closed, responses released and chunks returned as well. -/
structure Shuts (m m' : Memory) : Prop where
  fresh : m.fresh ≤ m'.fresh
  insts : ∀ i s', m'.insts.get i = some s' →
    ∃ s, m.insts.get i = some s ∧ (s.closing = true → s'.closing = true) ∧ s'.held ≤ s.held
  responses : ∀ r x', m'.responses.get r = some x' →
    ∃ x, m.responses.get r = some x ∧ x'.owner = x.owner

theorem Quiet.shuts {m m' : Memory} (quiet : m.Quiet m') : m.Shuts m' := by
  refine ⟨quiet.fresh, fun i s' found => ?_, fun r x' found => ?_⟩
  · obtain ⟨s, before, same, held⟩ := quiet.insts i s' found
    exact ⟨s, before, fun closing => same.trans closing, held⟩
  · obtain ⟨x, before, owner, _⟩ := quiet.responses r x' found
    exact ⟨x, before, owner⟩

theorem Quiet.refl (m : Memory) : m.Quiet m where
  fresh := le_refl _
  insts _ s found := ⟨s, found, rfl, le_refl _⟩
  responses _ x found := ⟨x, found, rfl, rfl, le_refl _⟩

theorem Quiet.trans {m m' m'' : Memory} (first : m.Quiet m') (second : m'.Quiet m'') :
    m.Quiet m'' := by
  refine ⟨first.fresh.trans second.fresh, fun i s'' found => ?_, fun r x'' found => ?_⟩
  · obtain ⟨s', found', same', held'⟩ := second.insts i s'' found
    obtain ⟨s, found, same, held⟩ := first.insts i s' found'
    exact ⟨s, found, same'.trans same, held'.trans held⟩
  · obtain ⟨x', found', owner', same', more'⟩ := second.responses r x'' found
    obtain ⟨x, found, owner, same, more⟩ := first.responses r x' found'
    exact ⟨x, found, owner'.trans owner, same'.trans same, more.trans more'⟩

theorem Shuts.trans {m m' m'' : Memory} (first : m.Shuts m') (second : m'.Shuts m'') :
    m.Shuts m'' := by
  refine ⟨first.fresh.trans second.fresh, fun i s'' found => ?_, fun r x'' found => ?_⟩
  · obtain ⟨s', found', closing', held'⟩ := second.insts i s'' found
    obtain ⟨s, found, closing, held⟩ := first.insts i s' found'
    exact ⟨s, found, fun shut => closing' (closing shut), held'.trans held⟩
  · obtain ⟨x', found', owner'⟩ := second.responses r x'' found
    obtain ⟨x, found, owner⟩ := first.responses r x' found'
    exact ⟨x, found, owner'.trans owner⟩

theorem quiet_of_same {m m' : Memory} (fresh : m.fresh ≤ m'.fresh) (insts : m'.insts = m.insts)
    (responses : m'.responses = m.responses) : m.Quiet m' where
  fresh := fresh
  insts _ s found := ⟨s, insts ▸ found, rfl, le_refl _⟩
  responses _ x found := ⟨x, responses ▸ found, rfl, rfl, le_refl _⟩

theorem shuts_onInst (k : Key) {f : Instance → Instance}
    (same : ∀ s, (s.closing = true → (f s).closing = true) ∧ (f s).held ≤ s.held) :
    m.Shuts (m.onInst k f) := by
  refine ⟨le_refl _, fun i s' found => ?_, (Quiet.refl m).shuts.responses⟩
  rw [onInst, OrderedMap.get_modify] at found
  split_ifs at found with here
  · obtain ⟨s, present, rfl⟩ := Option.map_eq_some_iff.mp found
    exact ⟨s, here ▸ present, same s⟩
  · exact ⟨s', found, id, le_refl _⟩

theorem quiet_onInst (k : Key) {f : Instance → Instance}
    (same : ∀ s, (f s).closing = s.closing ∧ (f s).held ≤ s.held) : m.Quiet (m.onInst k f) := by
  refine ⟨le_refl _, fun i s' found => ?_, (Quiet.refl m).responses⟩
  rw [onInst, OrderedMap.get_modify] at found
  split_ifs at found with here
  · obtain ⟨s, present, rfl⟩ := Option.map_eq_some_iff.mp found
    exact ⟨s, here ▸ present, same s⟩
  · exact ⟨s', found, rfl, le_refl _⟩

theorem quiet_onOp (k : Key) (f : Operation → Operation) : m.Quiet (m.onOp k f) :=
  quiet_of_same (le_refl _) rfl rfl

theorem shuts_onResponse (k : Key) {f : Response → Response} (same : ∀ r, (f r).owner = r.owner) :
    m.Shuts (m.onResponse k f) := by
  refine ⟨le_refl _, (Quiet.refl m).shuts.insts, fun r x' found => ?_⟩
  rw [onResponse, OrderedMap.get_modify] at found
  split_ifs at found with here
  · obtain ⟨x, present, rfl⟩ := Option.map_eq_some_iff.mp found
    exact ⟨x, here ▸ present, same x⟩
  · exact ⟨x', found, rfl⟩

theorem quiet_onResponse (k : Key) {f : Response → Response}
    (same : ∀ r, (f r).owner = r.owner ∧ (f r).released = r.released ∧ r.chunks ≤ (f r).chunks) :
    m.Quiet (m.onResponse k f) := by
  refine ⟨le_refl _, (Quiet.refl m).insts, fun r x' found => ?_⟩
  rw [onResponse, OrderedMap.get_modify] at found
  split_ifs at found with here
  · obtain ⟨x, present, rfl⟩ := Option.map_eq_some_iff.mp found
    exact ⟨x, here ▸ present, same x⟩
  · exact ⟨x', found, rfl, rfl, le_refl _⟩

theorem quiet_charged (k : Key) (holder : Holder) (bytes : Int) :
    m.Quiet (m.charged k holder bytes) := by
  refine Quiet.trans (quiet_of_same ?_ ?_ ?_) (quiet_onInst k ?_)
  · exact le_refl m.fresh
  · rfl
  · rfl
  · exact fun _ => ⟨rfl, le_refl _⟩

theorem quiet_uncharge (k : Key) (holder : Holder) (bytes : Int) :
    m.Quiet (m.uncharge k holder bytes) := by
  refine Quiet.trans (quiet_of_same ?_ ?_ ?_) (quiet_onInst k ?_)
  · exact le_refl m.fresh
  · rfl
  · rfl
  · exact fun _ => ⟨rfl, le_refl _⟩

theorem quiet_instanceDrop (k : Key) : m.Quiet (m.instanceDrop k) := by
  unfold instanceDrop
  split
  · exact Quiet.refl m
  · split_ifs
    · refine ⟨le_refl _, fun i s' found => ?_, (Quiet.refl m).responses⟩
      rw [OrderedMap.get_erase] at found
      split_ifs at found
      exact ⟨s', found, rfl, le_refl _⟩
    · exact quiet_onInst k fun _ => ⟨rfl, le_refl _⟩

theorem quiet_responseDrop (k : Key) : m.Quiet (m.responseDrop k) := by
  unfold responseDrop
  split
  · exact Quiet.refl m
  · split_ifs
    · have erased : m.Quiet { m with responses := m.responses.erase k } := by
        refine ⟨le_refl _, (Quiet.refl m).insts, fun r x' found => ?_⟩
        rw [OrderedMap.get_erase] at found
        split_ifs at found
        exact ⟨x', found, rfl, rfl, le_refl _⟩
      refine Quiet.trans (Quiet.trans (erased.trans (quiet_uncharge _ _ _)) (quiet_onInst _ ?_))
        (quiet_instanceDrop _)
      exact fun _ => ⟨rfl, le_refl _⟩
    · exact quiet_onResponse k fun _ => ⟨rfl, rfl, le_refl _⟩

theorem quiet_dropResponse (response : Option Key) : m.Quiet (m.dropResponse? response) := by
  cases response with
  | none => exact Quiet.refl m
  | some r => exact quiet_responseDrop r

theorem quiet_opFree (k : Key) (o : Operation) : m.Quiet (m.opFree k o) := by
  have erased : m.Quiet { m with ops := m.ops.erase k } := quiet_of_same (le_refl _) rfl rfl
  have refund (m : Memory) (bytes : Int) : m.Quiet
      (if bytes ≠ 0 then m.uncharge o.owner (.operation k) bytes else m) := by
    split_ifs
    · exact quiet_uncharge _ _ _
    · exact Quiet.refl m
  exact (((erased.trans (refund _ _)).trans (refund _ _)).trans (quiet_dropResponse _)).trans
    (quiet_instanceDrop _)

theorem quiet_opDrop (k : Key) : m.Quiet (m.opDrop k) := by
  unfold opDrop
  split
  · exact Quiet.refl m
  · split_ifs
    · exact quiet_opFree _ _
    · exact quiet_onOp _ _

theorem quiet_addOp (kind : Kind) (k : Key) (bytes : Int) :
    m.Quiet (m.addOp kind k bytes).2 := by
  refine Quiet.trans (quiet_of_same ?_ ?_ ?_) (quiet_onInst k ?_)
  · exact Nat.le_succ m.fresh
  · rfl
  · rfl
  · exact fun _ => ⟨rfl, le_refl _⟩

theorem newOp_eq_some {sizes : Sizes} {kind : Kind} {k : Key} {allocated : Bool}
    {result : Key × Memory} : m.newOp sizes kind k allocated = some result ↔
      m.nextId ≠ intMax ∧ allocated = true ∧
        if kind.business then ∃ s, m.insts.get k = some s ∧ m.RoomFor s sizes.operation ∧
          (m.charged k (.operation m.fresh) sizes.operation).addOp kind k sizes.operation = result
        else m.addOp kind k 0 = result := by
  unfold newOp
  simp only [Option.ite_none_left_eq_some, Bool.not_eq_true']
  cases allocated with
  | false => simp
  | true =>
    split_ifs with business
    · cases charge : m.charge k (.operation m.fresh) sizes.operation with
      | none =>
        have refused (s : Instance) (found : m.insts.get k = some s) :
            ¬m.RoomFor s sizes.operation := fun room => by
          have made : m.charge k (.operation m.fresh) sizes.operation = _ :=
            charge_eq_some.mpr ⟨s, found, room, rfl⟩
          simp [charge] at made
        simp only [reduceCtorEq, false_iff, not_and, not_exists, and_false]
        intro _ _ s found room
        exact absurd room (refused s found)
      | some paid =>
        obtain ⟨s, found, room, rfl⟩ := charge_eq_some.mp charge
        simp [found, room]
    · simp

theorem quiet_retire (k : Key) : m.Quiet (m.retire k) := by
  refine Quiet.trans (quiet_of_same ?_ ?_ ?_) (quiet_instanceDrop k)
  · exact le_refl m.fresh
  · rfl
  · rfl

@[simp] theorem live_retire (k : Key) : (m.retire k).live = m.live.erase k :=
  live_instanceDrop k

theorem quiet_resetResponse (k : Key) (code : Code) (o : Operation) :
    m.Quiet (m.resetResponse k code o) := by
  unfold resetResponse
  split_ifs
  · exact (quiet_onOp _ _).trans (quiet_dropResponse _)
  · exact Quiet.refl m

theorem shuts_settleInstance (k : Key) (code : Code) (o : Operation) :
    m.Shuts (m.settleInstance k code o) := by
  unfold settleInstance
  split_ifs
  · refine (Quiet.trans (quiet_onInst _ ?_) (quiet_onOp _ _)).shuts
    exact fun _ => ⟨rfl, le_refl _⟩
  · refine Shuts.trans (shuts_onInst _ ?_) (quiet_retire _).shuts
    exact fun _ => ⟨fun _ => rfl, le_refl _⟩
  · refine Shuts.trans (shuts_onInst _ ?_) (quiet_retire _).shuts
    exact fun _ => ⟨id, le_refl _⟩
  · exact (Quiet.refl m).shuts

-- A completion that takes its instance out of the live ones.
def retires (o : Operation) (code : Code) : Bool :=
  (o.kind.creates && code ≠ .ok) || o.kind.closes

theorem live_settleInstance (k : Key) (code : Code) (o : Operation) :
    (m.settleInstance k code o).live =
      if retires o code then m.live.erase o.owner else m.live := by
  unfold settleInstance retires
  cases o.kind <;> by_cases success : code = .ok <;>
    simp [Kind.creates, Kind.closes, success] <;> rfl

theorem quiet_endRead (o : Operation) : m.Quiet (m.endRead o) := by
  unfold endRead
  split
  · split_ifs
    · exact quiet_onResponse _ fun _ => ⟨rfl, rfl, le_refl _⟩
    · exact Quiet.refl m
  · exact Quiet.refl m

@[simp] theorem live_endRead (o : Operation) : (m.endRead o).live = m.live := by
  unfold endRead
  split
  · split_ifs <;> rfl
  · rfl

end Memory

end HttpServer.CAbi
