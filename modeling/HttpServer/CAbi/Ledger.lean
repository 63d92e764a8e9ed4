import HttpServer.CAbi.Accounts
import HttpServer.CAbi.Frames

set_option autoImplicit false

namespace HttpServer.CAbi

/-- What `complete` may still find in the operation once it is done. -/
structure Operation.Settling (o old : Operation) : Prop where
  owner : o.owner = old.owner
  delivered : o.delivered = false
  done : o.done = true
  handle : o.event.handle = none

namespace Memory

variable {d : Account → Int} {m : Memory}

theorem charge_ledger (ledger : Ledger d m) {k : Key} {bytes : Int} {s : Instance}
    (holder : Holder) (found : m.insts.get k = some s) (room : m.RoomFor s bytes) :
    Ledger (fun a => d a + due .retained bytes a + due (.dues holder) bytes a +
      due (.charged k) bytes a) (m.charged k holder bytes) := by
  constructor
  · intro a
    rw [charged, total_onInst (s := s), total_rebase (m := m), ledger.balance]
    · cases a <;> simp [base, due, Instance.net, bytesFor_cons] <;> grind
    · exact ⟨rfl, rfl, rfl, rfl⟩
    · exact found
  · apply Sound.onInst
    · obtain ⟨_, _, _, fits⟩ := room
      exact { ledger.sound with cap := by change m.retained + bytes ≤ cap; omega }
    · exact fun s _ ok => { ok with }

theorem uncharge_ledger {k : Key} {holder : Holder} {bytes : Int} {s : Instance}
    (ledger : Ledger (fun a => d a + due .retained bytes a + due (.dues holder) bytes a +
      due (.charged k) bytes a) m)
    (found : m.insts.get k = some s) (nonneg : 0 ≤ bytes) (gone : m.Gone holder) :
    Ledger d (m.uncharge k holder bytes) := by
  constructor
  · intro a
    rw [uncharge, total_onInst (s := s), total_rebase (m := m), ledger.balance]
    · cases a <;> simp [base, due, Instance.net, bytesFor_cons] <;> grind
    · exact ⟨rfl, rfl, rfl, rfl⟩
    · exact found
  · apply Sound.onInst
    · refine { ledger.sound with cap := ?_, refunded := ?_ }
      · have before := ledger.sound.cap
        change m.retained - bytes ≤ cap
        omega
      · intro entry member
        rcases List.mem_cons.mp member with rfl | older
        · exact gone
        · exact ledger.sound.refunded entry older
    · exact fun s _ ok => { ok with }

theorem get_uncharge {k : Key} {holder : Holder} {bytes : Int} {s : Instance}
    (found : m.insts.get k = some s) :
    (m.uncharge k holder bytes).insts.get k = some { s with charged := s.charged - bytes } := by
  simp [uncharge, onInst, found]

theorem responseCount_ledger {k : Key} {s : Instance}
    (ledger : Ledger (fun a => d a + due (.responseCount k) 1 a) m) (found : m.insts.get k = some s) :
    Ledger d (m.onInst k fun s => { s with responseCount := s.responseCount - 1 }) := by
  constructor
  · intro a
    rw [total_onInst found, ledger.balance]
    cases a <;> simp [due, Instance.net]
    grind
  · exact ledger.sound.onInst fun s _ ok => { ok with }

structure Owing (d : Account → Int) (m : Memory) : Prop where
  refs : ∀ i, 0 ≤ d (.refs i)
  responses : ∀ r, 0 ≤ d (.responseRefs r) ∧ d (.chunkCount r) = 0
  settled : ∀ i, (∃ key o, m.ops.get key = some o ∧ o.owner = i) ∨ Settled d i

/-- Debts that are references to instances only. -/
structure Plain (d : Account → Int) : Prop where
  refs : ∀ i, 0 ≤ d (.refs i)
  responses : ∀ r, 0 ≤ d (.responseRefs r) ∧ d (.chunkCount r) = 0
  ops : ∀ k, d (.opRefs k) = 0
  settled : ∀ i, Settled d i

theorem Plain.owing (plain : Plain d) (m : Memory) : Owing d m :=
  ⟨plain.refs, plain.responses, fun i => Or.inr (plain.settled i)⟩

theorem plain_zero : Plain fun _ => 0 := by
  constructor <;> simp [Settled]

theorem plain_refs (i : Key) : Plain (due (.refs i) 1) := by
  constructor <;> simp [Settled, due]
  intro k
  split_ifs <;> omega

theorem Owing.of_ops {m' : Memory} (owing : Owing d m) (same : m'.ops = m.ops) : Owing d m' :=
  { owing with settled := by simpa only [same] using owing.settled }

theorem total_dropInst {k : Key} {s : Instance} (found : m.insts.get k = some s) (a : Account) :
    { m with insts := m.insts.erase k }.total a = m.total a - s.net k a := by
  rw [total_eq, total_eq, OrderedMap.sum_erase found, Pi.sub_apply]
  change m.base a + _ + _ + _ + _ = _
  abel

theorem instanceDrop_ledger {k : Key} (ledger : Ledger (fun a => d a + due (.refs k) 1 a) m)
    (owing : Owing d m) : Ledger d (m.instanceDrop k) := by
  have nonneg := m.pointers_nonneg k
  have owed := owing.refs k
  obtain ⟨s, found⟩ := ledger.instance_found (k := k) (by simp [due]; omega)
  have ok := ledger.sound.insts k s found
  have refs : s.refs = s.held + m.pointers k + (d (.refs k) + 1) := by
    simpa [due] using ledger.refs found
  have held := ok.held
  simp only [instanceDrop, found]
  split_ifs with last
  · -- nothing points to the instance any more, so its counters are zero
    have alone := alone_of_pointers (m := m) (k := k) (by omega)
    have counters := ledger.counters_of_alone found alone
    obtain ⟨active, notifications, responseCount, charged⟩ :=
      (owing.settled k).resolve_left (by
        rintro ⟨key, o, present, owner⟩
        exact alone.1 key o present owner)
    simp only [due, reduceCtorEq, if_false, Int.add_zero, active, notifications, responseCount,
      charged] at counters
    constructor
    · intro a
      rw [total_dropInst found, ledger.balance]
      cases a <;> simp [due, Instance.net, counters]
      grind
    · exact { ledger.sound with insts := ledger.sound.insts.erase k }
  · constructor
    · intro a
      rw [total_onInst found, ledger.balance]
      cases a <;> simp [due, Instance.net]
      grind
    · apply ledger.sound.onInst
      intro s' present ok
      have positive := ok.refs
      cases present.symm.trans found
      exact { ok with refs := by change 0 < s.refs - 1; omega }

theorem total_dropResponse {k : Key} {r : Response} (found : m.responses.get k = some r)
    (a : Account) :
    { m with responses := m.responses.erase k }.total a = m.total a - r.net k a := by
  rw [total_eq, total_eq, OrderedMap.sum_erase found, Pi.sub_apply]
  change m.base a + _ + _ + _ + _ = _
  abel

theorem Owing.plus {i : Key} (owing : Owing d m) : Owing (fun a => d a + due (.refs i) 1 a) m where
  refs k := by
    have nonneg := owing.refs k
    simp only [due]
    split_ifs <;> omega
  responses r := by simpa [due] using owing.responses r
  settled k := by simpa [Settled, due] using owing.settled k

theorem responseDrop_ledger {k : Key}
    (ledger : Ledger (fun a => d a + due (.responseRefs k) 1 a) m) (owing : Owing d m) :
    Ledger d (m.responseDrop k) := by
  have nonneg := m.users_nonneg k
  obtain ⟨owed, uncounted⟩ := owing.responses k
  obtain ⟨r, found⟩ := ledger.response_found (k := k) (by simp [due]; omega)
  have ok := ledger.sound.responses k r found
  have refs : r.refs = r.held + m.users k + (d (.responseRefs k) + 1) := by
    simpa [due] using ledger.responseRefs found
  have held := ok.held
  simp only [responseDrop, found]
  split_ifs with last
  · have chunks : r.chunks = 0 := by
      rw [ledger.chunks found, OrderedMap.sum_eq_zero]
      · simpa [due] using uncounted
      · intro key c present
        have user := fun uses => chunk_user (k := k) present uses
        simp only [one]
        split_ifs with uses
        · have some := user uses
          omega
        · rfl
    have pointer := response_pointer found
    obtain ⟨s, owner⟩ := ledger.instance_found (k := r.owner) (by
      have nonneg := owing.refs r.owner
      simp [due]
      omega)
    have dropped : Ledger (fun a => d a + due (.refs r.owner) 1 a + due (.responseCount r.owner) 1 a +
        due .retained r.metadataCharge a + due (.dues (.response k)) r.metadataCharge a +
        due (.charged r.owner) r.metadataCharge a) { m with responses := m.responses.erase k } := by
      constructor
      · intro a
        rw [total_dropResponse found, ledger.balance]
        cases a <;> simp [due, Response.net, one, chunks] <;> grind
      · refine { ledger.sound with responses := ledger.sound.responses.erase k, refunded := ?_ }
        intro entry member
        refine (ledger.sound.refunded entry member).mono (le_refl m.fresh) ?_ ?_ ?_
        · exact fun _ _ absent => absent
        · intro key _ absent
          simp [OrderedMap.get_erase, absent]
        · exact fun _ _ absent => absent
    have gone : ({ m with responses := m.responses.erase k } : Memory).Gone (.response k) := by
      simpa [Gone, OrderedMap.get_erase] using ok.addressed
    have paid := uncharge_ledger dropped owner ok.metadata gone
    have counted := responseCount_ledger paid (get_uncharge owner)
    exact instanceDrop_ledger counted { owing with }
  · constructor
    · intro a
      rw [total_onResponse found, ledger.balance]
      cases a <;> simp [due, Response.net]
      grind
    · apply ledger.sound.onResponse
      intro r' present ok
      have positive := ok.refs
      cases present.symm.trans found
      exact { ok with refs := by change 0 < r.refs - 1; omega }

def dueResponse (response : Option Key) : Account → Int
  | .responseRefs r => one (response = some r)
  | _ => 0

theorem dropResponse_ledger {response : Option Key}
    (ledger : Ledger (fun a => d a + dueResponse response a) m) (owing : Owing d m) :
    Ledger d (m.dropResponse? response) := by
  cases response with
  | none => exact ledger.cast fun a => by cases a <;> simp [dueResponse]
  | some r =>
    apply responseDrop_ledger _ owing
    exact ledger.cast fun a => by cases a <;> simp [dueResponse, due, one]

theorem total_dropOp {k : Key} {o : Operation} (found : m.ops.get k = some o) (a : Account) :
    { m with ops := m.ops.erase k }.total a = m.total a - o.net k a := by
  rw [total_eq, total_eq, OrderedMap.sum_erase found, Pi.sub_apply]
  change m.base a + _ + _ + _ + _ = _
  abel

theorem refund_ledger {k holder : Key} {bytes : Int}
    (ledger : Ledger (fun a => d a + due .retained bytes a + due (.dues (.operation holder)) bytes a +
      due (.charged k) bytes a) m)
    (owed : 0 < d (.refs k)) (nonneg : 0 ≤ bytes) (gone : m.Gone (.operation holder)) :
    Ledger d (if bytes ≠ 0 then m.uncharge k (.operation holder) bytes else m) := by
  split_ifs with some
  · obtain ⟨s, found⟩ := ledger.owed_found (k := k) (by simpa [due] using owed)
    exact uncharge_ledger ledger found nonneg gone
  · have nothing : bytes = 0 := not_not.mp some
    exact ledger.cast fun a => by simp [due, nothing]

-- Everything that the operation held is given back.
theorem opFree_ledger {k : Key} {o : Operation} (found : m.ops.get k = some o) (sound : m.Sound)
    (left : ∀ a, m.total a - o.net k a = d a + due .retained o.bytes a +
      due (.dues (.operation k)) o.bytes a + due (.charged o.owner) o.bytes a +
      due (.refs o.owner) 1 a + dueResponse o.response a)
    (plain : Plain d) : Ledger d (m.opFree k o) := by
  have ok := sound.ops k o found
  have erased : Ledger (fun a => d a + due (.refs o.owner) 1 a + dueResponse o.response a +
      due .retained o.allocationCharge a + due (.dues (.operation k)) o.allocationCharge a +
      due (.charged o.owner) o.allocationCharge a + due .retained o.inputCharge a +
      due (.dues (.operation k)) o.inputCharge a + due (.charged o.owner) o.inputCharge a)
      { m with ops := m.ops.erase k } := by
    constructor
    · intro a
      rw [total_dropOp found, left]
      simp only [due, Operation.bytes]
      grind
    · refine { sound with ops := sound.ops.erase k, refunded := ?_ }
      intro entry member
      refine (sound.refunded entry member).mono (le_refl m.fresh) ?_ ?_ ?_
      · intro key _ absent
        simp [OrderedMap.get_erase, absent]
      · exact fun _ _ absent => absent
      · exact fun _ _ absent => absent
  have gone : ({ m with ops := m.ops.erase k } : Memory).Gone (.operation k) := by
    simpa [Gone, OrderedMap.get_erase] using ok.addressed
  have nonneg := plain.refs o.owner
  have input := refund_ledger erased (by simp [due, dueResponse]; omega) ok.input gone
  have allocation := refund_ledger input (by simp [due, dueResponse]; omega) ok.allocation (by
    split_ifs <;> exact gone)
  have response := dropResponse_ledger allocation (plain.owing _).plus
  exact instanceDrop_ledger response (plain.owing _)

theorem Ledger.opRefs (ledger : Ledger d m) {k : Key} {o : Operation}
    (found : m.ops.get k = some o) :
    o.refs = o.held + one (o.finished = false) + d (.opRefs k) := by
  have balance := ledger.balance (.opRefs k)
  have instances : m.insts.sum Instance.net (.opRefs k) = 0 := by
    rw [OrderedMap.sum_apply]
    exact OrderedMap.sum_eq_zero fun _ _ _ => rfl
  have responses : m.responses.sum Response.net (.opRefs k) = 0 := by
    rw [OrderedMap.sum_apply]
    exact OrderedMap.sum_eq_zero fun _ _ _ => rfl
  have chunks : m.chunks.sum Chunk.net (.opRefs k) = 0 := by
    rw [OrderedMap.sum_apply]
    exact OrderedMap.sum_eq_zero fun _ _ _ => rfl
  have own : m.ops.sum Operation.net (.opRefs k) = o.refs - o.held - one (o.finished = false) := by
    rw [OrderedMap.sum_apply, OrderedMap.sum_single m.ops k, found, Option.elim_some]
    · simp [Operation.net]
    · intro key o other
      simp [Operation.net, other]
  rw [total_eq, show m.base (.opRefs k) = 0 from rfl, instances, own, responses, chunks] at balance
  omega

theorem opDrop_ledger {k : Key} {o : Operation}
    (ledger : Ledger (fun a => d a + due (.opRefs k) 1 a) m) (found : m.ops.get k = some o)
    (plain : Plain d) : Ledger d (m.opDrop k) := by
  have own := plain.ops k
  have ok := ledger.sound.ops k o found
  have refs : o.refs = o.held + one (o.finished = false) + (d (.opRefs k) + 1) := by
    simpa [due] using ledger.opRefs found
  have held := ok.held
  simp only [opDrop, found]
  split_ifs with last
  · have finished : o.finished = true := by
      by_contra unfinished
      simp only [Bool.not_eq_true] at unfinished
      simp only [unfinished, one_true] at refs
      omega
    have delivered := ok.finished finished
    have done := ok.delivered delivered
    simp only [finished, Bool.true_eq_false, one_false] at refs
    apply opFree_ledger found ledger.sound _ plain
    intro a
    rw [ledger.balance]
    cases a <;> simp [due, Operation.net, one, finished, delivered, done, dueResponse]
    all_goals grind
  · constructor
    · intro a
      rw [total_onOp found, ledger.balance]
      cases a <;> simp [due, Operation.net, Operation.bytes]
      grind
    · apply ledger.sound.onOp
      intro o' present ok
      have positive := ok.refs
      cases present.symm.trans found
      exact { ok with refs := by change 0 < o.refs - 1; omega }

theorem onInst_ledger {k : Key} {f : Instance → Instance} (ledger : Ledger d m)
    (same : ∀ s a, (f s).net k a = s.net k a)
    (ok : ∀ s, s.Sound m.fresh k → (f s).Sound m.fresh k) : Ledger d (m.onInst k f) := by
  constructor
  · intro a
    cases found : m.insts.get k with
    | none =>
      have unchanged : m.onInst k f = m := by simp [onInst, OrderedMap.modify, found]
      rw [unchanged, ledger.balance]
    | some s =>
      rw [total_onInst found, same, ledger.balance]
      omega
  · exact ledger.sound.onInst fun s _ => ok s

theorem onOp_ledger {k : Key} {f : Operation → Operation} (ledger : Ledger d m)
    (same : ∀ o a, m.ops.get k = some o → (f o).net k a = o.net k a)
    (ok : ∀ o, o.Sound m.fresh k → (f o).Sound m.fresh k) : Ledger d (m.onOp k f) := by
  constructor
  · intro a
    cases found : m.ops.get k with
    | none =>
      have unchanged : m.onOp k f = m := by simp [onOp, OrderedMap.modify, found]
      rw [unchanged, ledger.balance]
    | some o =>
      rw [total_onOp found, same o a found, ledger.balance]
      omega
  · exact ledger.sound.onOp fun o _ => ok o

theorem onResponse_ledger {k : Key} {f : Response → Response} (ledger : Ledger d m)
    (same : ∀ r a, (f r).net k a = r.net k a)
    (ok : ∀ r, r.Sound m.fresh k → (f r).Sound m.fresh k) : Ledger d (m.onResponse k f) := by
  constructor
  · intro a
    cases found : m.responses.get k with
    | none =>
      have unchanged : m.onResponse k f = m := by simp [onResponse, OrderedMap.modify, found]
      rw [unchanged, ledger.balance]
    | some r =>
      rw [total_onResponse found, same, ledger.balance]
      omega
  · exact ledger.sound.onResponse fun r _ => ok r

theorem Sound.absent (sound : m.Sound) : m.insts.get m.fresh = none ∧ m.ops.get m.fresh = none ∧
    m.responses.get m.fresh = none ∧ m.chunks.get m.fresh = none := by
  refine ⟨?_, ?_, ?_, ?_⟩ <;> by_contra present <;>
    obtain ⟨v, found⟩ := Option.ne_none_iff_exists'.mp present
  · exact absurd (sound.insts _ v found).addressed (lt_irrefl _)
  · exact absurd (sound.ops _ v found).addressed (lt_irrefl _)
  · exact absurd (sound.responses _ v found).addressed (lt_irrefl _)
  · exact absurd (sound.chunks _ v found).addressed (lt_irrefl _)

-- The same objects with one more address given out.
theorem Sound.next (sound : m.Sound) : ({ m with fresh := m.fresh + 1 } : Memory).Sound where
  insts := sound.insts.mono fun _ _ ok => { ok with addressed := Nat.lt_succ_of_lt ok.addressed }
  ops := sound.ops.mono fun _ _ ok => { ok with addressed := Nat.lt_succ_of_lt ok.addressed }
  responses := sound.responses.mono fun _ _ ok =>
    { ok with addressed := Nat.lt_succ_of_lt ok.addressed }
  chunks := sound.chunks.mono fun _ _ ok => { ok with addressed := Nat.lt_succ_of_lt ok.addressed }
  cap := sound.cap
  live := sound.live
  addressed k live := Nat.lt_succ_of_lt (sound.addressed k live)
  refunded entry member := (sound.refunded entry member).mono (Nat.le_succ _)
    (fun _ _ absent => absent) (fun _ _ absent => absent) fun _ _ absent => absent

theorem total_addResponse {k : Key} {r : Response} (absent : m.responses.get k = none) (fresh : Key)
    (a : Account) :
    { m with responses := m.responses.insert k r, fresh := fresh }.total a =
      m.total a + r.net k a := by
  rw [total_eq, total_eq, OrderedMap.sum_insert_absent absent, Pi.add_apply]
  change m.base a + _ + _ + _ + _ = _
  abel

theorem total_addChunk {k : Key} {c : Chunk} (absent : m.chunks.get k = none) (fresh : Key)
    (a : Account) :
    { m with chunks := m.chunks.insert k c, fresh := fresh }.total a = m.total a + c.net k a := by
  rw [total_eq, total_eq, OrderedMap.sum_insert_absent absent, Pi.add_apply]
  change m.base a + _ + _ + _ + _ = _
  abel

theorem addInstance_ledger (ledger : Ledger d m) (server : Bool) :
    Ledger (fun a => d a + due (.refs m.fresh) 1 a) (m.addInstance server) := by
  have sound := ledger.sound
  constructor
  · intro a
    have added : (m.addInstance server).total a =
        m.total a + (m.newInstance server).net m.fresh a := by
      rw [total_eq, total_eq, addInstance]
      simp only [OrderedMap.sum_insert_absent sound.absent.1, Pi.add_apply]
      change m.base a + _ + _ + _ + _ = _
      omega
    rw [added, ledger.balance]
    cases a <;> simp [due, Instance.net, newInstance]
  · have next := sound.next
    refine { next with insts := next.insts.insert ?_ }
    exact ⟨Nat.lt_succ_self _, by simp [newInstance], by simp [newInstance]⟩

theorem link_ledger {k : Key} (ledger : Ledger (fun a => d a + due (.refs k) 1 a) m)
    (addressed : k < m.fresh) (unlinked : k ∉ m.live) : Ledger d (m.link k) := by
  have sound := ledger.sound
  constructor
  · intro a
    rw [total_rebase (m := m), ledger.balance]
    · cases a <;> simp [base, link, due, one]
      grind
    · exact ⟨rfl, rfl, rfl, rfl⟩
  · refine { sound with live := List.nodup_cons.mpr ⟨unlinked, sound.live⟩, addressed := ?_ }
    intro key live
    rcases List.mem_cons.mp live with rfl | older
    · exact addressed
    · exact sound.addressed key older

-- The charge for the operation itself has been made.
theorem addOp_ledger (kind : Kind) {k : Key} {bytes : Int} {s : Instance}
    (ledger : Ledger (fun a => d a + due .retained bytes a +
      due (.dues (.operation m.fresh)) bytes a + due (.charged k) bytes a) m)
    (found : m.insts.get k = some s) (nonneg : 0 ≤ bytes) :
    Ledger d (m.addOp kind k bytes).2 := by
  have sound := ledger.sound
  have inserted (a : Account) (m' : Memory) (insts : m'.insts = m.insts)
      (ops : m'.ops = m.ops.insert m.fresh (m.newOperation kind k bytes))
      (responses : m'.responses = m.responses) (chunks : m'.chunks = m.chunks) :
      m'.total a = m.total a - m.base a + m'.base a +
        (m.newOperation kind k bytes).net m.fresh a := by
    rw [total_eq, total_eq, insts, ops, responses, chunks,
      OrderedMap.sum_insert_absent sound.absent.2.1, Pi.add_apply]
    omega
  constructor
  · intro a
    rw [addOp, total_onInst (s := s), inserted a, ledger.balance]
    · cases a <;> simp [due, base, Operation.net, Instance.net, newOperation, one, Operation.bytes]
      all_goals grind
    · rfl
    · rfl
    · rfl
    · rfl
    · exact found
  · apply Sound.onInst
    · have next := sound.next
      refine { next with ops := next.ops.insert ?_, refunded := ?_ }
      · exact ⟨Nat.lt_succ_self _, by simp [newOperation], by simp [newOperation],
          by simp [newOperation], by simpa [newOperation] using nonneg, by simp [newOperation],
          by simp [newOperation], by simp [newOperation]⟩
      · intro entry member
        refine (sound.refunded entry member).mono (Nat.le_succ _) ?_ ?_ ?_
        · intro key old absent
          rw [OrderedMap.get_insert_ne _ _ (Nat.ne_of_lt old)]
          exact absent
        · exact fun _ _ absent => absent
        · exact fun _ _ absent => absent
    · intro s present ok
      have positive := ok.refs
      exact { ok with refs := by change 0 < s.refs + 1; omega }

theorem newOp_ledger {sizes : Sizes} {kind : Kind} {k key : Key} {allocated : Bool} {m' : Memory}
    {s : Instance} (ledger : Ledger d m) (made : m.newOp sizes kind k allocated = some (key, m'))
    (found : m.insts.get k = some s) : Ledger d m' := by
  unfold newOp at made
  simp only [Option.ite_none_left_eq_some] at made
  obtain ⟨_, _, made⟩ := made
  split_ifs at made with business
  · cases charge : m.charge k (.operation m.fresh) sizes.operation with
    | none => simp [charge] at made
    | some paid =>
      obtain ⟨s, found, room, rfl⟩ := charge_eq_some.mp charge
      have booked := charge_ledger ledger (.operation m.fresh) found room
      simp only [charge, Option.some.injEq] at made
      have owner : (m.charged k (.operation m.fresh) sizes.operation).insts.get k =
          some { s with charged := s.charged + sizes.operation } := by
        simp [Memory.charged, onInst, found]
      have keeps := addOp_ledger (d := d) (m := m.charged k (.operation m.fresh) sizes.operation)
        kind booked owner (Int.natCast_nonneg _)
      rwa [made] at keeps
  · simp only [Option.some.injEq] at made
    have free : Ledger (fun a => d a + due .retained 0 a + due (.dues (.operation m.fresh)) 0 a +
        due (.charged k) 0 a) m := ledger.cast fun a => by simp [due]
    have keeps := addOp_ledger kind free found (le_refl 0)
    rwa [made] at keeps

theorem chargeInput_ledger {k : Key} {o : Operation} {bytes : Int} {m' : Memory}
    (ledger : Ledger d m) (made : m.chargeInput k bytes = some m') (found : m.ops.get k = some o)
    (first : o.inputCharge = 0) (nonneg : 0 ≤ bytes) : Ledger d m' := by
  simp only [chargeInput, found, Option.map_eq_some_iff] at made
  obtain ⟨paid, charge, rfl⟩ := made
  obtain ⟨s, owner, room, rfl⟩ := charge_eq_some.mp charge
  have booked := charge_ledger ledger (.operation k) owner room
  constructor
  · intro a
    rw [total_onOp (o := o), booked.balance]
    · cases a <;> simp [due, Operation.net, Operation.bytes, first]
      all_goals grind
    · exact found
  · exact booked.sound.onOp fun o _ ok => { ok with input := nonneg }

theorem useResponse_ledger {k r : Key} {o : Operation} {response : Response} (ledger : Ledger d m)
    (found : m.ops.get k = some o) (first : o.response = none)
    (present : m.responses.get r = some response) : Ledger d (m.useResponse k r) := by
  constructor
  · intro a
    rw [useResponse, total_onResponse (r := response), total_onOp found, ledger.balance]
    · cases a <;> simp [Operation.net, Response.net, Operation.bytes, first, one]
      grind
    · exact present
  · apply Sound.onResponse
    · exact ledger.sound.onOp fun o _ ok => { ok with }
    · intro r' _ ok
      have positive := ok.refs
      exact { ok with refs := by change 0 < r'.refs + 1; omega }

theorem opDrop_last {k : Key} {o : Operation} (found : m.ops.get k = some o)
    (last : o.refs = 1) : m.opDrop k = m.opFree k o := by
  simp only [opDrop, found]
  rw [if_pos last]

theorem abandon_ledger {k : Key} {o : Operation} (ledger : Ledger d m)
    (found : m.ops.get k = some o) (unanswered : o.Unanswered) (blank : o.event.Blank)
    (plain : Plain d) : Ledger d (m.abandon k) := by
  have own := plain.ops k
  have refs := ledger.opRefs found
  simp only [own, unanswered.finished, one_true] at refs
  obtain ⟨s, owner⟩ := ledger.owner_found found (plain.refs o.owner)
  simp only [abandon, found]
  rw [opDrop_last (o := { o with refs := 1 }) (by simp [onOp, onInst, found]) rfl]
  apply opFree_ledger (o := { o with refs := 1 })
  · simp [onOp, onInst, found]
  · apply Sound.onOp
    · apply Sound.onInst
      · exact { ledger.sound with }
      · exact fun s _ ok => { ok with }
    · exact fun o _ ok => { ok with refs := Int.one_pos }
  · intro a
    rw [total_onOp (o := o), total_onInst (s := s), total_rebase (m := m), ledger.balance]
    · obtain ⟨handle, response, chunk⟩ := blank
      obtain ⟨done, delivered, finished⟩ := unanswered
      cases a <;> simp [base, due, dueResponse, Operation.net, Instance.net, Operation.bytes, one,
        handle, response, chunk, done, delivered, finished]
      all_goals grind
    · exact ⟨rfl, rfl, rfl, rfl⟩
    · exact owner
    · exact found
  · exact plain

abbrev Books (m : Memory) : Prop := Ledger (fun _ => 0) m

theorem finish_ledger {k : Key} {o : Operation} (books : m.Books) (found : m.ops.get k = some o)
    (delivered : o.delivered = true) (unfinished : o.finished = false) : (m.finish k).Books := by
  obtain ⟨s, owner⟩ := books.owner_found found (le_refl 0)
  simp only [finish, found]
  apply opDrop_ledger (o := { o with finished := true })
  · constructor
    · intro a
      rw [total_onOp (o := o), total_onInst (s := s), total_rebase (m := m), books.balance]
      · cases a <;> simp [base, due, Operation.net, Instance.net, Operation.bytes, one, unfinished]
        all_goals grind
      · exact ⟨rfl, rfl, rfl, rfl⟩
      · exact owner
      · exact found
    · apply Sound.onOp
      · apply Sound.onInst
        · exact { books.sound with }
        · exact fun s _ ok => { ok with }
      · intro o' present ok
        cases present.symm.trans found
        exact { ok with finished := fun _ => delivered }
  · simp [onOp, onInst, found]
  · exact plain_zero

theorem releaseOperation_ledger {k : Key} {o : Operation} (books : m.Books)
    (found : m.ops.get k = some o) (held : 0 < o.held) : (m.releaseOperation k).Books := by
  apply opDrop_ledger (o := { o with held := o.held - 1 })
  · constructor
    · intro a
      rw [total_onOp found, books.balance]
      cases a <;> simp [due, Operation.net, Operation.bytes]
      all_goals grind
    · apply books.sound.onOp
      intro o' present ok
      cases present.symm.trans found
      exact { ok with held := by change 0 ≤ o.held - 1; omega }
  · simp [onOp, found]
  · exact plain_zero

theorem releaseInstance_ledger {k : Key} {s : Instance} (books : m.Books)
    (found : m.insts.get k = some s) (held : 0 < s.held) : (m.releaseInstance k).Books := by
  apply instanceDrop_ledger _ (plain_zero.owing _)
  constructor
  · intro a
    rw [total_onInst found, books.balance]
    cases a <;> simp [due, Instance.net]
    grind
  · apply books.sound.onInst
    intro s' present ok
    cases present.symm.trans found
    exact { ok with held := by change 0 ≤ s.held - 1; omega }

-- Events that have not been handed over and carry the chunk.
def carriers (m : Memory) (k : Key) : Int :=
  m.ops.sum fun _ o => one (o.delivered = false ∧ o.event.chunk = some k)

theorem carriers_nonneg (m : Memory) (k : Key) : 0 ≤ m.carriers k := by
  apply List.sum_nonneg
  intro w member
  obtain ⟨entry, _, rfl⟩ := List.mem_map.mp member
  exact one_nonneg _

theorem total_chunkOwner (m : Memory) (k : Key) :
    m.total (.chunkOwner k) = ((m.chunks.get k).elim 0 fun c => 1 - c.held) - m.carriers k := by
  have instances : m.insts.sum Instance.net (.chunkOwner k) = 0 := by
    rw [OrderedMap.sum_apply]
    exact OrderedMap.sum_eq_zero fun _ _ _ => rfl
  have responses : m.responses.sum Response.net (.chunkOwner k) = 0 := by
    rw [OrderedMap.sum_apply]
    exact OrderedMap.sum_eq_zero fun _ _ _ => rfl
  have own : m.chunks.sum Chunk.net (.chunkOwner k) =
      (m.chunks.get k).elim 0 fun c => 1 - c.held := by
    rw [OrderedMap.sum_apply, OrderedMap.sum_single m.chunks k]
    · simp [Chunk.net]
    · intro key c other
      simp [Chunk.net, other]
  have carried : m.ops.sum Operation.net (.chunkOwner k) = -m.carriers k := by
    rw [OrderedMap.sum_apply, carriers, ← OrderedMap.sum_neg]
    rfl
  rw [total_eq, show m.base (.chunkOwner k) = 0 from rfl, instances, own, responses, carried]
  omega

theorem Ledger.chunkOwner (ledger : Ledger d m) {k : Key} {c : Chunk}
    (found : m.chunks.get k = some c) : 1 - c.held = d (.chunkOwner k) + m.carriers k := by
  have balance := ledger.balance (.chunkOwner k)
  rw [total_chunkOwner, found, Option.elim_some] at balance
  omega

theorem total_dropChunk {k : Key} {c : Chunk} (found : m.chunks.get k = some c) (a : Account) :
    { m with chunks := m.chunks.erase k }.total a = m.total a - c.net k a := by
  rw [total_eq, total_eq, OrderedMap.sum_erase found, Pi.sub_apply]
  change m.base a + _ + _ + _ + _ = _
  abel

theorem releaseChunk_ledger {k : Key} {c : Chunk} (books : m.Books)
    (found : m.chunks.get k = some c) (held : 0 < c.held) : (m.releaseChunk k).Books := by
  have ok := books.sound.chunks k c found
  -- no event carries a chunk that the host holds
  have single : c.held = 1 := by
    have carried := m.carriers_nonneg k
    have owner := books.chunkOwner found
    omega
  obtain ⟨s, owner⟩ := books.instance_found (k := c.owner) (by
    have pointer := chunk_pointer found
    omega)
  obtain ⟨r, response⟩ := books.response_found (k := c.response) (by
    have user := chunk_user found rfl
    omega)
  simp only [releaseChunk, found]
  have erased : Ledger (fun a => due (.refs c.owner) 1 a + due (.responseRefs c.response) 1 a +
      due (.chunkCount c.response) 1 a + due .retained c.length a +
      due (.dues (.chunk k)) c.length a + due (.charged c.owner) c.length a)
      { m with chunks := m.chunks.erase k } := by
    constructor
    · intro a
      rw [total_dropChunk found, books.balance]
      cases a <;> simp [due, Chunk.net, one, single]
      all_goals grind
    · refine { books.sound with chunks := books.sound.chunks.erase k, refunded := ?_ }
      intro entry member
      refine (books.sound.refunded entry member).mono (le_refl m.fresh) ?_ ?_ ?_
      · exact fun _ _ absent => absent
      · exact fun _ _ absent => absent
      · intro key _ absent
        simp [OrderedMap.get_erase, absent]
  have gone : ({ m with chunks := m.chunks.erase k } : Memory).Gone (.chunk k) := by
    simpa [Gone, OrderedMap.get_erase] using ok.addressed
  have paid := uncharge_ledger erased owner ok.length gone
  apply instanceDrop_ledger _ (plain_zero.owing _)
  apply responseDrop_ledger _ ((plain_zero.owing _).plus)
  constructor
  · intro a
    rw [total_onResponse (r := r), paid.balance]
    · cases a <;> simp [due, Response.net]
      grind
    · exact response
  · exact paid.sound.onResponse fun r _ ok => { ok with }

def dueHandle (handle : Option Key) : Account → Int
  | .refs i => one (handle = some i)
  | _ => 0

def dueChunk (chunk : Option Key) : Account → Int
  | .chunkOwner c => one (chunk = some c)
  | _ => 0

theorem giveInstance_ledger {handle : Option Key} (nonneg : ∀ i, 0 ≤ d (.refs i))
    (ledger : Ledger (fun a => d a + dueHandle handle a) m) : Ledger d (m.giveInstance? handle) := by
  cases handle with
  | none => exact ledger.cast fun a => by cases a <;> simp [dueHandle]
  | some i =>
    obtain ⟨s, found⟩ := ledger.owed_found (k := i) (by
      have owed := nonneg i
      simp [dueHandle]
      omega)
    constructor
    · intro a
      rw [giveInstance?, total_onInst found, ledger.balance]
      cases a <;> simp [dueHandle, Instance.net, one]
      grind
    · apply ledger.sound.onInst
      intro s _ ok
      have held := ok.held
      exact { ok with held := by change 0 ≤ s.held + 1; omega }

theorem giveResponse_ledger {response : Option Key} (nonneg : ∀ r, 0 ≤ d (.responseRefs r))
    (ledger : Ledger (fun a => d a + dueResponse response a) m) :
    Ledger d (m.giveResponse? response) := by
  cases response with
  | none => exact ledger.cast fun a => by cases a <;> simp [dueResponse]
  | some r =>
    obtain ⟨response, found⟩ := ledger.response_found (k := r) (by
      have owed := nonneg r
      have users := m.users_nonneg r
      simp [dueResponse]
      omega)
    constructor
    · intro a
      rw [giveResponse?, total_onResponse found, ledger.balance]
      cases a <;> simp [dueResponse, Response.net, one]
      grind
    · apply ledger.sound.onResponse
      intro r _ ok
      have held := ok.held
      exact { ok with held := by change 0 ≤ r.held + 1; omega }

theorem Ledger.chunk_found (ledger : Ledger d m) {k : Key}
    (wanted : 0 < d (.chunkOwner k) + m.carriers k) : ∃ c, m.chunks.get k = some c := by
  have balance := ledger.balance (.chunkOwner k)
  rw [total_chunkOwner] at balance
  cases found : m.chunks.get k with
  | some c => exact ⟨c, rfl⟩
  | none =>
    rw [found, Option.elim_none] at balance
    omega

theorem giveChunk_ledger {chunk : Option Key} (nonneg : ∀ c, 0 ≤ d (.chunkOwner c))
    (ledger : Ledger (fun a => d a + dueChunk chunk a) m) : Ledger d (m.giveChunk? chunk) := by
  cases chunk with
  | none => exact ledger.cast fun a => by cases a <;> simp [dueChunk]
  | some c =>
    obtain ⟨chunk, found⟩ := ledger.chunk_found (k := c) (by
      have owed := nonneg c
      have carriers := m.carriers_nonneg c
      simp [dueChunk]
      omega)
    constructor
    · intro a
      rw [giveChunk?, total_onChunk found, ledger.balance]
      cases a <;> simp [dueChunk, Chunk.net, one]
      grind
    · apply ledger.sound.onChunk
      intro c _ ok
      have held := ok.held
      exact { ok with held := by change 0 ≤ c.held + 1; omega }

theorem deliver_ledger {k : Key} {o : Operation} (books : m.Books) (found : m.ops.get k = some o)
    (done : o.done = true) (undelivered : o.delivered = false) : (m.deliver k).Books := by
  simp only [deliver, found]
  apply giveChunk_ledger (fun _ => le_refl 0)
  apply giveResponse_ledger (fun _ => by simp [dueChunk])
  apply giveInstance_ledger (fun _ => by simp [dueChunk, dueResponse])
  constructor
  · intro a
    rw [total_onOp found, books.balance]
    cases a <;> simp [dueHandle, dueResponse, dueChunk, Operation.net, Operation.bytes, undelivered]
  · apply books.sound.onOp
    intro o' present ok
    cases present.symm.trans found
    exact { ok with delivered := fun _ => done, finished := fun _ => rfl }

theorem retire_ledger {k : Key} (ledger : Ledger d m) (live : k ∈ m.live) (owing : Owing d m) :
    Ledger d (m.retire k) := by
  have sound := ledger.sound
  refine instanceDrop_ledger (m := { m.unlinkInstance k with instances := m.instances - 1 }) ?_
    (owing.of_ops rfl)
  constructor
  · intro a
    rw [total_rebase (m := m), ledger.balance]
    · have length := List.length_erase_add_one live
      have others (key : Key) : key ∈ m.live.erase k ↔ key ≠ k ∧ key ∈ m.live :=
        sound.live.mem_erase_iff
      cases a <;> simp [base, due, unlinkInstance, one, others]
      · omega
      · grind
    · exact ⟨rfl, rfl, rfl, rfl⟩
  · exact { sound with
      live := sound.live.erase k
      addressed := fun key member => sound.addressed key (List.mem_of_mem_erase member) }

theorem resetResponse_ledger {k : Key} {o : Operation} (code : Code) (old : Operation)
    (ledger : Ledger d m)
    (owing : Owing d m) (found : m.ops.get k = some o) (undelivered : o.delivered = false)
    (same : old.event.response = o.event.response) : Ledger d (m.resetResponse k code old) := by
  unfold resetResponse
  split_ifs with failed
  · apply dropResponse_ledger
    · constructor
      · intro a
        rw [total_onOp found, ledger.balance]
        cases a <;> simp [dueResponse, Operation.net, Operation.bytes, undelivered, same]
        omega
      · exact ledger.sound.onOp fun o _ ok => { ok with }
    · refine { owing with settled := ?_ }
      intro i
      rcases owing.settled i with ⟨key, o', present, owner⟩ | settled
      · left
        by_cases here : key = k
        · subst here
          cases present.symm.trans found
          exact ⟨key, { o with event := { o.event with response := none } },
            by simp [onOp, found], owner⟩
        · exact ⟨key, o', by simp [onOp, OrderedMap.get_modify, here, present], owner⟩
      · exact Or.inr settled
  · exact ledger

theorem settleInstance_ledger {k : Key} {o : Operation} (code : Code) (old : Operation)
    (ledger : Ledger d m) (owing : Owing d m) (found : m.ops.get k = some o) (undelivered : o.delivered = false)
    (blank : o.event.handle = none) (done : o.done = true) (owner : old.owner = o.owner)
    (live : old.kind.creates = true ∨ old.kind.closes = true → o.owner ∈ m.live) :
    Ledger d (m.settleInstance k code old) := by
  obtain ⟨s, present⟩ := ledger.owner_found found (owing.refs o.owner)
  unfold settleInstance
  rw [owner]
  split_ifs with creates success closes
  · constructor
    · intro a
      rw [total_onOp (o := o), total_onInst present, ledger.balance]
      · cases a <;> simp [Operation.net, Instance.net, Operation.bytes, undelivered, blank, one]
        grind
      · exact found
    · apply Sound.onOp
      · apply ledger.sound.onInst
        intro s _ ok
        have positive := ok.refs
        exact { ok with refs := by change 0 < s.refs + 1; omega }
      · intro o' found' ok
        cases Option.some.inj (found'.symm.trans found)
        exact { ok with handle := fun undone => by simp [done] at undone }
  · refine retire_ledger ?_ ?_ ?_
    · exact onInst_ledger ledger (fun _ _ => rfl) fun _ ok => { ok with }
    · exact live (Or.inl creates)
    · exact owing.of_ops rfl
  · refine retire_ledger ?_ ?_ ?_
    · exact onInst_ledger ledger (fun _ _ => rfl) fun _ ok => { ok with }
    · exact live (Or.inr closes)
    · exact owing.of_ops rfl
  · exact ledger

theorem endRead_ledger (ledger : Ledger d m) (o : Operation) : Ledger d (m.endRead o) := by
  unfold endRead
  split
  · split_ifs
    · exact onResponse_ledger ledger (fun _ a => by cases a <;> rfl) fun _ ok => { ok with }
    · exact ledger
  · exact ledger

theorem complete_ledger {k : Key} {code : Code} {kind : Option ResultKind} {o : Operation}
    (books : m.Books) (found : m.ops.get k = some o) (undone : o.done = false)
    (live : o.kind.creates = true ∨ o.kind.closes = true → o.owner ∈ m.live) :
    (m.complete k code kind).Books := by
  have ok := books.sound.ops k o found
  have undelivered : o.delivered = false := by
    by_contra delivered
    simp [ok.delivered (by simpa using delivered)] at undone
  simp only [complete, found, undone, Bool.false_eq_true, if_false]
  -- until the last line the instance counts an operation that is done already
  have owing (m' : Memory) (o' : Operation) (here : m'.ops.get k = some o')
      (owner : o'.owner = o.owner) : Owing (due (.active o.owner) 1) m' := by
    refine ⟨by simp [due], by simp [due], fun i => ?_⟩
    by_cases own : i = o.owner
    · exact Or.inl ⟨k, o', here, own ▸ owner⟩
    · exact Or.inr (by simp [Settled, due, Ne.symm own])
  have answered : Ledger (due (.active o.owner) 1) (m.onOp k (answer code kind)) := by
    constructor
    · intro a
      rw [total_onOp found, books.balance]
      cases a <;> simp [due, Operation.net, Operation.bytes, answer, undelivered, one, undone]
      all_goals omega
    · apply books.sound.onOp
      intro o' present ok
      exact { ok with delivered := fun _ => rfl, handle := fun absurd => by simp [answer] at absurd }
  have present : (m.onOp k (answer code kind)).ops.get k = some (answer code kind o) := by
    simp [onOp, found]
  have reset := resetResponse_ledger code o answered (owing _ _ present rfl) present undelivered rfl
  obtain ⟨o₁, present₁, settling⟩ : ∃ o₁,
      ((m.onOp k (answer code kind)).resetResponse k code o).ops.get k = some o₁ ∧
        o₁.Settling o := by
    rw [ops_resetResponse]
    split_ifs
    · exact ⟨{ answer code kind o with event := { (answer code kind o).event with response := none } },
        by simp [onOp, found], rfl, undelivered, rfl, ok.handle undone⟩
    · exact ⟨_, present, rfl, undelivered, rfl, ok.handle undone⟩
  have settled := settleInstance_ledger code o reset (owing _ o₁ present₁ settling.owner) present₁
    settling.delivered settling.handle settling.done settling.owner.symm (by
      rw [live_resetResponse, settling.owner]
      exact live)
  have read := endRead_ledger settled o
  obtain ⟨o₂, present₂, owner₂⟩ : ∃ o₂, (((m.onOp k (answer code kind)).resetResponse k code
      o).settleInstance k code o |>.endRead o).ops.get k = some o₂ ∧ o₂.owner = o.owner := by
    rw [ops_endRead, ops_settleInstance]
    split_ifs
    · rw [get_onOp_self, present₁]
      exact ⟨_, rfl, settling.owner⟩
    · exact ⟨o₁, present₁, settling.owner⟩
  obtain ⟨s, found⟩ := read.instance_found (k := o.owner) (by
    have pointer := op_pointer present₂
    rw [owner₂] at pointer
    simp [due]
    omega)
  constructor
  · intro a
    rw [total_onInst found, read.balance]
    cases a <;> simp [due, Instance.net]
    grind
  · exact read.sound.onInst fun s _ ok => { ok with }

theorem limits_ledger (books : m.Books) (k : Key) (capacity budget responses : Int) :
    (m.limits k capacity budget responses).Books :=
  onInst_ledger books (fun _ _ => rfl) fun _ ok => { ok with }

theorem cancel_ledger (books : m.Books) (k : Key) : (m.cancel k).Books :=
  onOp_ledger books (fun _ a _ => by cases a <;> rfl) fun _ ok => { ok with }

theorem setHeader_ledger (books : m.Books) (r : Key) (bytes : Nat) (copied : Bool) :
    (m.setHeader r bytes copied).2.Books := by
  unfold setHeader
  cases found : m.responses.get r with
  | none => exact books
  | some response =>
    simp only
    cases charge : m.charge response.owner (.response r) (bytes + 2) with
    | none => exact books
    | some paid =>
      obtain ⟨s, owner, room, rfl⟩ := charge_eq_some.mp charge
      have booked := charge_ledger books (.response r) owner room
      constructor
      · intro a
        rw [total_onResponse (r := response), booked.balance]
        · cases a <;> simp [due, Response.net]
          all_goals grind
        · exact found
      · apply booked.sound.onResponse
        intro r _ ok
        have metadata := ok.metadata
        exact { ok with metadata := by change 0 ≤ r.metadataCharge + (bytes + 2); omega }

theorem makeResponse_ledger {sizes : Sizes} {k : Key} {count : Nat} {allocated : Bool}
    {o : Operation} {m' : Memory} (books : m.Books)
    (made : m.makeResponse sizes k count allocated = some m') (found : m.ops.get k = some o)
    (undelivered : o.delivered = false) (blank : o.event.response = none) : m'.Books := by
  simp only [makeResponse, found] at made
  split at made
  · cases made
  · split_ifs at made
    split at made
    · cases made
    · rename_i paid charge
      obtain ⟨s, owner, room, rfl⟩ := charge_eq_some.mp charge
      have booked := charge_ledger books (.response m.fresh) owner room
      have sound := booked.sound
      let metadata : Int := sizes.response + count * sizes.header
      have present : (m.charged o.owner (.response m.fresh) metadata).insts.get o.owner =
          some { s with charged := s.charged + metadata } := by
        simp [Memory.charged, onInst, owner]
      simp only [Option.some.injEq] at made
      subst made
      constructor
      · intro a
        rw [total_onOp (o := o), total_onInst (s := { s with charged := s.charged + metadata }),
          total_addResponse sound.absent.2.2.1, booked.balance]
        · cases a <;> simp [due, Operation.net, Instance.net, Response.net, Operation.bytes,
            undelivered, blank, one, metadata]
          all_goals grind
        · exact present
        · exact found
      · apply Sound.onOp
        · apply Sound.onInst
          · have next := sound.next
            refine { next with responses := next.responses.insert ?_, refunded := ?_ }
            · exact ⟨Nat.lt_succ_self _, Int.one_pos, le_refl 0, Int.add_nonneg
                (Int.natCast_nonneg _) (Int.mul_nonneg (Int.natCast_nonneg _) (Int.natCast_nonneg _))⟩
            · intro entry member
              refine (sound.refunded entry member).mono (Nat.le_succ _) ?_ ?_ ?_
              · exact fun _ _ absent => absent
              · intro key old absent
                rw [OrderedMap.get_insert_ne _ _ (Nat.ne_of_lt old)]
                exact absent
              · exact fun _ _ absent => absent
          · intro s _ ok
            have positive := ok.refs
            exact { ok with refs := by change 0 < s.refs + 1; omega }
        · exact fun o _ ok => { ok with }

theorem addChunk_ledger {k r : Key} {length : Nat} {allocated : Bool} {o : Operation}
    {m' : Memory} (books : m.Books) (made : m.addChunk k length allocated = some m')
    (found : m.ops.get k = some o) (response : o.response = some r)
    (undelivered : o.delivered = false) (blank : o.event.chunk = none) : m'.Books := by
  obtain ⟨read, reads⟩ := books.response_found (k := r) (by
    have user := op_user found (Or.inl response)
    omega)
  simp only [addChunk, found, response] at made
  split_ifs at made
  split at made
  · cases made
  · rename_i paid charge
    obtain ⟨s, owner, room, rfl⟩ := charge_eq_some.mp charge
    have booked := charge_ledger books (.chunk m.fresh) owner room
    have sound := booked.sound
    have present : (m.charged o.owner (.chunk m.fresh) length).insts.get o.owner =
        some { s with charged := s.charged + length } := by
      simp [Memory.charged, onInst, owner]
    simp only [Option.some.injEq] at made
    subst made
    constructor
    · intro a
      rw [total_onOp (o := o), total_onResponse (r := read),
        total_onInst (s := { s with charged := s.charged + length }),
        total_addChunk sound.absent.2.2.2, booked.balance]
      · cases a <;> simp [due, Operation.net, Instance.net, Response.net, Chunk.net, Operation.bytes,
          undelivered, blank, one]
        all_goals grind
      · exact present
      · exact reads
      · exact found
    · apply Sound.onOp
      · apply Sound.onResponse
        · apply Sound.onInst
          · have next := sound.next
            refine { next with chunks := next.chunks.insert ?_, refunded := ?_ }
            · exact ⟨Nat.lt_succ_self _, le_refl 0, Int.natCast_nonneg _⟩
            · intro entry member
              refine (sound.refunded entry member).mono (Nat.le_succ _) ?_ ?_ ?_
              · exact fun _ _ absent => absent
              · exact fun _ _ absent => absent
              · intro key old absent
                rw [OrderedMap.get_insert_ne _ _ (Nat.ne_of_lt old)]
                exact absent
          · intro s _ ok
            have positive := ok.refs
            exact { ok with refs := by change 0 < s.refs + 1; omega }
        · intro r _ ok
          have positive := ok.refs
          exact { ok with refs := by change 0 < r.refs + 1; omega }
      · exact fun o _ ok => { ok with }

theorem retireAll_ledger (books : m.Books) {keys : List Key} (live : m.live = keys) :
    (m.retireAll keys).Books := by
  induction keys generalizing m with
  | nil => exact books
  | cons k rest ih =>
    apply ih
    · refine retire_ledger ?_ ?_ (plain_zero.owing _)
      · exact onInst_ledger books (fun _ _ => rfl) fun _ ok => { ok with }
      · change k ∈ m.live
        simp [live]
    · simp [retire, unlinkInstance, onInst, live]

end Memory

end HttpServer.CAbi
