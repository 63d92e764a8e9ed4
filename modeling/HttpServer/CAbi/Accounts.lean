import HttpServer.CAbi.Memory
import Mathlib.Tactic.SplitIfs
import Mathlib.Tactic.Abel

set_option autoImplicit false

/-!
# Every counter has an account

An account collects what one counter says, less what the objects say that it counts. In the
middle of a function an account may be off by what the function still has to do; between two
critical sections every account is at zero.
-/

namespace HttpServer.CAbi

inductive Account where
  | retained | activeOps | instances
  | dues (holder : Holder) | charged (k : Key)
  | refs (k : Key) | active (k : Key) | notifications (k : Key) | responseCount (k : Key)
  | responseRefs (k : Key) | chunkCount (k : Key)
  | opRefs (k : Key) | chunkOwner (k : Key)
  deriving DecidableEq

def one (p : Prop) [Decidable p] : Int := if p then 1 else 0

theorem one_nonneg (p : Prop) [Decidable p] : 0 ≤ one p := by
  unfold one
  split_ifs <;> omega

@[simp] theorem one_true : one True = 1 := rfl
@[simp] theorem one_false : one False = 0 := rfl

def due (a : Account) (n : Int) : Account → Int := fun b => if a = b then n else 0

def Instance.net (k : Key) (s : Instance) : Account → Int
  | .refs key => if k = key then s.refs - s.held else 0
  | .active key => if k = key then s.active else 0
  | .notifications key => if k = key then s.notifications else 0
  | .responseCount key => if k = key then s.responseCount else 0
  | .charged key => if k = key then s.charged else 0
  | _ => 0

def Operation.bytes (o : Operation) : Int := o.inputCharge + o.allocationCharge

def Operation.net (k : Key) (o : Operation) : Account → Int
  | .retained => -o.bytes
  | .dues holder => if .operation k = holder then -o.bytes else 0
  | .charged key => if o.owner = key then -o.bytes else 0
  | .activeOps => -one (o.finished = false)
  | .refs key => -one (o.owner = key) - one (o.delivered = false ∧ o.event.handle = some key)
  | .active key => -one (o.owner = key ∧ o.done = false)
  | .notifications key => -one (o.owner = key ∧ o.finished = false)
  | .responseRefs key =>
      -one (o.response = some key) - one (o.delivered = false ∧ o.event.response = some key)
  | .opRefs key => if k = key then o.refs - o.held - one (o.finished = false) else 0
  | .chunkOwner key => -one (o.delivered = false ∧ o.event.chunk = some key)
  | _ => 0

def Response.net (k : Key) (r : Response) : Account → Int
  | .retained => -r.metadataCharge
  | .dues holder => if .response k = holder then -r.metadataCharge else 0
  | .charged key => if r.owner = key then -r.metadataCharge else 0
  | .refs key => -one (r.owner = key)
  | .responseCount key => -one (r.owner = key)
  | .responseRefs key => if k = key then r.refs - r.held else 0
  | .chunkCount key => if k = key then r.chunks else 0
  | _ => 0

def Chunk.net (k : Key) (c : Chunk) : Account → Int
  | .retained => -c.length
  | .dues holder => if .chunk k = holder then -c.length else 0
  | .charged key => if c.owner = key then -c.length else 0
  | .refs key => -one (c.owner = key)
  | .responseRefs key => -one (c.response = key)
  | .chunkCount key => -one (c.response = key)
  | .chunkOwner key => if k = key then 1 - c.held else 0
  | _ => 0

-- The bytes that a list of charges or refunds has for one object.
def bytesFor (holder : Holder) (entries : List (Holder × Int)) : Int :=
  ((entries.filter fun entry => entry.1 = holder).map Prod.snd).sum

theorem bytesFor_cons (holder other : Holder) (bytes : Int) (entries : List (Holder × Int)) :
    bytesFor holder ((other, bytes) :: entries) =
      (if other = holder then bytes else 0) + bytesFor holder entries := by
  by_cases same : other = holder <;> simp [bytesFor, same]

namespace Memory

def base (m : Memory) : Account → Int
  | .retained => m.retained
  | .activeOps => m.activeOps
  | .instances => m.instances - m.live.length
  | .dues holder => bytesFor holder m.charges - bytesFor holder m.refunds
  | .refs k => -one (k ∈ m.live)
  | _ => 0

def total (m : Memory) : Account → Int :=
  m.base + m.insts.sum Instance.net + m.ops.sum Operation.net + m.responses.sum Response.net +
    m.chunks.sum Chunk.net

end Memory

structure Instance.Sound (fresh k : Key) (s : Instance) : Prop where
  addressed : k < fresh
  refs : 0 < s.refs
  held : 0 ≤ s.held

structure Operation.Sound (fresh k : Key) (o : Operation) : Prop where
  addressed : k < fresh
  refs : 0 < o.refs
  held : 0 ≤ o.held
  input : 0 ≤ o.inputCharge
  allocation : 0 ≤ o.allocationCharge
  delivered : o.delivered = true → o.done = true
  finished : o.finished = true → o.delivered = true
  handle : o.done = false → o.event.handle = none

structure Operation.Unanswered (o : Operation) : Prop where
  done : o.done = false
  delivered : o.delivered = false
  finished : o.finished = false

def Event.Blank (event : Event) : Prop :=
  event.handle = none ∧ event.response = none ∧ event.chunk = none

structure Response.Sound (fresh k : Key) (r : Response) : Prop where
  addressed : k < fresh
  refs : 0 < r.refs
  held : 0 ≤ r.held
  metadata : 0 ≤ r.metadataCharge

structure Chunk.Sound (fresh k : Key) (c : Chunk) : Prop where
  addressed : k < fresh
  held : 0 ≤ c.held
  length : 0 ≤ c.length

namespace Memory

def Gone (m : Memory) : Holder → Prop
  | .operation k => k < m.fresh ∧ m.ops.get k = none
  | .response k => k < m.fresh ∧ m.responses.get k = none
  | .chunk k => k < m.fresh ∧ m.chunks.get k = none

theorem Gone.mono {m m' : Memory} {holder : Holder} (gone : m.Gone holder)
    (fresh : m.fresh ≤ m'.fresh)
    (ops : ∀ k < m.fresh, m.ops.get k = none → m'.ops.get k = none)
    (responses : ∀ k < m.fresh, m.responses.get k = none → m'.responses.get k = none)
    (chunks : ∀ k < m.fresh, m.chunks.get k = none → m'.chunks.get k = none) : m'.Gone holder := by
  cases holder with
  | operation k => exact ⟨gone.1.trans_le fresh, ops k gone.1 gone.2⟩
  | response k => exact ⟨gone.1.trans_le fresh, responses k gone.1 gone.2⟩
  | chunk k => exact ⟨gone.1.trans_le fresh, chunks k gone.1 gone.2⟩

structure Sound (m : Memory) : Prop where
  insts : m.insts.Each (Instance.Sound m.fresh)
  ops : m.ops.Each (Operation.Sound m.fresh)
  responses : m.responses.Each (Response.Sound m.fresh)
  chunks : m.chunks.Each (Chunk.Sound m.fresh)
  cap : m.retained ≤ cap
  live : m.live.Nodup
  addressed : ∀ k ∈ m.live, k < m.fresh
  refunded : ∀ entry ∈ m.refunds, m.Gone entry.1

theorem net_refs_nonpos (m : Memory) (k : Key) :
    m.base (.refs k) ≤ 0 ∧ m.ops.sum Operation.net (.refs k) ≤ 0 ∧
      m.responses.sum Response.net (.refs k) ≤ 0 ∧ m.chunks.sum Chunk.net (.refs k) ≤ 0 := by
  refine ⟨?_, ?_, ?_, ?_⟩
  · have live := one_nonneg (k ∈ m.live)
    simp only [base]
    omega
  · rw [OrderedMap.sum_apply]
    apply OrderedMap.sum_nonpos
    intro key o found
    have owned := one_nonneg (o.owner = k)
    have handing := one_nonneg (o.delivered = false ∧ o.event.handle = some k)
    simp only [Operation.net]
    omega
  · rw [OrderedMap.sum_apply]
    apply OrderedMap.sum_nonpos
    intro key r found
    have owned := one_nonneg (r.owner = k)
    simp only [Response.net]
    omega
  · rw [OrderedMap.sum_apply]
    apply OrderedMap.sum_nonpos
    intro key c found
    have owned := one_nonneg (c.owner = k)
    simp only [Chunk.net]
    omega

def pointers (m : Memory) (k : Key) : Int :=
  -(m.base (.refs k) + m.ops.sum Operation.net (.refs k) +
    m.responses.sum Response.net (.refs k) + m.chunks.sum Chunk.net (.refs k))

theorem pointers_nonneg (m : Memory) (k : Key) : 0 ≤ m.pointers k := by
  have parts := m.net_refs_nonpos k
  unfold pointers
  omega

theorem op_pointer {m : Memory} {key : Key} {o : Operation} (found : m.ops.get key = some o) :
    1 ≤ m.pointers o.owner := by
  have parts := m.net_refs_nonpos o.owner
  have here : m.ops.sum Operation.net (.refs o.owner) ≤ -1 := by
    rw [OrderedMap.sum_apply]
    calc m.ops.sum (fun key o' => o'.net key (.refs o.owner))
        ≤ o.net key (.refs o.owner) := by
          apply OrderedMap.sum_le found
          intro key o' found
          have owned := one_nonneg (o'.owner = o.owner)
          have handing := one_nonneg (o'.delivered = false ∧ o'.event.handle = some o.owner)
          simp only [Operation.net]
          omega
      _ ≤ -1 := by
          have handing := one_nonneg (o.delivered = false ∧ o.event.handle = some o.owner)
          simp only [Operation.net, one_true]
          omega
  unfold pointers
  omega

theorem response_pointer {m : Memory} {key : Key} {r : Response}
    (found : m.responses.get key = some r) : 1 ≤ m.pointers r.owner := by
  have parts := m.net_refs_nonpos r.owner
  have here : m.responses.sum Response.net (.refs r.owner) ≤ -1 := by
    rw [OrderedMap.sum_apply]
    refine (OrderedMap.sum_le found ?_).trans (by simp [Response.net])
    intro key r' found
    have owned := one_nonneg (r'.owner = r.owner)
    simp only [Response.net]
    omega
  unfold pointers
  omega

theorem chunk_pointer {m : Memory} {key : Key} {c : Chunk} (found : m.chunks.get key = some c) :
    1 ≤ m.pointers c.owner := by
  have parts := m.net_refs_nonpos c.owner
  have here : m.chunks.sum Chunk.net (.refs c.owner) ≤ -1 := by
    rw [OrderedMap.sum_apply]
    refine (OrderedMap.sum_le found ?_).trans (by simp [Chunk.net])
    intro key c' found
    have owned := one_nonneg (c'.owner = c.owner)
    simp only [Chunk.net]
    omega
  unfold pointers
  omega

theorem total_eq (m : Memory) (a : Account) :
    m.total a = m.base a + m.insts.sum Instance.net a + m.ops.sum Operation.net a +
      m.responses.sum Response.net a + m.chunks.sum Chunk.net a := rfl

/-- `d` is what the accounts are off by. -/
structure Ledger (d : Account → Int) (m : Memory) : Prop where
  balance : ∀ a, m.total a = d a
  sound : m.Sound

section

variable {d : Account → Int} {m : Memory}

theorem insts_refs (m : Memory) (k : Key) :
    m.insts.sum Instance.net (.refs k) = (m.insts.get k).elim 0 fun s => s.refs - s.held := by
  rw [OrderedMap.sum_apply, OrderedMap.sum_single m.insts k]
  · simp [Instance.net]
  · intro key s other
    simp [Instance.net, other]

theorem Ledger.refs (ledger : Ledger d m) {k : Key} {s : Instance}
    (found : m.insts.get k = some s) : s.refs = s.held + m.pointers k + d (.refs k) := by
  have balance := ledger.balance (.refs k)
  rw [total_eq, insts_refs, found, Option.elim_some] at balance
  unfold pointers
  omega

theorem Ledger.instance_found (ledger : Ledger d m) {k : Key}
    (wanted : 0 < m.pointers k + d (.refs k)) : ∃ s, m.insts.get k = some s := by
  have balance := ledger.balance (.refs k)
  cases found : m.insts.get k with
  | some s => exact ⟨s, rfl⟩
  | none =>
    rw [total_eq, insts_refs, found, Option.elim_none] at balance
    unfold pointers at wanted
    omega

theorem Ledger.owed_found (ledger : Ledger d m) {k : Key} (owed : 0 < d (.refs k)) :
    ∃ s, m.insts.get k = some s := by
  have nonneg := m.pointers_nonneg k
  exact ledger.instance_found (by omega)

theorem Ledger.owner_found (ledger : Ledger d m) {k : Key} {o : Operation}
    (found : m.ops.get k = some o) (nonneg : 0 ≤ d (.refs o.owner)) :
    ∃ s, m.insts.get o.owner = some s := by
  have pointer := op_pointer found
  exact ledger.instance_found (by omega)

def Alone (m : Memory) (k : Key) : Prop :=
  (∀ key o, m.ops.get key = some o → o.owner ≠ k) ∧
    (∀ key r, m.responses.get key = some r → r.owner ≠ k) ∧
    ∀ key c, m.chunks.get key = some c → c.owner ≠ k

theorem alone_of_pointers {k : Key} (none : m.pointers k = 0) : m.Alone k := by
  refine ⟨?_, ?_, ?_⟩
  · rintro key o found rfl
    have pointer := op_pointer found
    omega
  · rintro key r found rfl
    have pointer := response_pointer found
    omega
  · rintro key c found rfl
    have pointer := chunk_pointer found
    omega

-- What `d` says about the counters of the instance at `k` itself.
def Settled (d : Account → Int) (k : Key) : Prop :=
  d (.active k) = 0 ∧ d (.notifications k) = 0 ∧ d (.responseCount k) = 0 ∧ d (.charged k) = 0

theorem Ledger.counters_of_alone (ledger : Ledger d m) {k : Key} {s : Instance}
    (found : m.insts.get k = some s) (alone : m.Alone k) :
    s.active = d (.active k) ∧ s.notifications = d (.notifications k) ∧
      s.responseCount = d (.responseCount k) ∧ s.charged = d (.charged k) := by
  have others (a : Account)
      (ops : ∀ key o, o.owner ≠ k → Operation.net key o a = 0)
      (responses : ∀ key r, r.owner ≠ k → Response.net key r a = 0)
      (chunks : ∀ key c, c.owner ≠ k → Chunk.net key c a = 0) (base : m.base a = 0) :
      m.insts.sum Instance.net a = d a := by
    have balance := ledger.balance a
    rw [total_eq, base, OrderedMap.sum_apply m.ops, OrderedMap.sum_apply m.responses,
      OrderedMap.sum_apply m.chunks,
      OrderedMap.sum_eq_zero fun key o found => ops key o (alone.1 key o found),
      OrderedMap.sum_eq_zero fun key r found => responses key r (alone.2.1 key r found),
      OrderedMap.sum_eq_zero fun key c found => chunks key c (alone.2.2 key c found)] at balance
    omega
  have own (a : Account) (single : ∀ key s, key ≠ k → Instance.net key s a = 0) :
      m.insts.sum Instance.net a = s.net k a := by
    rw [OrderedMap.sum_apply, OrderedMap.sum_single m.insts k single, found, Option.elim_some]
  refine ⟨?_, ?_, ?_, ?_⟩
  · rw [← others (.active k), own (.active k)]
    all_goals simp +contextual [Instance.net, Operation.net, Response.net, Chunk.net, base]
  · rw [← others (.notifications k), own (.notifications k)]
    all_goals simp +contextual [Instance.net, Operation.net, Response.net, Chunk.net, base]
  · rw [← others (.responseCount k), own (.responseCount k)]
    all_goals simp +contextual [Instance.net, Operation.net, Response.net, Chunk.net, base]
  · rw [← others (.charged k), own (.charged k)]
    all_goals simp +contextual [Instance.net, Operation.net, Response.net, Chunk.net, base]

theorem net_users_nonpos (m : Memory) (k : Key) :
    m.ops.sum Operation.net (.responseRefs k) ≤ 0 ∧
      m.chunks.sum Chunk.net (.responseRefs k) ≤ 0 := by
  constructor
  · rw [OrderedMap.sum_apply]
    apply OrderedMap.sum_nonpos
    intro key o found
    have used := one_nonneg (o.response = some k)
    have answering := one_nonneg (o.delivered = false ∧ o.event.response = some k)
    simp only [Operation.net]
    omega
  · rw [OrderedMap.sum_apply]
    apply OrderedMap.sum_nonpos
    intro key c found
    have used := one_nonneg (c.response = k)
    simp only [Chunk.net]
    omega

def users (m : Memory) (k : Key) : Int :=
  -(m.ops.sum Operation.net (.responseRefs k) + m.chunks.sum Chunk.net (.responseRefs k))

theorem users_nonneg (m : Memory) (k : Key) : 0 ≤ m.users k := by
  have parts := m.net_users_nonpos k
  unfold users
  omega

theorem op_user {k key : Key} {o : Operation} (found : m.ops.get key = some o)
    (uses : o.response = some k ∨ o.delivered = false ∧ o.event.response = some k) :
    1 ≤ m.users k := by
  have parts := m.net_users_nonpos k
  have here : m.ops.sum Operation.net (.responseRefs k) ≤ -1 := by
    rw [OrderedMap.sum_apply]
    refine (OrderedMap.sum_le found ?_).trans ?_
    · intro key o found
      have used := one_nonneg (o.response = some k)
      have answering := one_nonneg (o.delivered = false ∧ o.event.response = some k)
      simp only [Operation.net]
      omega
    · have used := one_nonneg (o.response = some k)
      have answering := one_nonneg (o.delivered = false ∧ o.event.response = some k)
      simp only [Operation.net]
      rcases uses with uses | uses
      · simp only [uses, one_true] at *
        omega
      · simp only [uses, and_self, one_true] at *
        omega
  unfold users
  omega

theorem chunk_user {k key : Key} {c : Chunk} (found : m.chunks.get key = some c)
    (uses : c.response = k) : 1 ≤ m.users k := by
  have parts := m.net_users_nonpos k
  have here : m.chunks.sum Chunk.net (.responseRefs k) ≤ -1 := by
    rw [OrderedMap.sum_apply]
    refine (OrderedMap.sum_le found ?_).trans (by simp [Chunk.net, uses])
    intro key c found
    have used := one_nonneg (c.response = k)
    simp only [Chunk.net]
    omega
  unfold users
  omega

theorem responses_refs (m : Memory) (k : Key) :
    m.responses.sum Response.net (.responseRefs k) =
      (m.responses.get k).elim 0 fun r => r.refs - r.held := by
  rw [OrderedMap.sum_apply, OrderedMap.sum_single m.responses k]
  · simp [Response.net]
  · intro key r other
    simp [Response.net, other]

theorem total_responseRefs (m : Memory) (k : Key) :
    m.total (.responseRefs k) = ((m.responses.get k).elim 0 fun r => r.refs - r.held) - m.users k := by
  have instances : m.insts.sum Instance.net (.responseRefs k) = 0 := by
    rw [OrderedMap.sum_apply]
    exact OrderedMap.sum_eq_zero fun _ _ _ => rfl
  rw [total_eq, responses_refs, instances, show m.base (.responseRefs k) = 0 from rfl, users]
  omega

theorem Ledger.responseRefs (ledger : Ledger d m) {k : Key} {r : Response}
    (found : m.responses.get k = some r) : r.refs = r.held + m.users k + d (.responseRefs k) := by
  have balance := ledger.balance (.responseRefs k)
  rw [total_responseRefs, found, Option.elim_some] at balance
  omega

theorem Ledger.response_found (ledger : Ledger d m) {k : Key}
    (wanted : 0 < m.users k + d (.responseRefs k)) : ∃ r, m.responses.get k = some r := by
  have balance := ledger.balance (.responseRefs k)
  cases found : m.responses.get k with
  | some r => exact ⟨r, rfl⟩
  | none =>
    rw [total_responseRefs, found, Option.elim_none] at balance
    omega

-- The chunks of a response are those that point to it.
theorem Ledger.chunks (ledger : Ledger d m) {k : Key} {r : Response}
    (found : m.responses.get k = some r) :
    r.chunks = (m.chunks.sum fun _ c => one (c.response = k)) + d (.chunkCount k) := by
  have balance := ledger.balance (.chunkCount k)
  have instances : m.insts.sum Instance.net (.chunkCount k) = 0 := by
    rw [OrderedMap.sum_apply]
    exact OrderedMap.sum_eq_zero fun _ _ _ => rfl
  have ops : m.ops.sum Operation.net (.chunkCount k) = 0 := by
    rw [OrderedMap.sum_apply]
    exact OrderedMap.sum_eq_zero fun _ _ _ => rfl
  have own : m.responses.sum Response.net (.chunkCount k) = r.chunks := by
    rw [OrderedMap.sum_apply, OrderedMap.sum_single m.responses k, found, Option.elim_some]
    · simp [Response.net]
    · intro key r other
      simp [Response.net, other]
  have pieces : m.chunks.sum Chunk.net (.chunkCount k) =
      -(m.chunks.sum fun _ c => one (c.response = k)) := by
    rw [OrderedMap.sum_apply, ← OrderedMap.sum_neg]
    rfl
  rw [total_eq, show m.base (.chunkCount k) = 0 from rfl, instances, ops, own, pieces] at balance
  omega

theorem Ledger.cast {d' : Account → Int} (ledger : Ledger d m) (same : ∀ a, d a = d' a) :
    Ledger d' m :=
  ⟨fun a => (ledger.balance a).trans (same a), ledger.sound⟩

@[simp] theorem base_onInst (k : Key) (f : Instance → Instance) :
    (m.onInst k f).base = m.base := by
  funext a
  cases a <;> rfl

@[simp] theorem base_onOp (k : Key) (f : Operation → Operation) : (m.onOp k f).base = m.base := by
  funext a
  cases a <;> rfl

@[simp] theorem base_onResponse (k : Key) (f : Response → Response) :
    (m.onResponse k f).base = m.base := by
  funext a
  cases a <;> rfl

@[simp] theorem base_onChunk (k : Key) (f : Chunk → Chunk) : (m.onChunk k f).base = m.base := by
  funext a
  cases a <;> rfl

-- Only what is outside the objects has changed.
theorem total_rebase {m' : Memory} (same : m'.insts = m.insts ∧ m'.ops = m.ops ∧
    m'.responses = m.responses ∧ m'.chunks = m.chunks) (a : Account) :
    m'.total a = m.total a - m.base a + m'.base a := by
  obtain ⟨insts, ops, responses, chunks⟩ := same
  rw [total_eq, total_eq, insts, ops, responses, chunks]
  abel

theorem total_onInst {k : Key} {s : Instance} (found : m.insts.get k = some s)
    (f : Instance → Instance) (a : Account) :
    (m.onInst k f).total a = m.total a - s.net k a + (f s).net k a := by
  rw [total_eq, base_onInst, total_eq]
  change _ + (m.insts.modify k f).sum Instance.net a + _ + _ + _ = _
  rw [OrderedMap.sum_modify found]
  change _ + (m.insts.sum Instance.net a - s.net k a + (f s).net k a) + m.ops.sum Operation.net a +
    m.responses.sum Response.net a + m.chunks.sum Chunk.net a = _
  abel

theorem total_onOp {k : Key} {o : Operation} (found : m.ops.get k = some o)
    (f : Operation → Operation) (a : Account) :
    (m.onOp k f).total a = m.total a - o.net k a + (f o).net k a := by
  rw [total_eq, base_onOp, total_eq]
  change _ + _ + (m.ops.modify k f).sum Operation.net a + _ + _ = _
  rw [OrderedMap.sum_modify found]
  change _ + m.insts.sum Instance.net a + (m.ops.sum Operation.net a - o.net k a + (f o).net k a) +
    m.responses.sum Response.net a + m.chunks.sum Chunk.net a = _
  abel

theorem total_onResponse {k : Key} {r : Response} (found : m.responses.get k = some r)
    (f : Response → Response) (a : Account) :
    (m.onResponse k f).total a = m.total a - r.net k a + (f r).net k a := by
  rw [total_eq, base_onResponse, total_eq]
  change _ + _ + _ + (m.responses.modify k f).sum Response.net a + _ = _
  rw [OrderedMap.sum_modify found]
  change _ + m.insts.sum Instance.net a + m.ops.sum Operation.net a +
    (m.responses.sum Response.net a - r.net k a + (f r).net k a) + m.chunks.sum Chunk.net a = _
  abel

theorem total_onChunk {k : Key} {c : Chunk} (found : m.chunks.get k = some c)
    (f : Chunk → Chunk) (a : Account) :
    (m.onChunk k f).total a = m.total a - c.net k a + (f c).net k a := by
  rw [total_eq, base_onChunk, total_eq]
  change _ + _ + _ + _ + (m.chunks.modify k f).sum Chunk.net a = _
  rw [OrderedMap.sum_modify found]
  change _ + m.insts.sum Instance.net a + m.ops.sum Operation.net a +
    m.responses.sum Response.net a + (m.chunks.sum Chunk.net a - c.net k a + (f c).net k a) = _
  abel

theorem Sound.onInst (sound : m.Sound) {k : Key} {f : Instance → Instance}
    (here : ∀ s, m.insts.get k = some s → s.Sound m.fresh k → (f s).Sound m.fresh k) :
    (m.onInst k f).Sound :=
  { sound with insts := sound.insts.modify here }

theorem Sound.onOp (sound : m.Sound) {k : Key} {f : Operation → Operation}
    (here : ∀ o, m.ops.get k = some o → o.Sound m.fresh k → (f o).Sound m.fresh k) :
    (m.onOp k f).Sound where
  __ := sound
  ops := sound.ops.modify here
  refunded entry member := by
    refine (sound.refunded entry member).mono (le_refl m.fresh) ?_ ?_ ?_ <;>
      exact fun k _ absent => by simpa [Memory.onOp] using absent

theorem Sound.onResponse (sound : m.Sound) {k : Key} {f : Response → Response}
    (here : ∀ r, m.responses.get k = some r → r.Sound m.fresh k → (f r).Sound m.fresh k) :
    (m.onResponse k f).Sound where
  __ := sound
  responses := sound.responses.modify here
  refunded entry member := by
    refine (sound.refunded entry member).mono (le_refl m.fresh) ?_ ?_ ?_ <;>
      exact fun k _ absent => by simpa [Memory.onResponse] using absent

theorem Sound.onChunk (sound : m.Sound) {k : Key} {f : Chunk → Chunk}
    (here : ∀ c, m.chunks.get k = some c → c.Sound m.fresh k → (f c).Sound m.fresh k) :
    (m.onChunk k f).Sound where
  __ := sound
  chunks := sound.chunks.modify here
  refunded entry member := by
    refine (sound.refunded entry member).mono (le_refl m.fresh) ?_ ?_ ?_ <;>
      exact fun k _ absent => by simpa [Memory.onChunk] using absent

end

end Memory

end HttpServer.CAbi
