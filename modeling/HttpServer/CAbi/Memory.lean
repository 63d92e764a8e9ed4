import HttpServer.Library.OrderedMap

set_option autoImplicit false

/-!
# Handles and charges of the bridge

Objects live at addresses that are never used again. What the C structures do not have:
`held` counts the references that the host was given and has not returned, `delivered` and
`finished` say how far the notifier is with an operation, and `charges` and `refunds` record
every charge and its return with the object they are for.
-/

namespace HttpServer.CAbi

abbrev Key := Nat

inductive Code where
  | ok | config | invalidArg | io | closed | unsupported | upstream | timeout | cancelled
  | fileChanged | limit | busy | abiMismatch
  deriving DecidableEq

inductive ResultKind where
  | done | engine | server | handled | next | chunk | eof
  deriving DecidableEq

/-- Operation kinds 1 to 7. -/
inductive Kind where
  | createEngine | startServer | submit | read | closeEngine | stopServer | release
  deriving DecidableEq

-- `kind <= 4`
def Kind.business : Kind → Bool
  | .createEngine | .startServer | .submit | .read => true
  | .closeEngine | .stopServer | .release => false

def Kind.creates : Kind → Bool
  | .createEngine | .startServer => true
  | _ => false

def Kind.closes : Kind → Bool
  | .closeEngine | .stopServer => true
  | _ => false

structure Instance where
  refs : Int
  id : Nat
  server : Bool
  closing : Bool
  closed : Bool
  active : Int
  notifications : Int
  capacity : Int
  responseCount : Int
  responseLimit : Int
  budget : Int
  charged : Int
  held : Int
  deriving DecidableEq

structure Event where
  code : Code
  kind : ResultKind
  -- `engine` or `server`
  handle : Option Key
  response : Option Key
  chunk : Option Key
  deriving DecidableEq

structure Operation where
  refs : Int
  id : Nat
  kind : Kind
  cancelled : Bool
  done : Bool
  owner : Key
  response : Option Key
  inputCharge : Int
  allocationCharge : Int
  event : Event
  held : Int
  -- the callback has the event
  delivered : Bool
  -- the notifier has given its reference back
  finished : Bool
  deriving DecidableEq

structure Response where
  refs : Int
  reading : Bool
  released : Bool
  chunks : Int
  owner : Key
  metadataCharge : Int
  held : Int
  deriving DecidableEq

structure Chunk where
  owner : Key
  response : Key
  length : Int
  held : Int
  deriving DecidableEq

inductive Holder where
  | operation (k : Key) | response (k : Key) | chunk (k : Key)
  deriving DecidableEq

structure Memory where
  insts : OrderedMap Key Instance
  ops : OrderedMap Key Operation
  responses : OrderedMap Key Response
  chunks : OrderedMap Key Chunk
  -- the next address
  fresh : Key
  live : List Key
  instances : Int
  activeOps : Int
  nextId : Nat
  retained : Int
  charges : List (Holder × Int)
  refunds : List (Holder × Int)
  deriving DecidableEq

structure Sizes where
  operation : Nat
  header : Nat
  response : Nat

def intMax : Nat := 2147483647

namespace Memory

def empty : Memory where
  insts := ∅
  ops := ∅
  responses := ∅
  chunks := ∅
  fresh := 0
  live := []
  instances := 0
  activeOps := 0
  nextId := 1
  retained := 0
  charges := []
  refunds := []

def onInst (m : Memory) (k : Key) (f : Instance → Instance) : Memory :=
  { m with insts := m.insts.modify k f }

def onOp (m : Memory) (k : Key) (f : Operation → Operation) : Memory :=
  { m with ops := m.ops.modify k f }

def onResponse (m : Memory) (k : Key) (f : Response → Response) : Memory :=
  { m with responses := m.responses.modify k f }

def onChunk (m : Memory) (k : Key) (f : Chunk → Chunk) : Memory :=
  { m with chunks := m.chunks.modify k f }

def cap : Int := 67108864

def charge (m : Memory) (k : Key) (holder : Holder) (bytes : Int) : Option Memory :=
  match m.insts.get k with
  | none => none
  | some s =>
      if bytes > s.budget ∨ s.charged > s.budget - bytes ∨ bytes > cap ∨
          m.retained > cap - bytes then none
      else some ({ m with
        retained := m.retained + bytes
        charges := (holder, bytes) :: m.charges }.onInst k fun s =>
          { s with charged := s.charged + bytes })

def uncharge (m : Memory) (k : Key) (holder : Holder) (bytes : Int) : Memory :=
  { m with
    retained := m.retained - bytes
    refunds := (holder, bytes) :: m.refunds }.onInst k fun s =>
      { s with charged := s.charged - bytes }

def instanceDrop (m : Memory) (k : Key) : Memory :=
  match m.insts.get k with
  | none => m
  | some s =>
      if s.refs = 1 then { m with insts := m.insts.erase k }
      else m.onInst k fun s => { s with refs := s.refs - 1 }

-- The object goes first; what it pointed to is read before.
def responseDrop (m : Memory) (k : Key) : Memory :=
  match m.responses.get k with
  | none => m
  | some r =>
      if r.refs = 1 then
        let m := { m with responses := m.responses.erase k }
        let m := m.uncharge r.owner (.response k) r.metadataCharge
        let m := m.onInst r.owner fun s => { s with responseCount := s.responseCount - 1 }
        m.instanceDrop r.owner
      else m.onResponse k fun r => { r with refs := r.refs - 1 }

def dropResponse? (m : Memory) : Option Key → Memory
  | some k => m.responseDrop k
  | none => m

def opFree (m : Memory) (k : Key) (o : Operation) : Memory :=
  let m := { m with ops := m.ops.erase k }
  let m := if o.inputCharge ≠ 0 then m.uncharge o.owner (.operation k) o.inputCharge else m
  let m := if o.allocationCharge ≠ 0 then m.uncharge o.owner (.operation k) o.allocationCharge else m
  (m.dropResponse? o.response).instanceDrop o.owner

def opDrop (m : Memory) (k : Key) : Memory :=
  match m.ops.get k with
  | none => m
  | some o =>
      if o.refs = 1 then m.opFree k o
      else m.onOp k fun o => { o with refs := o.refs - 1 }

def unlinkInstance (m : Memory) (k : Key) : Memory := { m with live := m.live.erase k }

def newInstance (m : Memory) (server : Bool) : Instance where
  refs := 1
  id := m.nextId
  server
  closing := false
  closed := false
  active := 0
  notifications := 0
  capacity := 256
  responseCount := 0
  responseLimit := 1024
  budget := 67108864
  charged := 0
  held := 0

def addInstance (m : Memory) (server : Bool) : Memory :=
  { m with
    insts := m.insts.insert m.fresh (m.newInstance server)
    fresh := m.fresh + 1
    nextId := m.nextId + 1 }

def link (m : Memory) (k : Key) : Memory :=
  { m with live := k :: m.live, instances := m.instances + 1 }

def newOperation (m : Memory) (kind : Kind) (k : Key) (allocationCharge : Int) : Operation where
  refs := 2
  id := m.nextId
  kind
  cancelled := false
  done := false
  owner := k
  response := none
  inputCharge := 0
  allocationCharge
  event := ⟨.ok, .done, none, none, none⟩
  held := 1
  delivered := false
  finished := false

def addOp (m : Memory) (kind : Kind) (k : Key) (allocationCharge : Int) : Key × Memory :=
  (m.fresh,
    { m with
      ops := m.ops.insert m.fresh (m.newOperation kind k allocationCharge)
      fresh := m.fresh + 1
      nextId := m.nextId + 1
      activeOps := m.activeOps + 1 }.onInst k fun s => { s with
        refs := s.refs + 1
        active := s.active + 1
        notifications := s.notifications + 1 })

-- `allocated` is whether `calloc` gave memory.
def newOp (sizes : Sizes) (m : Memory) (kind : Kind) (k : Key) (allocated : Bool) :
    Option (Key × Memory) :=
  if m.nextId = intMax then none
  else if !allocated then none
  else if kind.business then
    match m.charge k (.operation m.fresh) sizes.operation with
    | none => none
    | some m => some (m.addOp kind k sizes.operation)
  else some (m.addOp kind k 0)

def chargeInput (m : Memory) (k : Key) (bytes : Int) : Option Memory :=
  match m.ops.get k with
  | none => none
  | some o => (m.charge o.owner (.operation k) bytes).map fun m =>
      m.onOp k fun o => { o with inputCharge := bytes }

def useResponse (m : Memory) (k r : Key) : Memory :=
  (m.onOp k fun o => { o with response := some r }).onResponse r fun r =>
    { r with refs := r.refs + 1 }

def abandon (m : Memory) (k : Key) : Memory :=
  match m.ops.get k with
  | none => m
  | some o =>
      let m := { m with activeOps := m.activeOps - 1 }.onInst o.owner fun s => { s with
        active := s.active - 1, notifications := s.notifications - 1 }
      (m.onOp k fun o => { o with refs := 1 }).opDrop k

-- Instance, operation and the copy of the configuration; the flags say which of the
-- allocations give memory.
def create (sizes : Sizes) (m : Memory) (kind : Kind) (length : Nat)
    (operationAllocated inputAllocated : Bool) : Option Key × Memory :=
  let i := m.fresh
  let m := m.addInstance (kind = .startServer)
  match m.newOp sizes kind i operationAllocated with
  | none => (none, m.instanceDrop i)
  | some (k, m) =>
      match m.chargeInput k (length + 1) with
      | none => (none, (m.abandon k).instanceDrop i)
      | some m =>
          if !inputAllocated then (none, (m.abandon k).instanceDrop i) else (some k, m.link i)

def resetResponse (m : Memory) (k : Key) (code : Code) (o : Operation) : Memory :=
  if code ≠ .ok ∧ o.event.response.isSome then
    (m.onOp k fun o => { o with event := { o.event with response := none } }).dropResponse?
      o.event.response
  else m

def retire (m : Memory) (k : Key) : Memory :=
  let m := m.unlinkInstance k
  { m with instances := m.instances - 1 }.instanceDrop k

def settleInstance (m : Memory) (k : Key) (code : Code) (o : Operation) : Memory :=
  if o.kind.creates then
    if code = .ok then
      (m.onInst o.owner fun s => { s with refs := s.refs + 1 }).onOp k fun o =>
        { o with event := { o.event with handle := some o.owner } }
    else
      (m.onInst o.owner fun s => { s with closing := true, closed := true }).retire o.owner
  else if o.kind.closes then
    (m.onInst o.owner fun s => { s with closed := true }).retire o.owner
  else m

def answer (code : Code) (kind : Option ResultKind) (o : Operation) : Operation :=
  { o with done := true, event := { o.event with code, kind := kind.getD o.event.kind } }

def endRead (m : Memory) (o : Operation) : Memory :=
  match o.response with
  | some r =>
      if o.kind = .read then m.onResponse r fun r => { r with reading := false } else m
  | none => m

-- `kind` is `none` where the source passes -1.
def complete (m : Memory) (k : Key) (code : Code) (kind : Option ResultKind) : Memory :=
  match m.ops.get k with
  | none => m
  | some o =>
      if o.done then m
      else
        let m := m.onOp k (answer code kind)
        let m := ((m.resetResponse k code o).settleInstance k code o).endRead o
        m.onInst o.owner fun s => { s with active := s.active - 1 }

def limits (m : Memory) (k : Key) (capacity budget responses : Int) : Memory :=
  m.onInst k fun s => { s with
    capacity, budget := budget % 18446744073709551616, responseLimit := responses }

-- `allocated` is whether both blocks were allocated; `none` is a null response.
def makeResponse (sizes : Sizes) (m : Memory) (k : Key) (count : Nat) (allocated : Bool) :
    Option Memory :=
  match m.ops.get k with
  | none => none
  | some o =>
      let metadataCharge : Int := sizes.response + count * sizes.header
      match m.insts.get o.owner with
      | none => none
      | some s =>
          if !allocated || decide (s.responseCount ≥ s.responseLimit) then none
          else
            match m.charge o.owner (.response m.fresh) metadataCharge with
            | none => none
            | some m =>
                let r : Response := ⟨1, false, false, 0, o.owner, metadataCharge, 0⟩
                let added := { m with
                  responses := m.responses.insert m.fresh r, fresh := m.fresh + 1 }.onInst o.owner
                    fun s => { s with responseCount := s.responseCount + 1, refs := s.refs + 1 }
                some (added.onOp k fun o => { o with
                  event := { o.event with response := some m.fresh, kind := .handled } })

-- Reserves the bytes of a header; what is reserved stays with the response even when its
-- text cannot be copied.
def setHeader (m : Memory) (r : Key) (bytes : Nat) (copied : Bool) : Bool × Memory :=
  match m.responses.get r with
  | none => (false, m)
  | some response =>
      match m.charge response.owner (.response r) (bytes + 2) with
      | none => (false, m)
      | some m =>
          (copied, m.onResponse r fun r => { r with
            metadataCharge := r.metadataCharge + (bytes + 2) })

-- `none` is `HS_ERR_LIMIT`.
def addChunk (m : Memory) (k : Key) (length : Nat) (allocated : Bool) : Option Memory :=
  match m.ops.get k with
  | none => none
  | some o =>
      match o.response with
      | none => none
      | some r =>
          if !allocated then none
          else
            match m.charge o.owner (.chunk m.fresh) length with
            | none => none
            | some m =>
                let added := { m with
                  chunks := m.chunks.insert m.fresh ⟨o.owner, r, length, 0⟩
                  fresh := m.fresh + 1 }.onInst o.owner fun s => { s with refs := s.refs + 1 }
                let counted := added.onResponse r fun r => { r with
                  refs := r.refs + 1, chunks := r.chunks + 1 }
                some (counted.onOp k fun o => { o with
                  event := { o.event with chunk := some m.fresh, kind := .chunk } })

def cancelled (m : Memory) (k : Key) : Bool :=
  match m.ops.get k with
  | none => false
  | some o =>
      o.cancelled ||
        (o.kind.business && (m.insts.get o.owner).any (·.closing)) ||
        (decide (o.kind = .read) && o.response.any fun r => (m.responses.get r).any (·.released))

def giveInstance? (m : Memory) : Option Key → Memory
  | some k => m.onInst k fun s => { s with held := s.held + 1 }
  | none => m

def giveResponse? (m : Memory) : Option Key → Memory
  | some k => m.onResponse k fun r => { r with held := r.held + 1 }
  | none => m

def giveChunk? (m : Memory) : Option Key → Memory
  | some k => m.onChunk k fun c => { c with held := c.held + 1 }
  | none => m

-- The callback takes over the handles of the event.
def deliver (m : Memory) (k : Key) : Memory :=
  match m.ops.get k with
  | none => m
  | some o =>
      let m := m.onOp k fun o => { o with delivered := true }
      ((m.giveInstance? o.event.handle).giveResponse? o.event.response).giveChunk? o.event.chunk

def finish (m : Memory) (k : Key) : Memory :=
  match m.ops.get k with
  | none => m
  | some o =>
      let m := { m with activeOps := m.activeOps - 1 }.onInst o.owner fun s => { s with
        notifications := s.notifications - 1 }
      (m.onOp k fun o => { o with finished := true }).opDrop k

def startClosing (sizes : Sizes) (m : Memory) (i : Key) (server allocated : Bool) :
    Option (Key × Memory) :=
  (m.newOp sizes (if server then .stopServer else .closeEngine) i allocated).map fun (k, m) =>
    (k, m.onInst i fun s => { s with closing := true })

-- `copied` is whether every text of the request could be copied.
def submit (sizes : Sizes) (m : Memory) (i : Key) (cost : Nat) (allocated copied : Bool) :
    Code × Option Key × Memory :=
  match m.newOp sizes .submit i allocated with
  | none => (.limit, none, m)
  | some (k, m) =>
      match m.chargeInput k cost with
      | none => (.limit, none, m.abandon k)
      | some m => if copied then (.ok, some k, m) else (.invalidArg, none, m.abandon k)

def read (sizes : Sizes) (m : Memory) (i r : Key) (allocated : Bool) : Option (Key × Memory) :=
  (m.newOp sizes .read i allocated).map fun (k, m) =>
    (k, (m.useResponse k r).onResponse r fun r => { r with reading := true })

def releaseInstance (m : Memory) (k : Key) : Memory :=
  (m.onInst k fun s => { s with held := s.held - 1 }).instanceDrop k

def releaseOperation (m : Memory) (k : Key) : Memory :=
  (m.onOp k fun o => { o with held := o.held - 1 }).opDrop k

-- The operation of a release has no callback and no handle.
def internalOp (sizes : Sizes) (m : Memory) (i r : Key) (allocated : Bool) :
    Option (Key × Memory) :=
  (m.newOp sizes .release i allocated).map fun (k, m) =>
    (k, (m.onOp k fun o => { o with refs := 1, held := 0 }).useResponse k r)

-- With the operation that the owner gets, if there is one.
def releaseResponse (sizes : Sizes) (m : Memory) (r : Key) (allocated : Bool) :
    Option Key × Memory :=
  match m.responses.get r with
  | none => (none, m)
  | some response =>
      let m := m.onResponse r fun r => { r with held := r.held - 1 }
      if response.released then (none, m.responseDrop r)
      else
        let m := m.onResponse r fun r => { r with released := true }
        if (m.insts.get response.owner).any (·.closing) then (none, m.responseDrop r)
        else
          match m.internalOp sizes response.owner r allocated with
          | none => (none, m.responseDrop r)
          | some (k, m) => (some k, m.responseDrop r)

def releaseChunk (m : Memory) (k : Key) : Memory :=
  match m.chunks.get k with
  | none => m
  | some c =>
      let m := { m with chunks := m.chunks.erase k }
      let m := m.uncharge c.owner (.chunk k) c.length
      let m := m.onResponse c.response fun r => { r with chunks := r.chunks - 1 }
      (m.responseDrop c.response).instanceDrop c.owner

def cancel (m : Memory) (k : Key) : Memory := m.onOp k fun o => { o with cancelled := true }

def retireAll (m : Memory) : List Key → Memory
  | [] => m
  | k :: rest =>
      ((m.onInst k fun s => { s with closed := true, closing := true }).retire k).retireAll rest

end Memory

end HttpServer.CAbi
