import HttpServer.CAbi.Memory
import HttpServer.Library.Transition

set_option autoImplicit false

/-!
# Host, owner and notifier

One step is what a thread does in one critical section, or the owner between two suspensions.
Every step that takes the mutex needs it free; only the byte that `wake_owner` writes is a step
of its own, since the owner reads the pipe without the mutex.
-/

namespace HttpServer.CAbi

/-- `state`; `attached` is also when `wake_fd` is open. -/
inductive Phase where
  | off | starting | attached | retiring | ended
  deriving DecidableEq

/-- `waking` and `written`: a thread is in `wake_owner` before and after its write. -/
inductive Lock where
  | free | waking | written
  deriving DecidableEq

inductive Owner where
  | absent | starting
  -- the loop of `run`
  | reading | acking | popping | cancelling (rest : List Key) | checking
  -- the loop has ended; `owner_main` with the command that it took off the queue
  | leaving | draining (hand : Option Key)
  deriving DecidableEq

inductive Notifier where
  | absent | waiting | calling (k : Key) | joining
  deriving DecidableEq

inductive Stage where
  | spawned | working | configured
  | responding (left : Nat) (valid : Bool)
  | chunked (code : Code)
  -- waits on `changed`, on the scope of the server, for the engine, and on `changed` again
  | waiting (woken : Bool) | stopping (woken : Bool) | shutting | draining (woken : Bool)
  deriving DecidableEq

structure Task where
  stage : Stage
  -- `task.cancel()` was called
  marked : Bool
  deriving DecidableEq

structure Entry where
  key : Key
  owner : Key
  kind : Kind
  deriving DecidableEq

structure State where
  memory : Memory
  phase : Phase
  ownerDone : Bool
  commands : List Key
  notices : List Key
  wakePending : Bool
  -- bytes in the wake pipe
  pipe : Nat
  lock : Lock
  owner : Owner
  tasks : OrderedMap Key Task
  -- servers that run, with their `stopping`
  scopes : OrderedMap Key Bool
  notifier : Notifier
  /- history: what was queued, completed and taken by the notifier, and the responses whose
  release found no operation -/
  queued : List Entry
  completed : List Entry
  taken : List Entry
  refused : List Key

structure Platform where
  sizes : Sizes
  pipe : Nat
  pipe_pos : 0 < pipe

namespace State

def initial : State where
  memory := .empty
  phase := .off
  ownerDone := false
  commands := []
  notices := []
  wakePending := false
  pipe := 0
  lock := .free
  owner := .absent
  tasks := ∅
  scopes := ∅
  notifier := .absent
  queued := []
  completed := []
  taken := []
  refused := []

def wake (s : State) : State := { s with lock := .waking }

def entries (s : State) (k : Key) : List Entry :=
  match s.memory.ops.get k with
  | some o => [⟨k, o.owner, o.kind⟩]
  | none => []

def enqueue (s : State) (k : Key) : State :=
  { s with commands := s.commands ++ [k], queued := s.queued ++ s.entries k }.wake

def writeByte (p : Platform) (s : State) : State :=
  if s.wakePending ∨ s.phase ≠ .attached then { s with lock := .free }
  else if s.pipe < p.pipe then { s with pipe := s.pipe + 1, lock := .written }
  else { s with lock := .free }

end State

structure CreateCall where
  kind : Kind
  length : Nat
  given : Bool
  notifierStarts : Bool
  ownerStarts : Bool
  instanceAllocated : Bool
  operationAllocated : Bool
  inputAllocated : Bool

structure SubmitCall where
  given : Bool
  abi : Bool
  method : Nat
  target : Nat
  headersGiven : Bool
  headers : List (Nat × Nat)
  operationAllocated : Bool
  copied : Bool

namespace State

-- In the phases that end a runtime this is the notifier's answer; a host thread waits until
-- the runtime is reaped.
def startRuntime (s : State) (c : CreateCall) : Bool × State :=
  match s.phase with
  | .retiring | .ended => (false, s)
  | .starting | .attached => (true, s)
  | .off =>
      let s := { s with ownerDone := false, memory := { s.memory with nextId := 1 } }
      if !c.notifierStarts then (false, s)
      else if !c.ownerStarts then
        (false, { s with phase := .retiring, ownerDone := true, notifier := .waiting })
      else (true, { s with phase := .starting, owner := .starting, notifier := .waiting })

def createAsync (p : Platform) (s : State) (c : CreateCall) : Code × State :=
  if !c.given ∨ c.length > 1048576 then (.invalidArg, s)
  else if s.memory.activeOps ≥ 256 ∨ s.memory.instances ≥ 1024 then (.limit, s)
  else
    match s.startRuntime c with
    | (false, s) => (.io, s)
    | (true, s) =>
        if s.memory.nextId ≥ intMax - 1 then (.limit, s)
        else if !c.instanceAllocated then (.limit, s.wake)
        else
          match s.memory.create p.sizes c.kind c.length c.operationAllocated c.inputAllocated with
          | (none, m) => (.limit, { s with memory := m }.wake)
          | (some k, m) => (.ok, { s with memory := m }.enqueue k)

def closeAsync (p : Platform) (s : State) (i : Key) (given allocated : Bool) : Code × State :=
  match s.memory.insts.get i with
  | none => (.invalidArg, s)
  | some inst =>
      if !given then (.invalidArg, s)
      else if inst.closing then (.closed, s)
      else
        match s.memory.startClosing p.sizes i inst.server allocated with
        | none => (.limit, s)
        | some (k, m) => (.ok, { s with memory := m }.enqueue k)

def headerTotal : Nat → List (Nat × Nat) → Option Nat
  | total, [] => some total
  | total, (name, value) :: rest =>
      if name > 65536 ∨ value > 65536 then none
      else if total + (name + value) > 65536 then none
      else headerTotal (total + (name + value)) rest

def submitAsync (p : Platform) (s : State) (i : Key) (c : SubmitCall) : Code × State :=
  match s.memory.insts.get i with
  | none => (.invalidArg, s)
  | some inst =>
      if !c.given then (.invalidArg, s)
      else if !c.abi then (.abiMismatch, s)
      else if c.headers.length > 256 ∨ (c.headers ≠ [] ∧ !c.headersGiven) then (.limit, s)
      else if c.method > 64 ∨ c.target > 16384 then (.limit, s)
      else
        match headerTotal (c.method + c.target) c.headers with
        | none => (.limit, s)
        | some total =>
            if inst.closing then (.closed, s)
            else if inst.active ≥ inst.capacity then (.limit, s)
            else
              let cost := total + c.headers.length * (p.sizes.header + 2) + 2
              match s.memory.submit p.sizes i cost c.operationAllocated c.copied with
              | (_, some k, m) => (.ok, { s with memory := m }.enqueue k)
              | (code, none, m) => (code, { s with memory := m })

def readAsync (p : Platform) (s : State) (r : Key) (given allocated : Bool) : Code × State :=
  match s.memory.responses.get r with
  | none => (.invalidArg, s)
  | some response =>
      match s.memory.insts.get response.owner with
      | none => (.invalidArg, s)
      | some inst =>
          if !given then (.invalidArg, s)
          else if response.released ∨ inst.closing then (.closed, s)
          else if response.reading then (.busy, s)
          else if inst.active ≥ inst.capacity then (.limit, s)
          else
            match s.memory.read p.sizes response.owner r allocated with
            | none => (.limit, s)
            | some (k, m) => (.ok, { s with memory := m }.enqueue k)

def operationCancel (s : State) (k : Key) : State :=
  match s.memory.ops.get k with
  | none => s
  | some o =>
      if !o.done ∧ o.kind.business then { s with memory := s.memory.cancel k }.wake else s

def responseRelease (p : Platform) (s : State) (r : Key) (allocated : Bool) : State :=
  match s.memory.responses.get r with
  | none => s
  | some response =>
      match s.memory.releaseResponse p.sizes r allocated with
      | (some k, m) => { s with memory := m }.enqueue k
      | (none, m) =>
          let missed := !response.released ∧
            !(s.memory.insts.get response.owner).any (·.closing)
          { s with memory := m, refused := if missed then r :: s.refused else s.refused }

end State

inductive Call where
  | create (c : CreateCall)
  | close (i : Key) (given allocated : Bool)
  | submit (i : Key) (c : SubmitCall)
  | read (r : Key) (given allocated : Bool)
  | cancel (k : Key)
  | releaseInstance (i : Key)
  | releaseOperation (k : Key)
  | releaseResponse (r : Key) (allocated : Bool)
  | releaseChunk (c : Key)

namespace Call

-- The host uses the handles that it was given and has not returned.
def legal (m : Memory) : Call → Bool
  | create c => c.kind.creates
  | close i _ _ | releaseInstance i => (m.insts.get i).any fun s => 0 < s.held
  | submit i _ => (m.insts.get i).any fun s => 0 < s.held && !s.server
  | read r _ _ | releaseResponse r _ => (m.responses.get r).any fun r => 0 < r.held
  | cancel k | releaseOperation k => (m.ops.get k).any fun o => 0 < o.held
  | releaseChunk c => (m.chunks.get c).any fun c => 0 < c.held

def run (p : Platform) (s : State) : Call → Code × State
  | create c => s.createAsync p c
  | close i given allocated => s.closeAsync p i given allocated
  | submit i c => s.submitAsync p i c
  | read r given allocated => s.readAsync p r given allocated
  | cancel k => (.ok, s.operationCancel k)
  | releaseInstance i => (.ok, { s with memory := s.memory.releaseInstance i })
  | releaseOperation k => (.ok, { s with memory := s.memory.releaseOperation k })
  | releaseResponse r allocated => (.ok, s.responseRelease p r allocated)
  | releaseChunk c => (.ok, { s with memory := s.memory.releaseChunk c }.wake)

end Call

end HttpServer.CAbi
