import HttpServer.CAbi.Bridge

set_option autoImplicit false

/-!
# The steps of the threads

Tasks run while the owner waits for the pipe. A label holds what the machine does not decide:
what the host asks, which allocations fail and how the work of a task comes out.
-/

namespace HttpServer.CAbi

namespace Stage

-- `changed.broadcast()`
def changed : Stage → Stage
  | waiting _ => waiting true
  | draining _ => draining true
  | stage => stage

-- `scope.wake.broadcast()`
def scopeEnds : Stage → Stage
  | stopping _ => stopping true
  | stage => stage

-- The task is suspended where a cancellation is seen; `engine.close()` is protected.
def suspended : Stage → Bool
  | working | configured | waiting _ | stopping _ | draining _ => true
  | spawned | responding _ _ | chunked _ | shutting => false

end Stage

def changed (tasks : OrderedMap Key Task) : OrderedMap Key Task :=
  tasks.mapValues fun _ task => { task with stage := task.stage.changed }

namespace State

def inst (s : State) (k : Key) : Option Key := (s.memory.ops.get k).map (·.owner)

def setStage (s : State) (k : Key) (stage : Stage) : State :=
  { s with tasks := s.tasks.modify k fun task => { task with stage } }

-- `hs_bridge_complete`
def complete (s : State) (k : Key) (code : Code) (kind : Option ResultKind) : State :=
  match s.memory.ops.get k with
  | none => s
  | some o =>
      if o.done then s
      else { s with
        memory := s.memory.complete k code kind
        notices := s.notices ++ [k]
        completed := s.completed ++ s.entries k }.wake

-- `complete`, and the task leaves `tasks`.
def settle (s : State) (k : Key) (code : Code) (kind : Option ResultKind) : State :=
  let s := s.complete k code kind
  { s with tasks := changed (s.tasks.erase k) }

def readReady (m : Memory) (k : Key) : Bool :=
  ((m.ops.get k).bind fun o => o.response.bind m.responses.get).any fun r => r.chunks = 0

def active (m : Memory) (k : Key) : Int :=
  ((m.ops.get k).bind fun o => m.insts.get o.owner).elim 0 (·.active)

-- `while active(op) > 1`
def drain (s : State) (k : Key) : State :=
  if active s.memory k > 1 then s.setStage k (.draining false)
  else s.settle k .ok (some .done)

def cancelOthers (s : State) (k : Key) : State :=
  { s with tasks := s.tasks.mapValues fun other task =>
      if s.inst other = s.inst k ∧ other ≠ k then { task with marked := true } else task }

-- Close of an engine or stop of a server; a scope is there while the server runs.
def close (s : State) (k i : Key) (kind : Kind) : State :=
  let s := s.cancelOthers k
  match s.scopes.get i with
  | some _ => { s with scopes := s.scopes.insert i true }.setStage k (.stopping false)
  | none => if kind = .closeEngine then s.setStage k .shutting else s.drain k

-- First run of a task; `found` is whether the runtime knows the response.
def begin (s : State) (k : Key) (o : Operation) (found : Bool) : State :=
  if o.kind.business && s.memory.cancelled k then s.settle k .cancelled (some .done)
  else
    match o.kind with
    | .createEngine | .startServer | .submit | .release => s.setStage k .working
    | .read =>
        if !found then s.settle k .closed (some .done)
        else if readReady s.memory k then s.setStage k .working
        else s.setStage k (.waiting false)
    | .closeEngine | .stopServer => s.close k o.owner o.kind

def doneKind : Kind → ResultKind
  | .createEngine => .engine
  | .startServer => .server
  | .submit => .next
  | .read => .eof
  | .closeEngine | .stopServer | .release => .done

-- The server is ready: its task goes on outside `tasks`, with a scope to be stopped by.
def ready (s : State) (k i : Key) : State :=
  let s := s.complete k .ok (some .server)
  { s with tasks := s.tasks.erase k, scopes := s.scopes.insert i false }

-- The work of a task ends. A configuration is checked before it can succeed, and what
-- `cancelled` says in the end is one more way to fail.
def finish (s : State) (k : Key) (o : Operation) (code : Code) : State :=
  if code ≠ .ok then s.settle k code (some .done)
  else if o.kind = .startServer then s.ready k o.owner
  else s.settle k .ok (some (doneKind o.kind))

def respond (p : Platform) (s : State) (k : Key) (count : Nat) (allocated : Bool) : State :=
  match s.memory.makeResponse p.sizes k count allocated with
  | none => s.settle k .limit (some .done)
  | some m => { s with memory := m }.setStage k (.responding count true)

def header (s : State) (k r : Key) (left : Nat) (valid : Bool) (bytes : Nat) (copied : Bool) :
    State :=
  let (reserved, m) := s.memory.setHeader r bytes copied
  { s with memory := m }.setStage k (.responding left (valid && reserved))

def chunk (s : State) (k : Key) (length : Nat) (allocated : Bool) : State :=
  match s.memory.addChunk k length allocated with
  | none => s.setStage k (.chunked .limit)
  | some m => { s with memory := m }.setStage k (.chunked .ok)

def check (s : State) (k i : Key) : Stage → State
  | .waiting _ => if readReady s.memory k then s.setStage k .working else s.setStage k (.waiting false)
  | .stopping _ =>
      match s.scopes.get i with
      | some _ => s.setStage k (.stopping false)
      | none => s.drain k
  | .draining _ => s.drain k
  | _ => s

def endScope (s : State) (i : Key) : State :=
  { s with
    scopes := s.scopes.erase i
    tasks := changed (s.tasks.mapValues fun k task =>
      if s.inst k = some i then { task with stage := task.stage.scopeEnds } else task) }

end State

inductive OwnerMove where
  | attach | bootstrapFails | readByte | ack | pop | cancelNext | idle | leave
  | drainPop | drainComplete | drainEnd

inductive TaskMove where
  | begin (found : Bool)
  | limits (capacity budget responses : Int)
  | finish (code : Code)
  | respond (count : Nat) (allocated : Bool)
  | header (bytes : Nat) (copied : Bool)
  | responded
  | chunk (length : Nat) (allocated : Bool)
  | chunked
  -- the engine is closed
  | shut
  | check
  | interrupt

inductive NotifierMove where
  | take | returned | exit | join

inductive Label where
  | call (c : Call)
  | reap
  -- inside `wake_owner`
  | write | mark
  | owner (move : OwnerMove)
  | task (k : Key) (move : TaskMove)
  -- a server that was told to stop ends, or one that was not
  | serverStops (i : Key)
  | serverFails (i : Key)
  | notifier (move : NotifierMove)

namespace State

variable (p : Platform)

def ownerStep (s : State) : OwnerMove → Option State
  | .attach =>
      if s.owner = .starting then
        some { s with phase := .attached, wakePending := false, pipe := 0, owner := .reading }.wake
      else none
  | .bootstrapFails =>
      if s.owner = .starting then some { s with phase := .retiring, owner := .draining none }
      else none
  | .readByte => if s.owner = .reading ∧ 0 < s.pipe then
      some { s with pipe := s.pipe - 1, owner := .acking } else none
  | .ack => if s.owner = .acking then
      some { s with wakePending := false, owner := .popping, tasks := changed s.tasks } else none
  | .pop =>
      if s.owner = .popping then
        match s.commands with
        | [] => some { s with owner := .cancelling s.tasks.keys }
        | k :: rest => some { s with commands := rest, tasks := s.tasks.insert k ⟨.spawned, false⟩ }
      else none
  | .cancelNext =>
      match s.owner with
      | .cancelling [] => some { s with owner := .checking }
      | .cancelling (k :: rest) =>
          let hit := (s.memory.ops.get k).any (·.kind.business) && s.memory.cancelled k
          some { s with
            owner := .cancelling rest
            tasks := s.tasks.modify k fun task => { task with marked := task.marked || hit } }
      | _ => none
  | .idle =>
      if s.owner = .checking then
        if s.memory.instances = 0 ∧ s.memory.activeOps = 0 ∧ s.commands = [] then
          some { s with phase := .retiring, owner := .leaving }
        else some { s with owner := .reading }
      else none
  | .leave =>
      -- the group waits for its tasks
      if s.owner = .leaving ∧ s.tasks.keys = [] ∧ s.scopes.keys = [] then
        some { s with owner := .draining none }
      else none
  | .drainPop =>
      match s.owner, s.commands with
      | .draining none, k :: rest => some { s with commands := rest, owner := .draining (some k) }
      | _, _ => none
  | .drainComplete =>
      match s.owner with
      | .draining (some k) => some { s.complete k .io (some .done) with owner := .draining none }
      | _ => none
  | .drainEnd =>
      if s.owner = .draining none ∧ s.commands = [] then
        some { s with
          memory := s.memory.retireAll s.memory.live
          ownerDone := true
          owner := .absent }
      else none

def taskStep (s : State) (k : Key) (task : Task) (o : Operation) : TaskMove → Option State
  | .begin found => if task.stage = .spawned then some (s.begin k o found) else none
  | .limits capacity budget responses =>
      if task.stage = .working ∧ o.kind.creates then
        some ({ s with memory := s.memory.limits o.owner capacity budget responses }.setStage k
          .configured)
      else none
  | .finish code =>
      if (task.stage = .working ∧ (o.kind.creates → code ≠ .ok)) ∨ task.stage = .configured then
        some (s.finish k o code)
      else none
  | .respond count allocated =>
      if task.stage = .working ∧ o.kind = .submit then some (s.respond p k count allocated)
      else none
  | .header bytes copied =>
      match task.stage, o.event.response with
      | .responding (left + 1) valid, some r => some (s.header k r left valid bytes copied)
      | _, _ => none
  | .responded =>
      match task.stage with
      | .responding 0 valid =>
          some (if valid then s.settle k .ok none else s.settle k .limit (some .done))
      | _ => none
  | .chunk length allocated =>
      if task.stage = .working ∧ o.kind = .read ∧ 0 < length then some (s.chunk k length allocated)
      else none
  | .chunked =>
      match task.stage with
      | .chunked code => some (s.settle k code (if code = .ok then none else some .done))
      | _ => none
  | .shut => if task.stage = .shutting then some (s.drain k) else none
  | .check =>
      match task.stage with
      | .waiting true | .stopping true | .draining true => some (s.check k o.owner task.stage)
      | _ => none
  | .interrupt =>
      if task.marked ∧ task.stage.suspended then some (s.settle k .cancelled (some .done)) else none

def notifierStep (s : State) : NotifierMove → Option State
  | .take =>
      match s.notifier, s.notices with
      | .waiting, k :: rest => some { s with
          memory := s.memory.deliver k
          notices := rest
          notifier := .calling k
          taken := s.taken ++ s.entries k }
      | _, _ => none
  | .returned =>
      match s.notifier with
      | .calling k => some { s with memory := s.memory.finish k, notifier := .waiting }.wake
      | _ => none
  | .exit =>
      if s.notifier = .waiting ∧ s.notices = [] ∧ s.ownerDone then
        some { s with notifier := .joining }
      else none
  | .join =>
      if s.notifier = .joining ∧ s.owner = .absent then
        some { s with phase := .ended, notifier := .absent }
      else none

def idling (s : State) : Bool := s.owner = .reading ∨ s.owner = .leaving

def step : Label → State → Option State
  | .write, s => if s.lock = .waking then some (s.writeByte p) else none
  | .mark, s => if s.lock = .written then some { s with wakePending := true, lock := .free } else none
  -- the pipe is read without the mutex
  | .owner .readByte, s => s.ownerStep .readByte
  | label, s =>
      if s.lock ≠ .free then none
      else
        match label with
        | .call c => if c.legal s.memory then some (c.run p s).2 else none
        | .reap => if s.phase = .ended then some { s with phase := .off } else none
        | .owner move => s.ownerStep move
        | .task k move =>
            match s.tasks.get k, s.memory.ops.get k with
            | some task, some o => if s.owner = .reading then s.taskStep p k task o move else none
            | _, _ => none
        | .serverStops i =>
            if s.idling ∧ s.scopes.get i = some true then some (s.endScope i) else none
        | .serverFails i =>
            if s.idling ∧ (s.scopes.get i).isSome then some (s.endScope i) else none
        | .notifier move => s.notifierStep move
        | .write | .mark => none

end State

def bridge (p : Platform) : Machine State Label where
  init := .initial
  step := State.step p

end HttpServer.CAbi
