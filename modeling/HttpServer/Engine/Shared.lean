import HttpServer.Engine.Handle
import HttpServer.Library.Routines
import HttpServer.StaticPlan.Listing

set_option autoImplicit false

/-!
# What the calls of one engine share

A call asks one question after another: each stands for a stretch of the source in which nobody else
moves, and after it others may move. A wait for a condition variable, a job and a write to a socket
are the only questions that need not be answered at once.
-/

namespace HttpServer.Shared

open Unicode OrderedMap
open Engine (NativeError ServerError)
open StaticPlan (ListingStream)

abbrev FileId := Nat

abbrev BodyId := Nat

abbrev CallId := Nat

structure File where
  closing : Bool
  closed : Bool
  active : Nat
  deriving DecidableEq

inductive PlanBody where
  | empty
  | bytes (content : Bytes)
  | fileRegion (file : FileId) (offset length : Int64)
  | listing (stream : ListingStream) (metadataCharge : Int32)
  deriving DecidableEq

structure BodyState where
  body : PlanBody
  cursor : Int64
  closed : Bool
  reading : Bool
  bodyCharge : Int32
  released : Bool
  deriving DecidableEq

structure Credits where
  owned : Int
  limit : Int32
  deriving DecidableEq

structure Runtime where
  closing : Bool
  closed : Bool
  active : Nat
  directory : Credits
  body : Credits
  deriving DecidableEq

/-- The loops that wait: for the jobs of a file, for the reader of a body, for the requests that are
planned, and for the jobs of the runtime. -/
inductive Wait where
  | still (file : FileId)
  | quiet (body : BodyId)
  | drained
  | rested
  deriving DecidableEq

/-- `freed` are the calls of `file_free`, `poolsFreed` counts those of `pool_free`, `made` are the
bodies that were registered, the first one first, and `asleep` are the calls that wait for a
broadcast. -/
structure World where
  files : OrderedMap FileId File
  freed : List FileId
  bodies : OrderedMap BodyId BodyState
  made : List BodyId
  responses : OrderedMap Int32 BodyId
  closing : Bool
  planning : Nat
  runtime : Runtime
  poolsFreed : Nat
  asleep : List (CallId × Wait)

def root : FileId := 0

-- `StaticEngine::open` has returned.
def World.opened (directoryLimit bodyLimit : Int32) : World where
  files := (∅ : OrderedMap FileId File).insert root ⟨false, false, 0⟩
  freed := []
  bodies := ∅
  made := []
  responses := ∅
  closing := false
  planning := 0
  runtime := ⟨false, false, 0, ⟨0, directoryLimit⟩, ⟨0, bodyLimit⟩⟩
  poolsFreed := 0
  asleep := []

-- Others may have used up what the budget has to give.
def Credits.reserve (c : Credits) (bytes : Int32) : Option Credits :=
  if bytes.toInt < 0 ∨ c.limit.toInt - bytes.toInt < c.owned then none
  else some { c with owned := c.owned + bytes.toInt }

def Credits.release (c : Credits) (bytes : Int32) : Credits :=
  if 0 ≤ bytes.toInt ∧ bytes.toInt ≤ c.owned then { c with owned := c.owned - bytes.toInt } else c

def Runtime.credits (r : Runtime) (directory : Bool) : Credits :=
  if directory then r.directory else r.body

def Runtime.setCredits (r : Runtime) (directory : Bool) (c : Credits) : Runtime :=
  if directory then { r with directory := c } else { r with body := c }

inductive Op where
  | opens (relative : Str)
  | reads (offset : Int64) (length : Int32)
  | checks
  | names (budget : Int64)
  | sends (offset : Int64) (length : Int32)
  deriving DecidableEq

structure Found where
  file : FileId
  kind : Int32
  size : Int64
  mtime : Int64
  deriving DecidableEq

def Op.Value : Op → Type
  | .opens _ => Found
  | .reads _ _ => Bytes
  | .checks => Unit
  | .names _ => List Str × Int32
  | .sends _ _ => Int64

/-- `other` is a cancellation, or an error of a socket or a writer. -/
inductive Failure where
  | raised (e : Engine.Raised)
  | other
  deriving DecidableEq

inductive Ask where
  -- `handle`, as far as `planning += 1`; the answer is whether it goes on.
  | enters
  | leaves
  | closing
  -- `File::run` and `Runtime::run`, as far as the wait for the job.
  | submits (file : FileId) (op : Op)
  -- The end of a job, or of the wait for it after a cancellation.
  | finishes (file : FileId) (op : Op)
  | shutsFile (file : FileId)
  -- `while … { idle.wait() }`
  | awaits (wait : Wait)
  | freesFile (file : FileId)
  | reserves (directory : Bool) (bytes : Int32)
  | releases (directory : Bool) (bytes : Int32)
  | creates (body : PlanBody)
  -- The answer is the key in `responses`.
  | registers (body : BodyId) (charge : Int32)
  | forgets (id : Int32)
  | body (body : BodyId)
  | cursor (body : BodyId)
  | stopped (body : BodyId)
  -- The checks before `reading = true`, and that; `positive` is whether a length is.
  | begins (body : BodyId) (positive : Bool)
  | ends (body : BodyId)
  -- `errdefer`, as far as `closed = true`.
  | fails (body : BodyId)
  | takes (body : BodyId) (count : Int32)
  | advances (body : BodyId) (count : Int64)
  | shuts (body : BodyId)
  -- The releases at the end of `BodyState::close`.
  | settles (body : BodyId)
  -- `closing = true` and `runtime.stop()`.
  | stops
  | responses
  | clears
  -- `Runtime::close`, as far as its wait; the answer is whether it goes on.
  | stopsRuntime
  | freesPool
  | writes (bytes : Bytes)
  | pauses
  | hangs
  deriving DecidableEq

def Ask.Answer : Ask → Type
  | .enters => Bool
  | .closing => Bool
  | .submits _ _ => Except NativeError Unit
  | .finishes _ op => Except Failure op.Value
  | .reserves _ _ => Except NativeError Unit
  | .creates _ => BodyId
  | .registers _ _ => Int32
  | .body _ => PlanBody
  | .cursor _ => Int64
  | .stopped _ => Bool
  | .begins _ _ => Except ServerError Unit
  | .takes _ _ => Bytes
  | .responses => List BodyId
  | .stopsRuntime => Bool
  | .writes _ => Except Failure Unit
  | .pauses => Except Failure Unit
  | _ => Unit

namespace World

variable (w : World)

def onFile (f : FileId) (change : File → File) : World :=
  { w with files := w.files.modify f change }

def onBody (b : BodyId) (change : BodyState → BodyState) : World :=
  { w with bodies := w.bodies.modify b change }

def waits : Wait → Bool
  | .still f => (w.files.get f).any fun file => 0 < file.active
  | .quiet b => (w.bodies.get b).any (·.reading)
  | .drained => 0 < w.planning
  | .rested => 0 < w.runtime.active

def broadcast (wait : Wait) : World :=
  { w with asleep := w.asleep.filter fun sleeper => sleeper.2 ≠ wait }

def answering (right : Bool) (after : World) : Option World := if right then some after else none

def told {α : Type} [DecidableEq α] (right answer : α) (after : World) : Option World :=
  answering (answer = right) after

def reserve (directory : Bool) (bytes : Int32) : Option World :=
  ((w.runtime.credits directory).reserve bytes).map fun c =>
    { w with runtime := w.runtime.setCredits directory c }

-- `Runtime::release`
def release (directory : Bool) (bytes : Int32) : World :=
  if w.runtime.closed then w
  else
    { w with
      runtime := w.runtime.setCredits directory ((w.runtime.credits directory).release bytes) }

def refusesJob (file : File) : Op → Option NativeError
  | .names _ =>
      if 0 < file.active then some .busy
      else if file.closing || w.runtime.closing then some .closed
      else none
  | _ => if file.closing || w.runtime.closing then some .closed else none

def submitted (f : FileId) : World :=
  { w.onFile f fun file => { file with active := file.active + 1 } with
    runtime := { w.runtime with active := w.runtime.active + 1 } }

def submit (f : FileId) (op : Op) (answer : Except NativeError Unit) : Option World :=
  match w.files.get f with
  | none => none
  | some file =>
      match w.refusesJob file op, answer with
      | some e, .error raised => told e raised w
      | none, .error raised => told .overloaded raised w
      | none, .ok () => some (w.submitted f)
      | some _, .ok () => none

-- The job is freed, and both counters go down.
def jobEnded (f : FileId) : World :=
  let w := w.onFile f fun file => { file with active := file.active - 1 }
  ({ w with runtime := { w.runtime with active := w.runtime.active - 1 } }.broadcast
    (.still f)).broadcast .rested

-- A handle that is opened is not in use, and the charge of a listing is the pool's.
def granted : (op : Op) → op.Value → Option World
  | .opens _, found =>
      answering (w.files.get found.file).isNone
        { w with files := w.files.insert found.file ⟨false, false, 0⟩ }
  | .names _, (_, charge) => w.reserve true charge
  | _, _ => some w

def finish (f : FileId) (op : Op) : Except Failure op.Value → Option World
  | .error _ => some (w.jobEnded f)
  | .ok value => (w.jobEnded f).granted op value

def freeFile (f : FileId) : Option World :=
  (w.files.get f).map fun file =>
    if file.closed then w
    else
      { w.onFile f fun file => { file with closed := true } with freed := w.freed ++ [f] }

def register (b : BodyId) (charge : Int32) : World :=
  { w.onBody b fun state => { state with bodyCharge := charge } with
    responses := w.responses.insert (Int32.ofNat w.made.length) b
    made := w.made ++ [b] }

def refusesReader (state : BodyState) (positive : Bool) : Option ServerError :=
  if state.closed || w.closing then some .closed
  else if state.reading then some .busy
  else if !positive then some (.invalidRequest (str "max_len must be positive"))
  else none

def beginRead (b : BodyId) (positive : Bool) (answer : Except ServerError Unit) : Option World :=
  match w.bodies.get b with
  | none => none
  | some state =>
      match w.refusesReader state positive, answer with
      | some e, .error raised => told e raised w
      | none, .ok () => some (w.onBody b fun state => { state with reading := true })
      | _, _ => none

def chunk (state : BodyState) (count : Int32) : Option (Bytes × PlanBody) :=
  match state.body with
  | .empty => some ([], .empty)
  | .bytes content =>
      some ((content.drop state.cursor.toInt32.toInt.toNat).take count.toInt.toNat, .bytes content)
  | .fileRegion _ _ _ => none
  | .listing stream charge =>
      some ((stream.read count).1, .listing (stream.read count).2 charge)

def take (b : BodyId) (count : Int32) (answer : Bytes) : Option World :=
  ((w.bodies.get b).bind fun state => chunk state count).bind fun (piece, body) =>
    told piece answer (w.onBody b fun state => { state with body })

def metadataCharge : PlanBody → Int32
  | .listing _ charge => charge
  | _ => 0

def closeStream : PlanBody → PlanBody
  | .listing stream charge => .listing stream.close charge
  | body => body

-- A body that is no listing has no metadata charge to release.
def settle (b : BodyId) : World :=
  match w.bodies.get b with
  | none => w
  | some state =>
      let w := w.onBody b fun state => { state with body := closeStream state.body, released := true }
      if state.released then w
      else (w.release true (metadataCharge state.body)).release false state.bodyCharge

def answer (k : CallId) : (query : Ask) → query.Answer → Option World
  | .enters, entered =>
      told (!w.closing) entered
        (if w.closing then w else { w with planning := w.planning + 1 })
  | .leaves, () => some ({ w with planning := w.planning - 1 }.broadcast .drained)
  | .closing, closing => told w.closing closing w
  | .submits f op, answer => w.submit f op answer
  | .finishes f op, answer => w.finish f op answer
  | .shutsFile f, () => some (w.onFile f fun file => { file with closing := true })
  | .awaits wait, () => answering (!w.waits wait && (k, wait) ∉ w.asleep) w
  | .freesFile f, () => w.freeFile f
  | .reserves directory bytes, answer =>
      match answer with
      | .error e => told (if w.runtime.closing then .closed else .overloaded) e w
      | .ok () => if w.runtime.closing then none else w.reserve directory bytes
  | .releases directory bytes, () => some (w.release directory bytes)
  | .creates body, b =>
      answering (w.bodies.get b).isNone
        { w with bodies := w.bodies.insert b ⟨body, 0, false, false, 0, false⟩ }
  | .registers b charge, id =>
      told (Int32.ofNat w.made.length) id (w.register b charge)
  | .forgets id, () => some { w with responses := w.responses.erase id }
  | .body b, body => (w.bodies.get b).bind fun state => told state.body body w
  | .cursor b, cursor => (w.bodies.get b).bind fun state => told state.cursor cursor w
  | .stopped b, stopped =>
      (w.bodies.get b).bind fun state => told (state.closed || w.closing) stopped w
  | .begins b positive, answer => w.beginRead b positive answer
  | .ends b, () => some ((w.onBody b fun state => { state with reading := false }).broadcast (.quiet b))
  | .fails b, () =>
      some ((w.onBody b fun state => { state with reading := false, closed := true }).broadcast
        (.quiet b))
  | .takes b count, bytes => w.take b count bytes
  | .advances b count, () =>
      some (w.onBody b fun state => { state with cursor := state.cursor + count })
  | .shuts b, () => some (w.onBody b fun state => { state with closed := true })
  | .settles b, () => some (w.settle b)
  | .stops, () => some { w with closing := true, runtime := { w.runtime with closing := true } }
  | .responses, bodies => told w.responses.values bodies w
  | .clears, () => some { w with responses := ∅ }
  | .stopsRuntime, goesOn =>
      told (!w.runtime.closed) goesOn
        (if w.runtime.closed then w else { w with runtime := { w.runtime with closing := true } })
  | .freesPool, () =>
      some (if w.runtime.closed then w
        else { w with runtime := { w.runtime with closed := true }, poolsFreed := w.poolsFreed + 1 })
  | .writes _, _ => some w
  | .pauses, _ => some w
  | .hangs, () => none

-- Who waits is woken by the next broadcast.
def sleep (k : CallId) : Ask → Option World
  | .awaits wait =>
      answering (w.waits wait && (k, wait) ∉ w.asleep) { w with asleep := (k, wait) :: w.asleep }
  | _ => none

end World

end HttpServer.Shared
