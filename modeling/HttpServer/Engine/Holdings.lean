import HttpServer.Engine.Calls

set_option autoImplicit false

/-!
# What a call of the engine holds

A call has to give back what it holds: its part in `planning`, its job, the files that it opened, a
body that is not registered, `reading`, and its charges.
-/

namespace HttpServer.Shared

open OrderedMap Routines
open Engine (NativeError ServerError)

structure Held where
  planning : Bool
  job : Option FileId
  files : List FileId
  owns : Option BodyId
  reads : Option BodyId
  directory : Int
  body : Int
  -- The call began after `close` had.
  late : Bool

/-- What is true of the engine once stays true. -/
inductive Fact where
  | known (file : FileId)
  | shutFile (file : FileId)
  | stillFile (file : FileId)
  | freedFile (file : FileId)
  | present (body : BodyId)
  | source (body : BodyId) (file : Option FileId)
  | shut (body : BodyId)
  | quiet (body : BodyId)
  | settled (body : BodyId)
  | made (body : BodyId)
  | numbered (id : Int32) (body : BodyId)
  | stopping
  | drained
  | listed (bodies : List BodyId)
  | cleared
  | rested
  | ended

def PlanBody.file? : PlanBody → Option FileId
  | .fileRegion f _ _ => some f
  | _ => none

namespace World

variable (w : World)

def OnFile (f : FileId) (P : File → Prop) : Prop := ∃ file, w.files.get f = some file ∧ P file

def OnBody (b : BodyId) (P : BodyState → Prop) : Prop := ∃ state, w.bodies.get b = some state ∧ P state

def Stopping : Prop := w.closing = true ∧ w.runtime.closing = true

def Drained : Prop := w.Stopping ∧ w.planning = 0

def Cleared : Prop :=
  w.Drained ∧ w.responses = ∅ ∧ ∀ b state, w.bodies.get b = some state → state.released = true

def Rested : Prop := w.Stopping ∧ w.runtime.active = 0

def Ended : Prop :=
  w.Cleared ∧ w.Rested ∧ w.OnFile root (·.closed = true) ∧ w.runtime.closed = true

def truth : Fact → Prop
  | .known f => w.OnFile f fun _ => True
  | .shutFile f => w.OnFile f (·.closing = true)
  | .stillFile f => w.OnFile f fun file => file.closing = true ∧ file.active = 0
  | .freedFile f => w.OnFile f (·.closed = true)
  | .present b => w.OnBody b fun _ => True
  | .source b file => w.OnBody b (·.body.file? = file)
  | .shut b => w.OnBody b (·.closed = true)
  | .quiet b => w.OnBody b fun state => state.closed = true ∧ state.reading = false
  | .settled b => w.OnBody b (·.released = true)
  | .made b => b ∈ w.made
  | .numbered id b => ∃ n, w.made[n]? = some b ∧ id = Int32.ofNat n
  | .stopping => w.Stopping
  | .drained => w.Drained
  | .listed bodies => w.Drained ∧ ∀ id b, w.responses.get id = some b → b ∈ bodies
  | .cleared => w.Cleared
  | .rested => w.Rested
  | .ended => w.Ended

end World

def Op.gives : Op → Bool
  | .opens _ => true
  | .names _ => true
  | _ => false

def Ask.job? : Ask → Option FileId
  | .finishes f _ => some f
  | _ => none

namespace Held

def fresh (late : Bool) : Held := ⟨false, none, [], none, none, 0, 0, late⟩

def credits (directory : Bool) (h : Held) : Int := if directory then h.directory else h.body

def add (directory : Bool) (bytes : Int) (h : Held) : Held :=
  if directory then { h with directory := h.directory + bytes }
  else { h with body := h.body + bytes }

variable (h : Held)

def Waits (known : Set Fact) : Wait → Prop
  | .still f => .shutFile f ∈ known
  | .quiet b => .shut b ∈ known
  | .drained => .stopping ∈ known ∧ h.planning = false
  | .rested => .stopping ∈ known ∧ h.planning = false

def Asks (known : Set Fact) : Ask → Prop
  | .enters => h.planning = false
  | .leaves => h.planning = true ∧ h.files = [] ∧ h.owns = none ∧ h.directory = 0
  | .closing => True
  | .submits f op => .known f ∈ known ∧ (op.gives = true → h.planning = true)
  | .finishes _ op => op.gives = true → h.planning = true
  | .shutsFile f => .known f ∈ known
  -- Nobody waits for a reader and is one.
  | .awaits wait => h.reads = none ∧ h.Waits known wait
  | .freesFile f => .stillFile f ∈ known
  | .reserves directory _ => directory = true → h.planning = true
  | .releases directory bytes => 0 ≤ bytes.toInt ∧ bytes.toInt ≤ h.credits directory
  | .creates body => h.planning = true ∧ h.owns = none ∧ 0 ≤ (World.metadataCharge body).toInt ∧
      (World.metadataCharge body).toInt ≤ h.directory ∧ ∀ f, body.file? = some f → .known f ∈ known
  | .registers b charge => h.owns = some b ∧ 0 ≤ charge.toInt ∧ charge.toInt ≤ h.body
  | .forgets id => ∃ b, .numbered id b ∈ known ∧ .settled b ∈ known
  | .body b => .present b ∈ known
  | .cursor b => .present b ∈ known
  | .stopped b => .present b ∈ known
  | .begins b _ => .present b ∈ known ∧ h.reads = none
  | .ends b => h.reads = some b ∨ h.reads = none ∧ .quiet b ∈ known
  | .fails b => h.reads = some b
  | .takes b _ => h.reads = some b ∧ .source b none ∈ known
  | .advances b _ => h.reads = some b
  | .shuts b => .present b ∈ known
  | .settles b => .quiet b ∈ known ∧ (h.owns = some b ∨ .made b ∈ known) ∧
      ∃ file, .source b file ∈ known ∧ ∀ f, file = some f → .freedFile f ∈ known
  | .stops => True
  | .responses => .drained ∈ known
  | .clears => ∃ bodies, .listed bodies ∈ known ∧ ∀ b ∈ bodies, .settled b ∈ known
  | .stopsRuntime => .stopping ∈ known
  | .freesPool => .cleared ∈ known ∧ .rested ∈ known ∧ .freedFile root ∈ known
  | .writes _ => True
  | .pauses => True
  | .hangs => True

def FitsJob : (op : Op) → Except Failure op.Value → Prop
  | .names _, .ok (_, charge) => 0 ≤ charge.toInt ∧ h.directory + charge.toInt ≤ 2147483647
  | _, _ => True

def FitsCredits (directory : Bool) (bytes : Int32) : Except NativeError Unit → Prop
  | .ok () => 0 ≤ bytes.toInt ∧ h.credits directory + bytes.toInt ≤ 2147483647
  | .error _ => True

def Fits : (query : Ask) → query.Answer → Prop
  | .enters, entered => h.late = true → entered = false
  | .begins _ _, answer => h.late = true → answer = .error .closed
  | .reserves directory bytes, answer => h.FitsCredits directory bytes answer
  | .finishes _ op, answer => h.FitsJob op answer
  | .hangs, _ => False
  | _, _ => True

def afterJob : (op : Op) → Except Failure op.Value → Held
  | .opens _, .ok found => { h with job := none, files := found.file :: h.files }
  | .names _, .ok (_, charge) => { h with job := none, directory := h.directory + charge.toInt }
  | _, _ => { h with job := none }

def afterSubmit (f : FileId) : Except NativeError Unit → Held
  | .ok () => { h with job := some f }
  | .error _ => h

def afterReserve (directory : Bool) (bytes : Int32) : Except NativeError Unit → Held
  | .ok () => h.add directory bytes.toInt
  | .error _ => h

def afterBegin (b : BodyId) : Except ServerError Unit → Held
  | .ok () => { h with reads := some b }
  | .error _ => h

def without (f : Option FileId) : Held := { h with files := h.files.filter fun g => some g ≠ f }

-- The body owes what the call held for it.
def gives (b : BodyId) (body : PlanBody) : Held :=
  { h.without body.file? with
    owns := some b
    directory := h.directory - (World.metadataCharge body).toInt }

def charges (charge : Int32) : Held := { h with owns := none, body := h.body - charge.toInt }

def settles (b : BodyId) : Held := { h with owns := if h.owns = some b then none else h.owns }

def after : (query : Ask) → query.Answer → Held
  | .enters, entered => { h with planning := entered }
  | .leaves, _ => { h with planning := false }
  | .submits f _, answer => h.afterSubmit f answer
  | .finishes _ op, answer => h.afterJob op answer
  | .freesFile f, _ => h.without (some f)
  | .reserves directory bytes, answer => h.afterReserve directory bytes answer
  | .releases directory bytes, _ => h.add directory (-bytes.toInt)
  | .creates body, b => h.gives b body
  | .registers _ charge, _ => h.charges charge
  | .begins b _, answer => h.afterBegin b answer
  | .ends _, _ => { h with reads := none }
  | .fails _, _ => { h with reads := none }
  | .settles b, _ => h.settles b
  | _, _ => h

end Held

def learnsJob : (op : Op) → Except Failure op.Value → Set Fact
  | .opens _, .ok found => {.known found.file}
  | _, _ => ∅

def learnsWait : Wait → Set Fact
  | .still f => {.stillFile f}
  | .quiet b => {.quiet b}
  | .drained => {.drained}
  | .rested => {.rested}

def sourceFacts (b : BodyId) (body : PlanBody) : Set Fact :=
  {fact | fact = .present b ∨ fact = .source b body.file? ∨ ∃ f, body.file? = some f ∧ fact = .known f}

def listedFacts (bodies : List BodyId) : Set Fact :=
  {fact | fact = .listed bodies ∨ ∃ b ∈ bodies, fact = .present b ∨ fact = .made b}

def learns : (query : Ask) → query.Answer → Set Fact
  | .finishes _ op, answer => learnsJob op answer
  | .shutsFile f, _ => {.shutFile f}
  | .awaits wait, _ => learnsWait wait
  | .freesFile f, _ => {.freedFile f}
  | .creates body, b => sourceFacts b body
  | .registers b _, id => {.made b, .numbered id b}
  | .body b, body => sourceFacts b body
  | .fails b, _ => {.shut b, .quiet b}
  | .shuts b, _ => {.shut b}
  | .settles b, _ => {.settled b}
  | .stops, _ => {.stopping}
  | .responses, bodies => listedFacts bodies
  | .clears, _ => {.cleared}
  | .stopsRuntime, goesOn => {fact | goesOn = false ∧ fact = .ended}
  | .freesPool, _ => {.ended}
  | _, _ => ∅

/-- A call that has a job waits for its end. -/
def discipline : Discipline Ask Ask.Answer Held Fact where
  allows h known query := h.job = query.job? ∧ h.Asks known query
  fits := Held.Fits
  after := Held.after
  learns := learns

end HttpServer.Shared
