import HttpServer.Engine.Bodies
import HttpServer.Engine.Shared
import HttpServer.Library.Numerals

set_option autoImplicit false

namespace HttpServer.Shared

open Unicode Text HttpServer.Core OrderedMap Dialogue
open Engine (NativeError ServerError mapNativeError relative beneath)
open StaticPlan (ListingEntry Step)
open Bodies (least)

abbrev Talk := Dialogue Ask Ask.Answer

abbrev Action := ExceptT Failure Talk

section

variable {α : Type}

def native (answer : Except NativeError α) : Except Failure α :=
  answer.mapError fun e => .raised (.native e)

def server (answer : Except ServerError α) : Except Failure α :=
  answer.mapError fun e => .raised (.server e)

def serverError : Failure → ServerError
  | .raised e => mapNativeError e
  | .other => .io (str "native file operation failed")

def raises (e : ServerError) : Failure := .raised (.server e)

-- `catch { e => raise map_native_error(e) }`
def mapped (act : Action α) : Action α := tryCatch act fun e => throw (raises (serverError e))

def deferred (last : Talk Unit) (act : Action α) : Action α :=
  ExceptT.mk do
    let result ← act.run
    last
    return result

def errdeferred (last : Talk Unit) (act : Action α) : Action α :=
  ExceptT.mk do
    match ← act.run with
    | .error e => do
        last
        return .error e
    | .ok a => return .ok a

end

def enters : Talk Bool := put Ask.enters

def leaves : Talk Unit := put Ask.leaves

def closing : Talk Bool := put Ask.closing

def submits (f : FileId) (op : Op) : Action Unit := ExceptT.mk (native <$> put (Ask.submits f op))

def finishes (f : FileId) (op : Op) : Action op.Value := ExceptT.mk (put (Ask.finishes f op))

def shutsFile (f : FileId) : Talk Unit := put (Ask.shutsFile f)

def awaits (wait : Wait) : Talk Unit := put (Ask.awaits wait)

def freesFile (f : FileId) : Talk Unit := put (Ask.freesFile f)

def reserves (directory : Bool) (bytes : Int32) : Talk (Except NativeError Unit) :=
  put (Ask.reserves directory bytes)

def releases (directory : Bool) (bytes : Int32) : Talk Unit := put (Ask.releases directory bytes)

def creates (body : PlanBody) : Talk BodyId := put (Ask.creates body)

def registers (b : BodyId) (charge : Int32) : Talk Int32 := put (Ask.registers b charge)

def forgets (id : Int32) : Talk Unit := put (Ask.forgets id)

def bodyOf (b : BodyId) : Talk PlanBody := put (Ask.body b)

def cursorOf (b : BodyId) : Talk Int64 := put (Ask.cursor b)

def stopped (b : BodyId) : Talk Bool := put (Ask.stopped b)

def begins (b : BodyId) (positive : Bool) : Action Unit :=
  ExceptT.mk (server <$> put (Ask.begins b positive))

def ends (b : BodyId) : Talk Unit := put (Ask.ends b)

def fails (b : BodyId) : Talk Unit := put (Ask.fails b)

def takes (b : BodyId) (count : Int32) : Talk Bytes := put (Ask.takes b count)

def advances (b : BodyId) (count : Int64) : Talk Unit := put (Ask.advances b count)

def shuts (b : BodyId) : Talk Unit := put (Ask.shuts b)

def settles (b : BodyId) : Talk Unit := put (Ask.settles b)

def stops : Talk Unit := put Ask.stops

def responses : Talk (List BodyId) := put Ask.responses

def clears : Talk Unit := put Ask.clears

def stopsRuntime : Talk Bool := put Ask.stopsRuntime

def freesPool : Talk Unit := put Ask.freesPool

def writes (bytes : Bytes) : Action Unit := ExceptT.mk (put (Ask.writes bytes))

def pauses : Action Unit := ExceptT.mk (put Ask.pauses)

-- What is not followed has no result.
def hangs {α : Type} (a : α) : Talk α := .ask .hangs fun () => .done a

def fileRun (f : FileId) (op : Op) : Action op.Value := do
  submits f op
  finishes f op

def closeFile (f : FileId) : Talk Unit := do
  shutsFile f
  awaits (.still f)
  freesFile f

def openFile (config : Config) (path : Str) : Action Found :=
  match relative config path with
  | none => throw (raises (.forbidden (str "candidate outside root")))
  | some relative =>
      if beneath relative then fileRun root (.opens relative) else throw (.raised (.native .forbidden))

def openExisting (config : Config) (path : Str) : Action (Option Found) :=
  tryCatch (some <$> openFile config path) fun e =>
    match e with
    | .raised (.native .missing) => pure none
    | e => throw e

/-- The variables of `plan_request`; `retained` is -1 where no file is. -/
structure Planning where
  files : OrderedMap Int32 FileId
  nextToken : Int32
  retained : Int32
  charge : Int32
  retainListing : Bool

def Planning.start : Planning := ⟨∅, 0, -1, 0, false⟩

inductive PlanResult where
  | handled (status : Int32) (headers : Headers) (body : PlanBody)
  | next

def listEntries (config : Config) (path : Str) : List Str → Action (List ListingEntry)
  | [] => pure []
  | name :: rest =>
      if !config.showDotfiles && hasPrefix name (str ".") then listEntries config path rest
      else do
        match ← openExisting config (path ++ str "/" ++ name) with
        | none => listEntries config path rest
        | some file =>
            let entry : ListingEntry :=
              { name
                isDir := file.kind = 2
                size := if file.kind = 2 then 0 else file.size
                mtimeSec := file.mtime
                isCompanion := false
                hasBr := false
                hasGz := false }
            closeFile file.file
            return entry :: (← listEntries config path rest)

abbrev Planned (α : Type) := Planning × Except Failure α

-- The listing of an opened directory.
def listOpened (config : Config) (path : Str) (dir : FileId) (p : Planning) :
    Talk (Planned (List ListingEntry)) := do
  match ← (fileRun dir (.names config.limits.directoryMetadataBytes.toInt64)).run with
  | .error e => return (p, .error e)
  | .ok (names, nameCharge) =>
      let entries ← (listEntries config path names).run
      return ({ p with charge := p.charge + nameCharge }, entries)

def listDirectory (config : Config) (request : Request) (path : Str) (p : Planning) :
    Talk (Planned (List ListingEntry)) := do
  let base := Int32.ofNat request.target.length * 32 + 16384
  match ← reserves true base with
  | .error e => return (p, native (.error e))
  | .ok () =>
      let p := { p with charge := p.charge + base }
      match ← (openFile config path).run with
      | .error e => return (p, .error e)
      | .ok dir => do
          let result ← listOpened config path dir.file p
          closeFile dir.file
          return result

def checkAll : List FileId → Action Unit
  | [] => pure ()
  | f :: rest => do
      fileRun f .checks
      checkAll rest

def finishPlan (response : StaticPlan.Response) (p : Planning) : Talk (Planned PlanResult) := do
  match ← (checkAll p.files.values).run with
  | .error e => return (p, .error e)
  | .ok () =>
      let handled := PlanResult.handled response.status response.headers
      match response.body with
      | .empty => return (p, .ok (handled .empty))
      | .bytes content => return (p, .ok (handled (.bytes content)))
      | .fileRegion file offset length =>
          match p.files.get file.token with
          | none => hangs (p, .error .other)
          | some f =>
              return ({ p with retained := file.token }, .ok (handled (.fileRegion f offset length)))
      | .listing stream =>
          return ({ p with retainListing := true }, .ok (handled (.listing stream p.charge)))

def planSteps (config : Config) (request : Request) : Step → Planning → Talk (Planned PlanResult)
  | .done (.responds response), p => finishPlan response p
  | .done .next, p => return (p, .ok .next)
  | .done .changed, p => return (p, .error (.raised .changed))
  | .done .trap, p => hangs (p, .error .other)
  | .ask (.opens path) complete, p => do
      match ← (openExisting config path).run with
      | .error e => return (p, .error e)
      | .ok none => planSteps config request (complete none) p
      | .ok (some found) =>
          let file : StaticPlan.File := ⟨p.nextToken, found.kind, found.size, found.mtime⟩
          planSteps config request (complete (some file))
            { p with files := p.files.insert p.nextToken found.file, nextToken := p.nextToken + 1 }
  | .ask (.reads file count) complete, p => do
      match p.files.get file.token with
      | none => hangs (p, .error .other)
      | some f =>
          let length := if file.size < count.toInt64 then file.size.toInt32 else count
          match ← (fileRun f (.reads 0 length)).run with
          | .error e => return (p, .error e)
          | .ok bytes => planSteps config request (complete bytes) p
  | .ask (.lists path) complete, p => do
      match ← listDirectory config request path p with
      | (p, .error e) => return (p, .error e)
      | (p, .ok rows) => planSteps config request (complete rows) p

def closeOthers (retained : Int32) : List (Int32 × FileId) → Talk Unit
  | [] => pure ()
  | (token, f) :: rest => do
      if token ≠ retained then closeFile f
      closeOthers retained rest

def planRequest (config : Config) (mime : MimeRegistry) (request : Request) : Action PlanResult :=
  ExceptT.mk do
    let (p, result) ← planSteps config request (StaticPlan.start config request mime) .start
    closeOthers p.retained p.files.entries
    if !p.retainListing then releases true p.charge
    return result

structure Response where
  status : Int32
  headers : Headers
  state : BodyId
  id : Int32
  blockSize : Int32
  deriving DecidableEq

inductive HandleResult where
  | handled (response : Response)
  | next
  | error (error : ServerError)
  deriving DecidableEq

-- `BodyState::close`
def closeState (b : BodyId) : Talk Unit := do
  shuts b
  match ← bodyOf b with
  | .fileRegion f _ _ => closeFile f
  | _ => pure ()
  awaits (.quiet b)
  settles b

def bodyCharge (config : Config) : PlanBody → Int32
  | .empty => 0
  | .bytes content => Int32.ofNat content.length * 2
  | _ => config.limits.bodyBlockBytes * 2

def register (config : Config) (status : Int32) (headers : Headers) (body : PlanBody) :
    Talk HandleResult := do
  let state ← creates body
  if ← closing then
    closeState state
    return .error .closed
  else
    match ← reserves false (bodyCharge config body) with
    | .error e =>
        closeState state
        return .error (mapNativeError (.native e))
    | .ok () =>
        let id ← registers state (bodyCharge config body)
        return .handled ⟨status, headers, state, id, config.limits.bodyBlockBytes⟩

def handlePlanned (config : Config) (mime : MimeRegistry) (request : Request) :
    Talk HandleResult := do
  match ← (planRequest config mime request).run with
  | .error e => return .error (serverError e)
  | .ok .next => return .next
  | .ok (.handled status headers body) => register config status headers body

def handle (config : Config) (mime : MimeRegistry) (request : Request) : Talk HandleResult := do
  if ← enters then
    let result ← handlePlanned config mime request
    leaves
    return result
  else return .error .closed

def close (r : Response) : Talk Unit := do
  closeState r.state
  forgets r.id

def bodyLength : PlanBody → Int64
  | .empty => 0
  | .bytes content => Int64.ofNat content.length
  | .fileRegion _ _ length => length
  | .listing _ _ => -1

section

variable {α : Type}

-- Every use of the body that sets `reading`.
def reading (r : Response) (act : Action α) : Action α :=
  deferred (ends r.state) <| errdeferred (do fails r.state; close r) act

end

def check (r : Response) : Action Unit := do
  begins r.state true
  reading r do
    match ← bodyOf r.state with
    | .fileRegion f _ _ => mapped (fileRun f .checks)
    | _ => pure ()

def readChunk (r : Response) (maxLen : Int32) : Action Bytes := do
  let body ← bodyOf r.state
  let cursor ← cursorOf r.state
  let remaining :=
    match body with
    | .listing _ _ => maxLen.toInt64
    | body => bodyLength body - cursor
  let count := least (if remaining < maxLen.toInt64 then remaining.toInt32 else maxLen) r.blockSize
  let chunk ← match body with
    | .fileRegion f offset _ => do
        mapped (fileRun f .checks)
        mapped (fileRun f (.reads (offset + cursor) count))
    | _ => takes r.state count
  if ← stopped r.state then throw (raises .closed)
  else do
    advances r.state (Int64.ofNat chunk.length)
    return chunk

def read (r : Response) (maxLen : Int32) : Action Bytes := do
  begins r.state (0 < maxLen)
  reading r (readChunk r maxLen)

-- The answer has what was reserved besides.
def collect (r : Response) (maxBytes : Int32) : Nat → Int32 → Bytes → Talk (Int32 × Except Failure Bytes)
  | 0, reserved, _ => hangs (reserved, .error .other)
  | fuel + 1, reserved, buf => do
      match ← (read r 65536).run with
      | .error e => return (reserved, .error e)
      | .ok chunk =>
          let size := Int32.ofNat chunk.length
          if size = 0 then return (reserved, .ok buf)
          else if Int32.ofNat buf.length > maxBytes - size then
            return (reserved, .error (raises .overloaded))
          else if size > (2147483647 - reserved) / 4 then
            return (reserved, .error (raises .overloaded))
          else
            match ← reserves false (size * 4) with
            | .error e => return (reserved, .error (raises (mapNativeError (.native e))))
            | .ok () => collect r maxBytes fuel (reserved + size * 4) (buf ++ chunk)

def toBytes (r : Response) (maxBytes : Int32) (fuel : Nat) : Action Bytes :=
  errdeferred (close r) do
    let body ← bodyOf r.state
    let cursor ← cursorOf r.state
    if maxBytes < 0 || bodyLength body - cursor > maxBytes.toInt64 then throw (raises .overloaded)
    else ExceptT.mk do
      let (reserved, result) ← collect r maxBytes fuel 0 []
      releases false reserved
      return result

def chunkHead (chunk : Bytes) : Bytes :=
  encode (Numerals.numeral 16 chunk.length ++ str "\r\n")

def writeTo (r : Response) (chunked : Bool) : Nat → Action Unit
  | 0 => ExceptT.mk (hangs (.ok ()))
  | fuel + 1 => do
      let chunk ← read r 65536
      if chunk = [] then
        if chunked then writes (encode (str "0\r\n\r\n"))
      else do
        if chunked then writes (chunkHead chunk)
        writes chunk
        if chunked then writes (encode (str "\r\n"))
        writeTo r chunked fuel

-- `none` where the kernel path is unsupported.
def sends (f : FileId) (offset : Int64) (count : Int32) : Action (Option Int64) :=
  mapped <| tryCatch (some <$> fileRun f (.sends offset count)) fun e =>
    match e with
    | .raised (.native .unsupported) => pure none
    | e => throw e

def sendPiece (r : Response) (f : FileId) (offset cursor : Int64) (count : Int32) :
    Bool → Action Bool
  | true => do
      match ← sends f (offset + cursor) count with
      | some n => do
          advances r.state n
          if n = 0 then pauses
          return true
      | none => return false
  | false => do
      let chunk : Bytes ← mapped (fileRun f (.reads (offset + cursor) count))
      writes chunk
      advances r.state (Int64.ofNat chunk.length)
      return false

def sendLoop (r : Response) (f : FileId) (offset length : Int64) : Nat → Bool → Action Unit
  | 0, _ => ExceptT.mk (hangs (.ok ()))
  | fuel + 1, kernel => do
      let cursor ← cursorOf r.state
      if cursor < length then
        if ← stopped r.state then throw (raises .closed)
        else do
          let left := length - cursor
          let count := if left < r.blockSize.toInt64 then left.toInt32 else r.blockSize
          let kernel ← sendPiece r f offset cursor count kernel
          pauses
          sendLoop r f offset length fuel kernel

def sendRead (r : Response) : Nat → Action Unit
  | 0 => ExceptT.mk (hangs (.ok ()))
  | fuel + 1 => do
      let chunk ← read r 65536
      if chunk ≠ [] then do
        writes chunk
        sendRead r fuel

def sendTo (r : Response) (fuel : Nat) : Action Unit := do
  match ← bodyOf r.state with
  | .fileRegion f offset length => do
      begins r.state true
      reading r do
        sendLoop r f offset length fuel true
        mapped (fileRun f .checks)
  | _ => sendRead r fuel

def closeAll : List BodyId → Talk Unit
  | [] => pure ()
  | b :: rest => do
      closeState b
      closeAll rest

def closeRuntime : Talk Unit := do
  if ← stopsRuntime then
    awaits .rested
    freesPool

def closeEngine : Talk Unit := do
  stops
  awaits .drained
  closeAll (← responses)
  clears
  closeFile root
  closeRuntime

/-- The fuel of a loop bounds how far it is followed. -/
inductive Call where
  | handle (request : Request)
  | check (response : Response)
  | read (response : Response) (maxLen : Int32)
  | toBytes (response : Response) (maxBytes : Int32) (fuel : Nat)
  | writeTo (response : Response) (chunked : Bool) (fuel : Nat)
  | sendTo (response : Response) (fuel : Nat)
  | close (response : Response)
  | closeEngine
  deriving DecidableEq

inductive Outcome where
  | handled (result : HandleResult)
  | bytes (result : Except Failure Bytes)
  | done (result : Except Failure Unit)
  deriving DecidableEq

def Call.code (config : Config) (mime : MimeRegistry) : Call → Talk Outcome
  | .handle request => .handled <$> Shared.handle config mime request
  | .check r => .done <$> (Shared.check r).run
  | .read r maxLen => .bytes <$> (Shared.read r maxLen).run
  | .toBytes r maxBytes fuel => .bytes <$> (Shared.toBytes r maxBytes fuel).run
  | .writeTo r chunked fuel => .done <$> (Shared.writeTo r chunked fuel).run
  | .sendTo r fuel => .done <$> (Shared.sendTo r fuel).run
  | .close r => (fun () => .done (.ok ())) <$> Shared.close r
  | .closeEngine => (fun () => .done (.ok ())) <$> Shared.closeEngine

def Call.response? : Call → Option Response
  | .handle _ => none
  | .check r => some r
  | .read r _ => some r
  | .toBytes r _ _ => some r
  | .writeTo r _ _ => some r
  | .sendTo r _ => some r
  | .close r => some r
  | .closeEngine => none

-- Whoever uses a response was given it by `handle`.
def Call.admitted (results : List Outcome) (call : Call) : Bool :=
  call.response?.all fun r => results.contains (.handled (.handled r))

open Routines in
/-- The calls of an engine, any number of them at any time. -/
def engine (config : Config) (mime : MimeRegistry) :
    Stage World Call CallId Ask Ask.Answer Outcome where
  init := .opened config.limits.directoryMetadataBytes config.limits.bodyBufferBytes
  code := Call.code config mime
  admits := Call.admitted
  answer := World.answer
  waits := World.sleep

end HttpServer.Shared
