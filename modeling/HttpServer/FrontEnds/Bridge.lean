import HttpServer.FrontEnds.Settings
import HttpServer.StaticPlan.Listing

set_option autoImplicit false

namespace HttpServer.Wasm

open Unicode Text HttpServer.Core
open FrontEnds (FullConfig DecodeError)
open StaticPlan (Step File ListingEntry)

/-- What the standard library makes of the host's texts. -/
structure Reader where
  json : Str → Option Json
  double : Str → Option Rat
  int64 : Str → Option Int64

structure Pending where
  step : Step
  serial : Int32

structure State where
  requests : OrderedMap Int32 Pending
  configurations : List FullConfig
  mimes : List MimeRegistry

def State.initial : State := ⟨∅, [], []⟩

inductive Fault where
  | bridge (error : BridgeError)
  | config (error : DecodeError)
  | syntaxError
  | number
  | changed
  deriving DecidableEq

def Fault.code : Fault → Str
  | .changed => str "FILE_CHANGED"
  | _ => str "INVALID_REQUEST"

/-- A value is handed to the host as text; an error with its code and a message. -/
inductive Reply where
  | value (json : Json)
  | error (fault : Fault)
  | trap

def Reply.accepted : Reply → Bool
  | .value _ => true
  | _ => false

/-- What a step of the planner or an answer of the host may come to instead of a result. -/
inductive Stop where
  | fault (fault : Fault)
  | trap
  deriving DecidableEq

def Stop.reply : Stop → Reply
  | .fault e => .error e
  | .trap => .trap

abbrev Attempt := Except Stop

def protocolError {α : Type} : Attempt α := throw (.fault (.bridge .protocol))

-- A step that raises or traps is no step that a request can wait in.
def raised : Step → Attempt Step
  | .done .changed => throw (.fault .changed)
  | .done .trap => throw .trap
  | step => pure step

variable (reader : Reader)

def parsed (text : Str) : Attempt Json :=
  match reader.json text with
  | some value => pure value
  | none => throw (.fault .syntaxError)

def jsonNumber (n : Int32) : Json := .number (ofInt n.toInt)

def configured (config : FullConfig) : Json :=
  .object
    [(str "kind", .string (str "configured")),
      (str "limits", .object
        [(str "file_workers", jsonNumber config.limits.fileWorkers),
          (str "queued_operations", jsonNumber config.limits.queuedOperations),
          (str "connections", jsonNumber config.limits.connections),
          (str "body_block_bytes", jsonNumber config.limits.bodyBlockBytes),
          (str "body_buffer_bytes", jsonNumber config.limits.bodyBufferBytes),
          (str "directory_metadata_bytes", jsonNumber config.limits.directoryMetadataBytes)]),
      (str "fallback", match config.fallbackTargetFile with
        | some s => .string s
        | none => .null)]

def configure (s : State) (text : Str) : State × Reply :=
  let attempt : Attempt FullConfig := do
    if !s.configurations.isEmpty then protocolError
    else match decodeConfig reader.double (← parsed reader text) with
      | .ok config => pure config
      | .error e => throw (.fault (.config e))
  match attempt with
  | .error stop => (s, stop.reply)
  | .ok config =>
      ({ s with
        configurations := s.configurations ++ [config]
        mimes := s.mimes ++ [MimeRegistry.new.setAll config.mimeTypes] }, .value (configured config))

def field (value : Json) (key : Str) : Attempt Str :=
  match textField value key with
  | .ok text => pure text
  | .error e => throw (.fault (.bridge e))

-- A number without a fraction, from zero to `most`.
def natural (most : Int32) : Json → Attempt Int32
  | .number text =>
      match reader.double text with
      | some n =>
          let whole := n.num.tdiv n.den
          if 0 ≤ n ∧ n ≤ most.toInt ∧ (whole : Rat) = n then pure (Int32.ofInt whole)
          else protocolError
      | none => protocolError
  | _ => protocolError

def numberField (value : Json) (key : Str) : Attempt Int32 :=
  match value with
  | .object fields =>
      match OrderedMap.lookup key fields with
      | some number => natural reader 2147483647 number
      | none => protocolError
  | _ => protocolError

def parseInt64 (text : Str) : Attempt Int64 :=
  match reader.int64 text with
  | some n => pure n
  | none => throw (.fault .number)

def fileOf (value : Json) : Attempt File := do
  return {
    token := ← numberField reader value (str "token")
    kind := ← numberField reader value (str "type")
    size := ← parseInt64 reader (← field value (str "size"))
    mtime := ← parseInt64 reader (← field value (str "mtime")) }

def byteOf (item : Json) : Attempt UInt8 := do
  return UInt8.ofNat (← natural reader 255 item).toInt.toNat

def entryOf (item : Json) : Attempt ListingEntry := do
  let file ← fileOf reader item
  return {
    name := ← field item (str "name")
    isDir := file.kind = 2
    size := file.size
    mtimeSec := file.mtime
    isCompanion := false
    hasBr := false
    hasGz := false }

-- The next step of one that waits for the host, once its answer has been decoded.
def resume : Step → Json → Attempt Step
  | .ask (.opens _) next, .null => raised (next none)
  | .ask (.opens _) next, value => do raised (next (some (← fileOf reader value)))
  | .ask (.reads _ _) next, .array items => do raised (next (← items.mapM (byteOf reader)))
  | .ask (.lists _) next, .array items => do raised (next (← items.mapM (entryOf reader)))
  | _, _ => protocolError

def bodyJson : StaticPlan.Body → Json
  | .empty => .object [(str "type", .string (str "empty")), (str "length", .string (str "0"))]
  | .bytes content =>
      .object [(str "type", .string (str "bytes")), (str "length", .string (ofNat content.length))]
  | .listing _ => .object [(str "type", .string (str "listing")), (str "length", .null)]
  | .fileRegion file offset length =>
      .object
        [(str "type", .string (str "file")), (str "token", jsonNumber file.token),
          (str "offset", .string (ofInt offset.toInt)), (str "length", .string (ofInt length.toInt))]

def emit (id : Int32) (p : Pending) : Json :=
  match p.step with
  | .ask (.opens path) _ =>
      .object
        [(str "kind", .string (str "open")), (str "id", jsonNumber id),
          (str "serial", jsonNumber p.serial), (str "path", .string path)]
  | .ask (.reads file count) _ =>
      .object
        [(str "kind", .string (str "prefix")), (str "id", jsonNumber id),
          (str "serial", jsonNumber p.serial), (str "token", jsonNumber file.token),
          (str "count", jsonNumber count)]
  | .ask (.lists path) _ =>
      .object
        [(str "kind", .string (str "list")), (str "id", jsonNumber id),
          (str "serial", jsonNumber p.serial), (str "path", .string path)]
  | .done (.responds response) =>
      .object
        [(str "kind", .string (str "handled")), (str "status", jsonNumber response.status),
          (str "headers", .array (response.headers.entries.map fun entry =>
            .array [.string entry.1, .string entry.2])),
          (str "body", bodyJson response.body)]
  | .done _ => .object [(str "kind", .string (str "next"))]

def State.bridge (s : State) : Bridge := ⟨!s.configurations.isEmpty, s.requests.keys⟩

-- What `begin_request` does before it changes anything.
def opening (s : State) (id : Int32) (text : Str) : Attempt Step := do
  if !(!s.configurations.isEmpty && !s.requests.contains id && 0 ≤ id) then protocolError
  else
    let value ← parsed reader text
    match beginRequest s.bridge id value, s.configurations, s.mimes with
    | .ok request, config :: _, mime :: _ =>
        raised (StaticPlan.start config.toConfig request mime)
    | .ok _, _, _ => throw .trap
    | .error e, _, _ => throw (.fault (.bridge e))

def beginCall (s : State) (id : Int32) (text : Str) : State × Reply :=
  match opening reader s id text with
  | .error stop => (s, stop.reply)
  | .ok step =>
      let pending : Pending := ⟨step, 0⟩
      ({ s with requests := s.requests.insert id pending }, .value (emit id pending))

-- What `complete` does before it changes anything: the request in its next step.
def completing (s : State) (id serial : Int32) (text : Str) : Attempt Pending :=
  match s.requests.get id with
  | some p =>
      if p.serial = serial then do
        return ⟨← resume reader p.step (← parsed reader text), p.serial + 1⟩
      else protocolError
  | none => protocolError

def complete (s : State) (id serial : Int32) (text : Str) : State × Reply :=
  match completing reader s id serial text with
  | .error stop => (s, stop.reply)
  | .ok p => ({ s with requests := s.requests.insert id p }, .value (emit id p))

def bytesJson (bytes : Bytes) : Json := .array (bytes.map fun b => .number (ofNat b.toNat))

-- A listing is read on from where it stands, whatever the offset.
def takeBody (s : State) (id offset count serial : Int32) (response : StaticPlan.Response) :
    State × Reply :=
  match response.body with
  | .empty => (s, .value (bytesJson []))
  | .bytes content =>
      if offset.toInt ≤ content.length then
        (s, .value (bytesJson ((content.drop offset.toInt.toNat).take count.toInt.toNat)))
      else (s, .error (.bridge .protocol))
  | .listing stream =>
      let (bytes, stream) := stream.read count
      let step : Step := .done (.responds { response with body := .listing stream })
      ({ s with requests := s.requests.insert id ⟨step, serial⟩ }, .value (bytesJson bytes))
  | .fileRegion _ _ _ => (s, .error (.bridge .protocol))

def takeChunk (s : State) (id offset count : Int32) : State × Reply :=
  match s.requests.get id with
  | some ⟨.done (.responds response), serial⟩ =>
      if 0 ≤ offset ∧ 0 < count then
        match s.configurations with
        | config :: _ =>
            if count ≤ config.limits.bodyBlockBytes then takeBody s id offset count serial response
            else (s, .error (.bridge .protocol))
        | [] => (s, .trap)
      else (s, .error (.bridge .protocol))
  | _ => (s, .error (.bridge .protocol))

def release (s : State) (id : Int32) : State := { s with requests := s.requests.erase id }

end HttpServer.Wasm
