import HttpServer.StaticPlan.Plan

set_option autoImplicit false

namespace HttpServer.Engine

open Unicode Text HttpServer.Core Dialogue
open StaticPlan (File ListingEntry Step)

inductive NativeError where
  | fileChanged
  | forbidden
  | missing
  | io
  | overloaded
  | closed
  | busy
  | unsupported
  deriving DecidableEq

inductive ServerError where
  | invalidRequest (message : Str)
  | forbidden (message : Str)
  | io (message : Str)
  | fileChanged (message : Str)
  | closed
  | busy
  | overloaded
  deriving DecidableEq

inductive Raised where
  | server (error : ServerError)
  | native (error : NativeError)
  | changed
  deriving DecidableEq

def mapNativeError : Raised → ServerError
  | .server error => error
  | .native .fileChanged => .fileChanged (str "opened representation changed")
  | .changed => .fileChanged (str "chosen gzip representation changed before opening")
  | .native .forbidden => .forbidden (str "path is outside the root or inaccessible")
  | .native .overloaded => .overloaded
  | .native .closed => .closed
  | .native .busy => .busy
  | .native _ => .io (str "native file operation failed")

structure Opened where
  kind : Int32
  size : Int64
  mtime : Int64
  deriving DecidableEq

/-- `names` reads the directory that was opened last. -/
inductive Ask where
  | closing
  | opens (relative : Str)
  | reads (token : Int32) (offset : Int64) (length : Int32)
  | names (budget : Int64)
  | checks (token : Int32)
  | reserves (directory : Bool) (bytes : Int32)
  deriving DecidableEq

def Ask.Answer : Ask → Type
  | .closing => Bool
  | .opens _ => Except NativeError Opened
  | .reads _ _ _ => Except NativeError Bytes
  | .names _ => Except NativeError (List Str)
  | .checks _ => Except NativeError Unit
  | .reserves _ _ => Except NativeError Unit

abbrev Talk := Dialogue Ask Ask.Answer

abbrev Engine := ExceptT Raised Talk

def raised {α : Type} (answer : Except NativeError α) : Except Raised α := answer.mapError .native

def closing : Talk Bool := put Ask.closing

def reads (token : Int32) (offset : Int64) (length : Int32) : Engine Bytes :=
  ExceptT.mk (raised <$> put (Ask.reads token offset length))

def names (budget : Int64) : Engine (List Str) := ExceptT.mk (raised <$> put (Ask.names budget))

def checks (token : Int32) : Engine Unit := ExceptT.mk (raised <$> put (Ask.checks token))

def reserves (directory : Bool) (bytes : Int32) : Engine Unit :=
  ExceptT.mk (raised <$> put (Ask.reserves directory bytes))

def relative (config : Config) (path : Str) : Option Str :=
  let root := normRoot config.root
  if path = root ∨ path = config.root then some []
  else
    let base := if hasSuffix root (str "/") then root else root ++ str "/"
    if hasPrefix path base then some (path.drop base.length) else none

-- The paths that `File::open` passes on to a worker.
def beneath (relative : Str) : Bool :=
  !(Text.contains relative [0] || hasPrefix relative (str "/") || hasPrefix relative (str "\\") ||
    Text.contains relative (str ":")) && !(split relative (unit '/')).contains (str "..")

def openFile (config : Config) (path : Str) : Engine Opened :=
  match relative config path with
  | none => throw (.server (.forbidden (str "candidate outside root")))
  | some relative =>
      if beneath relative then ExceptT.mk (raised <$> put (Ask.opens relative))
      else throw (.native .forbidden)

-- A missing file is an answer, any other failure an error.
def openExisting (config : Config) (path : Str) : Engine (Option Opened) :=
  tryCatch (some <$> openFile config path) fun e =>
    match e with
    | .native .missing => pure none
    | e => throw e

def listEntries (config : Config) (path : Str) : List Str → Engine (List ListingEntry)
  | [] => pure []
  | name :: rest =>
      if !config.showDotfiles && hasPrefix name (str ".") then listEntries config path rest
      else do
        match ← openExisting config (path ++ str "/" ++ name) with
        | none => listEntries config path rest
        | some file =>
            let entry : ListingEntry :=
              { name
                isDir := file.kind = 2
                size := if file.kind = 2 then 0 else file.size
                mtimeSec := file.mtime
                isCompanion := false
                hasBr := false
                hasGz := false }
            return entry :: (← listEntries config path rest)

def listDirectory (config : Config) (request : Request) (path : Str) : Engine (List ListingEntry) := do
  reserves true (Int32.ofNat request.target.length * 32 + 16384)
  let _ ← openFile config path
  let names ← names config.limits.directoryMetadataBytes.toInt64
  listEntries config path names

inductive PlanResult where
  | handled (response : StaticPlan.Response)
  | next
  | trap

def checkAll : List File → Engine Unit
  | [] => pure ()
  | file :: rest => do
      checks file.token
      checkAll rest

-- `files` are the files opened so far, each under its place as its token.
def planSteps (config : Config) (request : Request) : Step → List File → Engine PlanResult
  | .done (.responds response), files => do
      checkAll files
      return .handled response
  | .done .next, _ => return .next
  | .done .changed, _ => throw .changed
  | .done .trap, _ => return .trap
  | .ask (.opens path) complete, files => do
      match ← openExisting config path with
      | none => planSteps config request (complete none) files
      | some file =>
          let file : File := ⟨Int32.ofNat files.length, file.kind, file.size, file.mtime⟩
          planSteps config request (complete (some file)) (files ++ [file])
  | .ask (.reads file count) complete, files => do
      let length := if file.size < count.toInt64 then file.size.toInt32 else count
      planSteps config request (complete (← reads file.token 0 length)) files
  | .ask (.lists path) complete, files => do
      planSteps config request (complete (← listDirectory config request path)) files

def planRequest (config : Config) (mime : MimeRegistry) (request : Request) : Engine PlanResult :=
  planSteps config request (StaticPlan.start config request mime) []

inductive HandleResult where
  | handled (response : StaticPlan.Response)
  | next
  | error (error : ServerError)
  | trap

def bodyCharge (config : Config) : StaticPlan.Body → Int32
  | .empty => 0
  | .bytes content => Int32.ofNat content.length * 2
  | _ => config.limits.bodyBlockBytes * 2

def register (config : Config) (response : StaticPlan.Response) : Talk HandleResult := do
  if ← closing then return .error .closed
  match ← (reserves false (bodyCharge config response.body)).run with
  | .error e => return .error (mapNativeError e)
  | .ok () => return .handled response

def handle (config : Config) (mime : MimeRegistry) (request : Request) : Talk HandleResult := do
  if ← closing then return .error .closed
  match ← (planRequest config mime request).run with
  | .error e => return .error (mapNativeError e)
  | .ok .next => return .next
  | .ok .trap => return .trap
  | .ok (.handled response) => register config response

end HttpServer.Engine
