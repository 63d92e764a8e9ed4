import HttpServer.Framing.Body

set_option autoImplicit false

namespace HttpServer.Server

open Unicode Text HttpServer.Core Framing StateRun

structure TargetUrl where
  scheme : Str
  host : Str
  port : Int32
  basePath : Str
  deriving DecidableEq

-- `p` is an `Int32`, so a long run of digits wraps.
def portOf (digits : Str) : Option Int32 :=
  match (codePoints digits).foldlM (fun (p : Int32) c =>
      if c < 0x30 || 0x39 < c then none
      else some (p * 10 + Int32.ofNat c - 48)) 0 with
  | some p => if p ≤ 0 || 65535 < p then none else some p
  | none => none

def plainScheme (url : Str) : Str :=
  if hasPrefix url (str "wss://") then str "https://" ++ url.drop 6
  else if hasPrefix url (str "ws://") then str "http://" ++ url.drop 5
  else url

def splitAuthority (afterScheme : Str) : Str × Str :=
  match find afterScheme (unit '/') with
  | some idx => (afterScheme.take idx, afterScheme.drop idx)
  | none => (afterScheme, [])

def parseTargetUrl (url : Str) : Option TargetUrl := do
  let url := plainScheme url
  let scheme ←
    if hasPrefix url (str "https://") then some (str "https")
    else if hasPrefix url (str "http://") then some (str "http")
    else none
  let (hostPort, basePath) := splitAuthority (url.drop (scheme.length + 3))
  if hostPort = [] then none
  else
    let (host, port) ← match find hostPort (unit ':') with
      | some idx => (portOf (hostPort.drop (idx + 1))).map (hostPort.take idx, ·)
      | none => some (hostPort, if scheme = str "https" then 443 else 80)
    some { scheme, host, port, basePath := if basePath = str "/" then [] else basePath }

def upstreamPath (parsed : TargetUrl) (target : Str) : Str :=
  if parsed.basePath = [] then target
  else if hasPrefix target (str "/") then parsed.basePath ++ target
  else parsed.basePath ++ str "/" ++ target

def methodName : Method → Str
  | .get => str "GET"
  | .head => str "HEAD"
  | .other s => s

def hostHeader (parsed : TargetUrl) : Str :=
  if (parsed.port = 80 ∧ parsed.scheme = str "http") ∨
      (parsed.port = 443 ∧ parsed.scheme = str "https") then parsed.host
  else parsed.host ++ str ":" ++ ofInt parsed.port.toInt

def nominated (headers : Headers) (lk : Str) : Bool :=
  hasToken ((headers.get (str "connection")).getD []) lk

def stripped (headers : Headers) (k : Str) : Bool :=
  let lk := toLower k
  lk == str "host" || lk == str "connection" || lk == str "expect" || lk == str "trailer" ||
    lk == str "keep-alive" || lk == str "proxy-connection" || lk == str "upgrade" ||
    nominated headers lk

def headerLines (headers : Headers) : List (Str × Str) → Str
  | [] => []
  | (k, v) :: rest =>
      if stripped headers k then headerLines headers rest
      else k ++ str ": " ++ v ++ str "\r\n" ++ headerLines headers rest

def headText (meth : Method) (headers : Headers) (path : Str) (parsed : TargetUrl) : Str :=
  methodName meth ++ str " " ++ path ++ str " HTTP/1.1\r\n" ++
    str "Host: " ++ hostHeader parsed ++ str "\r\n" ++
    str "Connection: close\r\n" ++
    headerLines headers headers.entries ++
    str "\r\n"

section

variable {σ : Type} [Reader σ]

-- A block as it goes out: its size line and CRLF only when the body is chunked.
def writeBlock (chunked : Bool) (piece : Bytes) : Bytes :=
  (if chunked then encode (Numerals.numeral 16 piece.length ++ str "\r\n") else []) ++ piece ++
    (if chunked then encode (str "\r\n") else [])

def forwardLoop (block : Nat) (chunked : Bool) : Nat → ReadM σ Bytes
  | 0 => throw .readerClosed
  | fuel + 1 => do
      let piece ← readBody block
      if piece = [] then return []
      else return writeBlock chunked piece ++ (← forwardLoop block chunked fuel)

def forwardBody (block : Nat) (chunked : Bool) : ReadM σ Bytes := fun c =>
  (do
    let blocks ← forwardLoop block chunked (c.unread.length + 1)
    return blocks ++ if chunked then encode (str "0\r\n\r\n") else []) c

/-- The parts of the server around the forwarding: the memory for a body, and the upstream. -/
structure Upstream where
  acquireBody : Nat → Bool
  connect : TargetUrl → Bool

inductive Forwarded where
  | refused (status : Nat)
  | sent (upstream : Bytes) (client : Bytes)
  deriving DecidableEq

-- `block` is `server.config.limits.body_block_bytes`. What comes back from the upstream
-- does not depend on how the request was framed and is not followed here.
def proxyHttpRequest (env : Upstream) (block : Nat) (meth : Method) (headers : Headers)
    (target upstreamUrl : Str) : ReadM σ Forwarded := do
  if !env.acquireBody (block * 2 + 163840) then return .refused 503
  else match parseTargetUrl upstreamUrl with
    | none => return .refused 502
    | some parsed =>
        if !env.connect parsed then return .refused 502
        else do
          let head := encode (headText meth headers (upstreamPath parsed target) parsed)
          let c ← get
          let client :=
            if hasBody c && hasToken ((headers.get (str "expect")).getD []) (str "100-continue")
            then encode (str "HTTP/1.1 100 Continue\r\n\r\n") else []
          let body ← forwardBody block (headers.contains (str "transfer-encoding"))
          return .sent (head ++ body) client

end

end HttpServer.Server
