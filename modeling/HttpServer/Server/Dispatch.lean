import HttpServer.Core.Routing
import HttpServer.Engine.Handle
import HttpServer.Server.Proxy

set_option autoImplicit false

namespace HttpServer.Serving

open Unicode Text HttpServer.Core Framing Dialogue
open Engine (Ask HandleResult Raised ServerError)
open Server (TargetUrl parseTargetUrl upstreamPath headText)

/-- `decodeBase64` stands for the decoder of the standard library. -/
structure Server where
  config : Config
  mime : MimeRegistry
  proxyRules : List ProxyRule
  decodeBase64 : Str → Option Bytes

/-- What a server does to its surroundings while it answers: `transfers` sends a file region or a
listing, `forwards` writes a request head to the upstream, `relays` the request body, and reads what
comes back, and `upgrades` is what follows once the upstream of a WebSocket is connected. -/
inductive Effect where
  | engine (question : Ask)
  | acquires (bytes : Int32)
  | stopped
  | connects (target : TargetUrl)
  | forwards (head : Bytes)
  | relays (chunked : Bool)
  | upgrades (head : Bytes)
  | sends (data : Bytes)
  | transfers (body : StaticPlan.Body) (chunked : Bool)
  deriving DecidableEq

def Effect.Answer : Effect → Type
  | .engine question => question.Answer
  | .relays _ => Option (List Bytes)
  | .upgrades _ => Unit
  | _ => Bool

/-- How the handling of a request ends: whether the connection may go on, an error that ends the
connection, or a trap. -/
inductive Outcome where
  | keep (again : Bool)
  | failed
  | trap
  deriving DecidableEq

abbrev Serve := Dialogue Effect Effect.Answer

def engine {R : Type} (talk : Engine.Talk R) : Serve R :=
  talk.translate fun question => put (Effect.engine question)

def acquires (bytes : Int32) : Serve Bool := put (Effect.acquires bytes)

def connects (target : TargetUrl) : Serve Bool := put (Effect.connects target)

def forwards (head : Bytes) : Serve Bool := put (Effect.forwards head)

def relays (chunked : Bool) : Serve (Option (List Bytes)) := put (Effect.relays chunked)

def upgrades (head : Bytes) : Serve Unit := put (Effect.upgrades head)

def stopped : Serve Bool := put Effect.stopped

def sends (data : Bytes) : Serve Bool := put (Effect.sends data)

def transfers (body : StaticPlan.Body) (chunked : Bool) : Serve Bool :=
  put (Effect.transfers body chunked)

def reasons : List (Int32 × Str) :=
  [(200, str "OK"), (206, str "Partial Content"), (301, str "Moved Permanently"),
    (302, str "Found"), (304, str "Not Modified"), (400, str "Bad Request"),
    (401, str "Unauthorized"), (403, str "Forbidden"), (404, str "Not Found"),
    (405, str "Method Not Allowed"), (416, str "Range Not Satisfiable"),
    (500, str "Internal Server Error")]

-- The reason of a status, of which the Thin server knows one more.
def statusReason (reasons : List (Int32 × Str)) (status : Int32) : Str :=
  ((reasons.find? fun entry => entry.1 == status).map Prod.snd).getD (str "OK")

def statusLine (status : Int32) (reason : Str) : Str :=
  str "HTTP/1.1 " ++ ofInt status.toInt ++ str " " ++ reason ++ str "\r\n"

def headerText (reasons : List (Int32 × Str)) (status : Int32) (headers : Headers) : Str :=
  statusLine status (statusReason reasons status) ++
    headers.entries.flatMap (fun entry => entry.1 ++ str ": " ++ entry.2 ++ str "\r\n") ++ str "\r\n"

def isStreaming : StaticPlan.Body → Bool
  | .listing _ => true
  | _ => false

def finalHeaders (response : StaticPlan.Response) (http11 : Bool) : Headers :=
  if isStreaming response.body then
    if http11 then response.headers.insert (str "Transfer-Encoding") (str "chunked")
    else response.headers.insert (str "Connection") (str "close")
  else response.headers

-- `Response::check`; `false` is a raised error.
def check (response : StaticPlan.Response) : Serve Bool := do
  if ← engine Engine.closing then return false
  match response.body with
  | .fileRegion file _ _ =>
      match ← engine (Engine.checks file.token).run with
      | .ok () => return true
      | .error _ => return false
  | _ => return true

-- The blocks of a body in memory follow one another without anything between them.
def writeBody (body : StaticPlan.Body) (chunked : Bool) : Serve Bool :=
  match body with
  | .empty => pure true
  | .bytes [] => pure true
  | .bytes content => sends content
  | body => transfers body chunked

def sendResponse (reasons : List (Int32 × Str)) (response : StaticPlan.Response) (http11 : Bool) :
    Serve Outcome := do
  if ← check response then
    if ← sends (encode (headerText reasons response.status (finalHeaders response http11))) then
      let streaming := isStreaming response.body
      let whole ← writeBody response.body (streaming && http11)
      return .keep (whole && !(streaming && !http11))
    else return .keep false
  else return .failed

def fallbackText (status : Int32) (reason : Str) : Str :=
  statusLine status reason ++
    str "Content-Length: " ++ ofNat reason.length ++ str "\r\n" ++
    str "Content-Type: text/plain; charset=utf-8\r\n" ++
    str "Connection: close\r\n\r\n" ++ reason

-- `send_fallback_status`, after which every caller gives the connection up.
def sendFallbackStatus (status : Int32) (reason : Str) : Serve Outcome := do
  let _ ← sends (encode (fallbackText status reason))
  return .keep false

def upgradable (config : Config) (request : Request) : Bool :=
  config.hasWebsocketProxy &&
    hasToken ((request.headers.get (str "upgrade")).getD []) (str "websocket")

def Server.matchProxyRule (server : Server) (path : Str) : Option (Str × Str) :=
  server.proxyRules.findSome? fun rule => Core.matchProxyRule rule path

def proxyCharge (config : Config) : Int32 := config.limits.bodyBlockBytes * 2 + 163840

def relayLoop : List Bytes → Serve Outcome
  | [] => pure (.keep false)
  | piece :: rest => do
      if ← sends piece then relayLoop rest else return .keep false

def proxyHttpRequest (server : Server) (request : Request) (hasBody : Bool)
    (target upstreamUrl : Str) : Serve Outcome := do
  if ← acquires (proxyCharge server.config) then
    match parseTargetUrl upstreamUrl with
    | none => sendFallbackStatus 502 (str "Bad Gateway")
    | some parsed =>
        if ← connects parsed then
          let head := encode (headText request.meth request.headers (upstreamPath parsed target) parsed)
          if ← forwards head then
            if hasBody && hasToken ((request.headers.get (str "expect")).getD []) (str "100-continue") then
              if !(← sends (encode (str "HTTP/1.1 100 Continue\r\n\r\n"))) then return .failed
            match ← relays (request.headers.contains (str "transfer-encoding")) with
            | none => return .failed
            | some [] => sendFallbackStatus 502 (str "Bad Gateway")
            | some pieces => relayLoop pieces
          else sendFallbackStatus 502 (str "Bad Gateway")
        else sendFallbackStatus 502 (str "Bad Gateway")
  else sendFallbackStatus 503 (str "Service Unavailable")

def shouldKeepAlive (headers : Headers) : Serve Bool := do
  return !(toLower ((headers.get (str "connection")).getD []) == str "close" || (← stopped))

-- What the engine makes of a request that the policies turn away.
def sendRefusal (server : Server) (request : Request) (http11 : Bool) : Serve Outcome := do
  match ← engine (Engine.handle server.config server.mime request) with
  | .handled response =>
      match ← sendResponse reasons response http11 with
      | .keep _ => return .keep false
      | outcome => return outcome
  | .trap => return .trap
  | _ => sendFallbackStatus 403 (str "Forbidden")

def serveFile (server : Server) (request : Request) (hasBody http11 : Bool) : Serve Outcome := do
  match ← engine (Engine.handle server.config server.mime request) with
  | .handled response =>
      match ← sendResponse reasons response http11 with
      | .keep true => return .keep (← shouldKeepAlive request.headers)
      | outcome => return outcome
  | .next =>
      match server.config.proxy with
      | some upstream => proxyHttpRequest server request hasBody request.target upstream
      | none =>
          match request.meth with
          | .other _ => sendFallbackStatus 405 (str "Method Not Allowed")
          | _ => sendFallbackStatus 404 (str "Not Found")
  | .error (.forbidden _) => sendFallbackStatus 403 (str "Forbidden")
  | .error .overloaded => sendFallbackStatus 503 (str "Service Unavailable")
  | .error _ => sendFallbackStatus 500 (str "Internal Server Error")
  | .trap => return .trap

def dispatchEngineRequest (server : Server) (request : Request) (hasBody http11 : Bool) :
    Serve Outcome :=
  match evaluateSecurityPolicies server.config request with
  | none => pure .trap
  | some .proceed =>
      match resolvePath server.config.root (str "/") request.target with
      | .error (.malformedUri _) => sendFallbackStatus 400 (str "Bad Request")
      | .error _ => sendFallbackStatus 403 (str "Forbidden")
      | .ok _ =>
          match server.config.proxyAll with
          | some upstream => proxyHttpRequest server request hasBody request.target upstream
          | none =>
              match server.matchProxyRule request.target with
              | some (target, path) => proxyHttpRequest server request hasBody path target
              | none => serveFile server request hasBody http11
  | some _ => sendRefusal server request http11

def handshake (server : Server) (request : Request) (hasBody : Bool) : Bool :=
  let nonce := (server.decodeBase64 ((request.headers.get (str "sec-websocket-key")).getD [])).getD []
  request.meth = .get && !hasBody && nonce.length = 16 &&
    request.headers.get (str "sec-websocket-version") = some (str "13") &&
    hasToken ((request.headers.get (str "connection")).getD []) (str "upgrade")

def upgradeTarget (server : Server) (request : Request) : Option (Str × Str) :=
  match server.config.proxyAll with
  | some url => some (url, request.target)
  | none =>
      match server.matchProxyRule request.target with
      | some pair => some pair
      | none => server.config.proxy.map fun url => (url, request.target)

def upgradeHead (parsed : TargetUrl) (path : Str) (headers : Headers) : Str :=
  str "GET " ++ parsed.basePath ++ path ++ str " HTTP/1.1\r\nHost: " ++ parsed.host ++ str ":" ++
    ofInt parsed.port.toInt ++ str "\r\n" ++
    (headers.entries.filter fun entry => entry.1 != str "host").flatMap
      (fun entry => entry.1 ++ str ": " ++ entry.2 ++ str "\r\n") ++ str "\r\n"

def proxyWebsocket (server : Server) (request : Request) (hasBody : Bool) : Serve Outcome := do
  if ← acquires (proxyCharge server.config) then
    match evaluateSecurityPolicies server.config request with
    | none => return .trap
    | some .proceed =>
        match resolvePath server.config.root (str "/") request.target with
        | .error _ => sendFallbackStatus 403 (str "Forbidden")
        | .ok _ =>
            if handshake server request hasBody then
              match upgradeTarget server request with
              | none => sendFallbackStatus 404 (str "Not Found")
              | some (upstreamUrl, path) =>
                  match parseTargetUrl upstreamUrl with
                  | none => sendFallbackStatus 502 (str "Bad Gateway")
                  | some parsed =>
                      if ← connects parsed then
                        upgrades (encode (upgradeHead parsed path request.headers))
                        return .keep false
                      else sendFallbackStatus 502 (str "Bad Gateway")
            else sendFallbackStatus 400 (str "Bad Request")
    | some _ => sendRefusal server request true
  else sendFallbackStatus 503 (str "Service Unavailable")

def serveRequest (server : Server) (head : Head) (hasBody : Bool) : Serve Outcome :=
  if upgradable server.config head.request then
    if head.http11 then proxyWebsocket server head.request hasBody
    else sendFallbackStatus 400 (str "Bad Request")
  else dispatchEngineRequest server head.request hasBody head.http11

namespace Plain

def reasons : List (Int32 × Str) := (204, str "No Content") :: Serving.reasons

def errorText (status : Int32) (reason : Str) : Str :=
  statusLine status reason ++ str "Connection: close\r\nContent-Length: " ++ ofNat reason.length ++
    str "\r\n\r\n" ++ reason

-- A failed write raises.
def sendError (status : Int32) (reason : Str) : Serve Outcome := do
  if ← sends (encode (errorText status reason)) then return .keep false else return .failed

def serveRequest (server : Server) (head : Head) : Serve Outcome := do
  match ← engine (Engine.handle server.config server.mime head.request) with
  | .handled response => sendResponse reasons response head.http11
  | .next => sendError 404 (str "Not Found")
  | .error (.forbidden _) => sendError 403 (str "Forbidden")
  | .error .overloaded => sendError 503 (str "Service Unavailable")
  | .error _ => sendError 500 (str "Internal Server Error")
  | .trap => return .trap

end Plain

end HttpServer.Serving
