import HttpServer.Server.Dispatch

set_option autoImplicit false

namespace HttpServer.Serving

open Unicode Text HttpServer.Core Framing Dialogue
open Engine (HandleResult ServerError)
open HttpServer.Server (parseTargetUrl upstreamPath headText)

/-- A response of the engine, a text of the server itself, or what a proxied request comes to. -/
inductive Reply where
  | engine (response : StaticPlan.Response)
  | own (status : Int32) (reason : Str)
  | relayed (pieces : List Bytes)
  | upgraded
  | failed
  | trap

def relayReply (chunked : Bool) : Serve Reply := do
  match ← relays chunked with
  | none => return .failed
  | some [] => return .own 502 (str "Bad Gateway")
  | some pieces => return .relayed pieces

def proxyReply (server : Server) (request : Request) (hasBody : Bool) (target upstreamUrl : Str) :
    Serve Reply := do
  if ← acquires (proxyCharge server.config) then
    match parseTargetUrl upstreamUrl with
    | none => return .own 502 (str "Bad Gateway")
    | some parsed =>
        if ← connects parsed then
          let head := encode (headText request.meth request.headers (upstreamPath parsed target) parsed)
          if ← forwards head then
            if hasBody && hasToken ((request.headers.get (str "expect")).getD []) (str "100-continue") then
              if !(← sends (encode (str "HTTP/1.1 100 Continue\r\n\r\n"))) then return .failed
            relayReply (request.headers.contains (str "transfer-encoding"))
          else return .own 502 (str "Bad Gateway")
        else return .own 502 (str "Bad Gateway")
  else return .own 503 (str "Service Unavailable")

def refusalReply : HandleResult → Reply
  | .handled response => .engine response
  | .trap => .trap
  | _ => .own 403 (str "Forbidden")

-- The status that stands for a result of the engine which is no response.
def missingReply (request : Request) : Reply :=
  match request.meth with
  | .other _ => .own 405 (str "Method Not Allowed")
  | _ => .own 404 (str "Not Found")

def errorReply : ServerError → Reply
  | .forbidden _ => .own 403 (str "Forbidden")
  | .overloaded => .own 503 (str "Service Unavailable")
  | _ => .own 500 (str "Internal Server Error")

def fileReply (server : Server) (request : Request) (hasBody : Bool) : HandleResult → Serve Reply
  | .handled response => pure (.engine response)
  | .next =>
      match server.config.proxy with
      | some upstream => proxyReply server request hasBody request.target upstream
      | none => pure (missingReply request)
  | .error e => pure (errorReply e)
  | .trap => pure .trap

def handles (server : Server) (request : Request) : Serve HandleResult :=
  engine (Engine.handle server.config server.mime request)

def dispatchReply (server : Server) (handle : Serve HandleResult) (request : Request)
    (hasBody : Bool) : Serve Reply :=
  match evaluateSecurityPolicies server.config request with
  | none => pure .trap
  | some .proceed =>
      match resolvePath server.config.root (str "/") request.target with
      | .error (.malformedUri _) => pure (.own 400 (str "Bad Request"))
      | .error _ => pure (.own 403 (str "Forbidden"))
      | .ok _ =>
          match server.config.proxyAll with
          | some upstream => proxyReply server request hasBody request.target upstream
          | none =>
              match server.matchProxyRule request.target with
              | some (target, path) => proxyReply server request hasBody path target
              | none => handle >>= fileReply server request hasBody
  | some _ => refusalReply <$> handle

def websocketReply (server : Server) (handle : Serve HandleResult) (request : Request)
    (hasBody : Bool) : Serve Reply := do
  if ← acquires (proxyCharge server.config) then
    match evaluateSecurityPolicies server.config request with
    | none => return .trap
    | some .proceed =>
        match resolvePath server.config.root (str "/") request.target with
        | .error _ => return .own 403 (str "Forbidden")
        | .ok _ =>
            if handshake server request hasBody then
              match upgradeTarget server request with
              | none => return .own 404 (str "Not Found")
              | some (upstreamUrl, path) =>
                  match parseTargetUrl upstreamUrl with
                  | none => return .own 502 (str "Bad Gateway")
                  | some parsed =>
                      if ← connects parsed then
                        upgrades (encode (upgradeHead parsed path request.headers))
                        return .upgraded
                      else return .own 502 (str "Bad Gateway")
            else return .own 400 (str "Bad Request")
    | some _ => refusalReply <$> handle
  else return .own 503 (str "Service Unavailable")

-- What the server settles on when `handle` is what its engine makes of the request.
def fullReply (server : Server) (handle : Serve HandleResult) (head : Head) (hasBody : Bool) :
    Serve Reply :=
  if upgradable server.config head.request then
    if head.http11 then websocketReply server handle head.request hasBody
    else pure (.own 400 (str "Bad Request"))
  else dispatchReply server handle head.request hasBody

def turnedAside (config : Config) (request : Request) : Bool :=
  match evaluateSecurityPolicies config request with
  | some .proceed => false
  | _ => true

def writeReply (server : Server) (head : Head) : Reply → Serve Outcome
  | .engine response => do
      match ← sendResponse reasons response head.http11 with
      | .keep true =>
          if turnedAside server.config head.request then return .keep false
          else return .keep (← shouldKeepAlive head.request.headers)
      | outcome => return outcome
  | .own status reason => sendFallbackStatus status reason
  | .relayed pieces => relayLoop pieces
  | .upgraded => pure (.keep false)
  | .failed => pure .failed
  | .trap => pure .trap

namespace Plain

def reply : HandleResult → Reply
  | .handled response => .engine response
  | .next => .own 404 (str "Not Found")
  | .error e => errorReply e
  | .trap => .trap

def writeReply (head : Head) : Reply → Serve Outcome
  | .engine response => sendResponse reasons response head.http11
  | .own status reason => sendError status reason
  | .relayed _ => pure .failed
  | .upgraded => pure .failed
  | .failed => pure .failed
  | .trap => pure .trap

end Plain

section

variable {server : Server} {request : Request} {head : Head} {hasBody : Bool}

theorem map_write (d : Serve HandleResult) (f : HandleResult → Reply) (write : Reply → Serve Outcome) :
    (f <$> d) >>= write = d >>= fun result => write (f result) :=
  Dialogue.bind_assoc d (fun result => pure (f result)) write

theorem proxyHttpRequest_eq (target upstreamUrl : Str) :
    proxyHttpRequest server head.request hasBody target upstreamUrl =
      proxyReply server head.request hasBody target upstreamUrl >>= writeReply server head := by
  refine congrArg (Dialogue.ask _) (funext fun granted => ?_)
  cases granted with
  | false => rfl
  | true =>
    dsimp only [if_true]
    cases parseTargetUrl upstreamUrl with
    | none => rfl
    | some parsed =>
      refine congrArg (Dialogue.ask _) (funext fun connected => ?_)
      cases connected with
      | false => rfl
      | true =>
        refine congrArg (Dialogue.ask _) (funext fun forwarded => ?_)
        cases forwarded with
        | false => rfl
        | true =>
          by_cases expects : (hasBody && hasToken ((head.request.headers.get (str "expect")).getD [])
              (str "100-continue")) = true
          · simp only [expects]
            refine congrArg (Dialogue.ask _) (funext fun continued => ?_)
            cases continued with
            | false => rfl
            | true =>
              refine congrArg (Dialogue.ask _) (funext fun answer => ?_)
              rcases answer with _ | (_ | ⟨piece, rest⟩) <;> rfl
          · simp only [expects]
            refine congrArg (Dialogue.ask _) (funext fun answer => ?_)
            rcases answer with _ | (_ | ⟨piece, rest⟩) <;> rfl

theorem sendRefusal_eq (aside : turnedAside server.config head.request = true) :
    sendRefusal server head.request head.http11 =
      (refusalReply <$> handles server head.request) >>= writeReply server head := by
  rw [map_write]
  refine Dialogue.bind_congr fun result => ?_
  cases result with
  | handled response =>
    simp only [refusalReply, writeReply, aside, if_true]
    refine Dialogue.bind_congr fun outcome => ?_
    rcases outcome with (_ | _) | _ | _ <;> rfl
  | next => rfl
  | error e => rfl
  | trap => rfl

theorem serveFile_eq (straight : turnedAside server.config head.request = false) :
    serveFile server head.request hasBody head.http11 =
      (handles server head.request >>= fileReply server head.request hasBody) >>=
        writeReply server head := by
  rw [Dialogue.bind_assoc]
  refine Dialogue.bind_congr fun result => ?_
  cases result with
  | handled response =>
    simp only [fileReply, pure_eq, done_bind, writeReply, straight]
    refine Dialogue.bind_congr fun outcome => ?_
    rcases outcome with (_ | _) | _ | _ <;> rfl
  | next =>
    simp only [fileReply]
    cases server.config.proxy with
    | some upstream => exact proxyHttpRequest_eq _ _
    | none =>
      simp only [missingReply]
      cases head.request.meth <;> rfl
  | error e => cases e <;> rfl
  | trap => rfl

theorem dispatch_eq : dispatchEngineRequest server head.request hasBody head.http11 =
    dispatchReply server (handles server head.request) head.request hasBody >>=
      writeReply server head := by
  unfold dispatchEngineRequest dispatchReply
  cases decision : evaluateSecurityPolicies server.config head.request with
  | none => rfl
  | some verdict =>
    cases verdict with
    | proceed =>
      have straight : turnedAside server.config head.request = false := by
        simp [turnedAside, decision]
      dsimp only
      cases resolvePath server.config.root (str "/") head.request.target with
      | error e => cases e <;> rfl
      | ok path =>
        dsimp only
        cases server.config.proxyAll with
        | some upstream => exact proxyHttpRequest_eq _ _
        | none =>
          dsimp only
          cases server.matchProxyRule head.request.target with
          | some rule => exact proxyHttpRequest_eq _ _
          | none => exact serveFile_eq straight
    | _ => exact sendRefusal_eq (by simp [turnedAside, decision])

theorem websocket_eq (version : head.http11 = true) :
    proxyWebsocket server head.request hasBody =
      websocketReply server (handles server head.request) head.request hasBody >>=
        writeReply server head := by
  refine congrArg (Dialogue.ask _) (funext fun granted => ?_)
  cases granted with
  | false => rfl
  | true =>
    dsimp only [if_true]
    cases decision : evaluateSecurityPolicies server.config head.request with
    | none => rfl
    | some verdict =>
      cases verdict with
      | proceed =>
        dsimp only
        cases resolvePath server.config.root (str "/") head.request.target with
        | error e => rfl
        | ok path =>
          dsimp only
          by_cases fits : handshake server head.request hasBody = true
          · simp only [fits, if_true]
            cases upgradeTarget server head.request with
            | none => rfl
            | some pair =>
              dsimp only
              cases parseTargetUrl pair.1 with
              | none => rfl
              | some parsed =>
                refine congrArg (Dialogue.ask _) (funext fun connected => ?_)
                cases connected <;> rfl
          · simp only [fits]
            rfl
      | _ =>
        have aside : turnedAside server.config head.request = true := by simp [turnedAside, decision]
        have same := sendRefusal_eq aside
        rw [version] at same
        exact same

theorem serveRequest_eq : serveRequest server head hasBody =
    fullReply server (handles server head.request) head hasBody >>= writeReply server head := by
  unfold serveRequest fullReply
  by_cases upgrade : upgradable server.config head.request = true
  · rw [if_pos upgrade, if_pos upgrade]
    cases version : head.http11 with
    | true => exact websocket_eq version
    | false => rfl
  · rw [if_neg upgrade, if_neg upgrade]
    exact dispatch_eq

theorem plain_eq : Plain.serveRequest server head =
    handles server head.request >>= fun result => Plain.writeReply head (Plain.reply result) := by
  refine Dialogue.bind_congr fun result => ?_
  cases result with
  | error e => cases e <;> rfl
  | _ => rfl

end

end HttpServer.Serving
