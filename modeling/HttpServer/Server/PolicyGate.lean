import HttpServer.Server.Dispatch
import HttpServer.StaticPlan.Positions

set_option autoImplicit false

namespace HttpServer.Serving

open Unicode Text HttpServer.Core Framing Dialogue
open Engine (Ask HandleResult)

def Refused (config : Config) (request : Request) : Prop :=
  hostRefused config request = true ∨ basicAuthorized config request = some false

abbrev Events := History Effect Effect.Answer

/-- What neither looks at a file nor reaches an upstream. -/
inductive Guarded : Effect → Prop
  | closing : Guarded (.engine .closing)
  | reserves (bytes : Int32) : Guarded (.engine (.reserves false bytes))
  | acquires (bytes : Int32) : Guarded (.acquires bytes)
  | sends (data : Bytes) : Guarded (.sends data)

-- The engine is open, there is memory for the body, and the client takes what it is sent.
def smooth : Sigma Effect.Answer → Prop
  | ⟨.engine .closing, answer⟩ => answer = false
  | ⟨.engine (.reserves _ _), answer⟩ => answer = .ok ()
  | ⟨.acquires _, answer⟩ => answer = true
  | ⟨.sends _, answer⟩ => answer = true
  | _ => True

def Smooth (past : Events) : Prop := ∀ event ∈ past, smooth event

def written (past : Events) : Bytes :=
  past.flatMap fun event => match event.1 with
    | .sends data => data
    | _ => []

/-- Nothing but guarded effects, and `reply` on the wire. -/
structure Gated (serve : Serve Outcome) (reply : Bytes) : Prop where
  asked : ∀ past effect next, Run serve past (.ask effect next) → Guarded effect
  written : ∀ past outcome, Run serve past (.done outcome) → Smooth past → written past = reply

def turnedAway (config : Config) (request : Request) (status : Int32) (headers : Headers)
    (body : Bytes) : StaticPlan.Response where
  status
  headers := applySecurityHeaders
    ((headers.insert (str "Content-Type") (str "text/plain; charset=UTF-8")).insert
      (str "Content-Length") (ofNat body.length)) config request.meth
  body := if request.meth = .head then .empty else .bytes body

def refusal (config : Config) (request : Request) : Option StaticPlan.Response :=
  match evaluateSecurityPolicies config request with
  | some (.unauthorized headers body) => some (turnedAway config request 401 headers body)
  | some (.forbidden headers body) => some (turnedAway config request 403 headers body)
  | _ => none

def contentOf : StaticPlan.Body → Bytes
  | .bytes content => content
  | _ => []

def responseBytes (reasons : List (Int32 × Str)) (response : StaticPlan.Response) : Bytes :=
  encode (headerText reasons response.status response.headers) ++ contentOf response.body

def refusalBytes (reasons : List (Int32 × Str)) (config : Config) (request : Request) : Bytes :=
  ((refusal config request).map (responseBytes reasons)).getD []

def fullRefusal (config : Config) (head : Head) : Bytes :=
  if upgradable config head.request && !head.http11 then
    encode (fallbackText 400 (str "Bad Request"))
  else refusalBytes reasons config head.request

abbrev Only {R : Type} (result : R → Prop) (serve : Serve R) : Prop := Always Guarded result serve

def smoothHost : (effect : Effect) → effect.Answer
  | .engine .closing => false
  | .engine (.opens _) => .error .missing
  | .engine (.reads _ _ _) => .error .missing
  | .engine (.names _) => .error .missing
  | .engine (.checks _) => .ok ()
  | .engine (.reserves _ _) => .ok ()
  | .acquires _ => true
  | .stopped => false
  | .connects _ => false
  | .forwards _ => false
  | .relays _ => none
  | .upgrades _ => ()
  | .sends _ => true
  | .transfers _ _ => true

theorem smooth_answer {effect : Effect} (guarded : Guarded effect) {answer : effect.Answer}
    (fits : smooth ⟨effect, answer⟩) : answer = smoothHost effect := by
  cases guarded with
  | closing => exact fits
  | reserves => exact fits
  | acquires => exact fits
  | sends => exact fits

theorem smooth_run {R : Type} {result : R → Prop} {serve last : Serve R} {past : Events} {r : R}
    (only : Only result serve) (run : Run serve past last) (ends : last = .done r)
    (fits : Smooth past) : past = (play smoothHost serve).1 := by
  induction run with
  | here d =>
    subst ends
    rfl
  | answer answer rest ih =>
    obtain rfl := smooth_answer only.1 (fits _ List.mem_cons_self)
    have same := ih (only.2 _) ends fun event member => fits event (List.mem_cons_of_mem _ member)
    rw [same]
    rfl

theorem gated {serve : Serve Outcome} {reply : Bytes} (only : Only (fun _ => True) serve)
    (plays : written (play smoothHost serve).1 = reply) : Gated serve reply where
  asked _ _ _ run := (only.run run).1
  written past outcome run fits := by
    rw [smooth_run only run rfl fits, plays]

theorem fallback_only (status : Int32) (reason : Str) :
    Only (fun _ => True) (sendFallbackStatus status reason) :=
  ⟨.sends _, fun _ => trivial⟩

theorem error_only (status : Int32) (reason : Str) :
    Only (fun _ => True) (Plain.sendError status reason) := by
  refine ⟨.sends _, fun answer => ?_⟩
  cases answer <;> trivial

theorem written_append (past more : Events) : written (past ++ more) = written past ++ written more := by
  simp [written]

section

variable {config : Config} {request : Request} {response : StaticPlan.Response}

theorem refusal_some (refused : Refused config request) :
    ∃ response, refusal config request = some response := by
  unfold refusal evaluateSecurityPolicies
  by_cases host : hostRefused config request = true
  · simp [host]
  · have unauthorized : basicAuthorized config request = some false := refused.resolve_left host
    simp [host, unauthorized]

theorem refusal_cases (away : refusal config request = some response) :
    ∃ status headers body, response = turnedAway config request status headers body ∧
      (status = 401 ∧ evaluateSecurityPolicies config request = some (.unauthorized headers body) ∨
        status = 403 ∧ evaluateSecurityPolicies config request = some (.forbidden headers body)) := by
  unfold refusal at away
  split at away
  next headers body decision =>
    cases away
    exact ⟨401, headers, body, rfl, Or.inl ⟨rfl, decision⟩⟩
  next headers body decision =>
    cases away
    exact ⟨403, headers, body, rfl, Or.inr ⟨rfl, decision⟩⟩
  next => cases away

theorem start_refused (away : refusal config request = some response) (mime : MimeRegistry) :
    StaticPlan.start config request mime = .done (.responds response) := by
  obtain ⟨status, headers, body, rfl, ⟨rfl, decision⟩ | ⟨rfl, decision⟩⟩ := refusal_cases away
  · simp only [StaticPlan.start, decision]
    rfl
  · simp only [StaticPlan.start, decision]
    rfl

theorem handle_refused (away : refusal config request = some response) (mime : MimeRegistry) :
    Engine.handle config mime request =
      Engine.closing >>= fun closing =>
        if closing then pure (.error .closed) else Engine.register config response := by
  unfold Engine.handle Engine.planRequest
  rw [start_refused away]
  rfl

theorem memory_refused (away : refusal config request = some response) :
    response.body = .empty ∨ ∃ content, response.body = .bytes content := by
  obtain ⟨status, headers, body, rfl, -⟩ := refusal_cases away
  by_cases head : request.meth = .head
  · exact Or.inl (if_pos head)
  · exact Or.inr ⟨body, if_neg head⟩

theorem handle_only (away : refusal config request = some response) (mime : MimeRegistry) :
    Only (fun result => ∃ error, result = .error error ∨ result = .handled response)
      (engine (Engine.handle config mime request)) := by
  rw [handle_refused away]
  refine ⟨.closing, fun answer => ?_⟩
  cases answer with
  | true => exact ⟨.closed, Or.inl rfl⟩
  | false =>
    refine ⟨.closing, fun answer => ?_⟩
    cases answer with
    | true => exact ⟨.closed, Or.inl rfl⟩
    | false =>
      refine ⟨.reserves _, fun answer => ?_⟩
      cases answer with
      | error e => exact ⟨_, Or.inl rfl⟩
      | ok => exact ⟨.closed, Or.inr rfl⟩

theorem check_memory (memory : response.body = .empty ∨ ∃ content, response.body = .bytes content) :
    check response = .ask (.engine .closing) fun closing => .done (!closing) := by
  unfold check
  refine congrArg (Dialogue.ask (Effect.engine .closing)) (funext fun closing => ?_)
  cases closing with
  | true => rfl
  | false =>
    rcases memory with empty | ⟨content, bytes⟩
    · rw [empty]
      rfl
    · rw [bytes]
      rfl

theorem sendResponse_only (reasons : List (Int32 × Str)) (http11 : Bool)
    (memory : response.body = .empty ∨ ∃ content, response.body = .bytes content) :
    Only (fun _ => True) (sendResponse reasons response http11) := by
  unfold sendResponse
  rw [check_memory memory]
  refine ⟨.closing, fun closing => ?_⟩
  cases closing with
  | true => trivial
  | false =>
    refine ⟨.sends _, fun sent => ?_⟩
    cases sent with
    | false => trivial
    | true =>
      rcases memory with empty | ⟨content, bytes⟩
      · rw [empty]
        trivial
      · rw [bytes]
        cases content with
        | nil => trivial
        | cons byte rest => exact ⟨.sends _, fun _ => trivial⟩

theorem sendResponse_plays (reasons : List (Int32 × Str)) (http11 : Bool)
    (memory : response.body = .empty ∨ ∃ content, response.body = .bytes content) :
    written (play smoothHost (sendResponse reasons response http11)).1 =
      responseBytes reasons response := by
  have whole : finalHeaders response http11 = response.headers := by
    rcases memory with empty | ⟨content, bytes⟩
    · simp [finalHeaders, empty, isStreaming]
    · simp [finalHeaders, bytes, isStreaming]
  unfold sendResponse responseBytes
  rw [check_memory memory, whole]
  rcases memory with empty | ⟨content, bytes⟩
  · rw [empty]
    change encode _ ++ [] = _
    rfl
  · rw [bytes]
    cases content with
    | nil =>
      change encode _ ++ [] = _
      rfl
    | cons byte rest =>
      change encode _ ++ ((byte :: rest) ++ []) = _
      rw [List.append_nil]
      rfl

theorem handle_plays (away : refusal config request = some response) (mime : MimeRegistry) :
    written (play smoothHost (engine (Engine.handle config mime request))).1 = [] ∧
      ending smoothHost (engine (Engine.handle config mime request)) = .handled response := by
  rw [handle_refused away]
  exact ⟨rfl, rfl⟩

variable {server : Server} {http11 : Bool}

theorem sendRefusal_only (away : refusal server.config request = some response) :
    Only (fun _ => True) (sendRefusal server request http11) := by
  apply (handle_only away server.mime).bind
  rintro result ⟨error, rfl | rfl⟩
  · exact fallback_only _ _
  · apply (sendResponse_only reasons http11 (memory_refused away)).bind
    intro outcome _
    cases outcome <;> trivial

theorem sendRefusal_plays (away : refusal server.config request = some response) :
    written (play smoothHost (sendRefusal server request http11)).1 =
      responseBytes reasons response := by
  obtain ⟨nothing, handled⟩ := handle_plays away server.mime
  unfold sendRefusal
  rw [play_bind, written_append, nothing, handled, List.nil_append]
  dsimp only
  rw [play_bind, written_append, sendResponse_plays reasons http11 (memory_refused away)]
  cases ending smoothHost (sendResponse reasons response http11) <;> exact List.append_nil _

theorem dispatch_refused (away : refusal server.config request = some response) (hasBody : Bool) :
    dispatchEngineRequest server request hasBody http11 = sendRefusal server request http11 := by
  unfold dispatchEngineRequest
  obtain ⟨status, headers, body, rfl, ⟨rfl, decision⟩ | ⟨rfl, decision⟩⟩ := refusal_cases away
  · rw [decision]
  · rw [decision]

theorem websocket_refused (away : refusal server.config request = some response) (hasBody : Bool) :
    proxyWebsocket server request hasBody =
      acquires (proxyCharge server.config) >>= fun granted =>
        if granted then sendRefusal server request true
        else sendFallbackStatus 503 (str "Service Unavailable") := by
  unfold proxyWebsocket
  obtain ⟨status, headers, body, rfl, ⟨rfl, decision⟩ | ⟨rfl, decision⟩⟩ := refusal_cases away
  · rw [decision]
  · rw [decision]

theorem full_gated (away : refusal server.config request = some response) (head : Head)
    (same : head.request = request) (hasBody : Bool) :
    Gated (serveRequest server head hasBody) (fullRefusal server.config head) := by
  subst same
  have bytes : refusalBytes reasons server.config head.request = responseBytes reasons response := by
    simp [refusalBytes, away]
  unfold serveRequest fullRefusal
  rw [bytes]
  cases upgrade : upgradable server.config head.request with
  | false =>
    simp only [Bool.false_and, Bool.false_eq_true, if_false, dispatch_refused away]
    exact gated (sendRefusal_only away) (sendRefusal_plays away)
  | true =>
    cases version : head.http11 with
    | false => exact gated (fallback_only _ _) (List.append_nil _)
    | true =>
      simp only [if_true, Bool.not_true, Bool.and_false, Bool.false_eq_true, if_false,
        websocket_refused away]
      refine gated ⟨.acquires _, fun granted => ?_⟩ ?_
      · cases granted with
        | true => exact sendRefusal_only away
        | false => exact fallback_only _ _
      · exact sendRefusal_plays away

theorem plain_gated (away : refusal server.config request = some response) (head : Head)
    (same : head.request = request) :
    Gated (Plain.serveRequest server head)
      (refusalBytes Plain.reasons server.config head.request) := by
  subst same
  have bytes : refusalBytes Plain.reasons server.config head.request =
      responseBytes Plain.reasons response := by
    simp [refusalBytes, away]
  rw [bytes]
  unfold Plain.serveRequest
  apply gated
  · apply (handle_only away server.mime).bind
    rintro result ⟨error, rfl | rfl⟩
    · cases error <;> exact error_only _ _
    · exact sendResponse_only Plain.reasons head.http11 (memory_refused away)
  · obtain ⟨nothing, handled⟩ := handle_plays away server.mime
    rw [play_bind, written_append, nothing, handled, List.nil_append]
    exact sendResponse_plays Plain.reasons head.http11 (memory_refused away)

end

/-- A request that the policies turn away reaches no file and no upstream, and is answered from the
configuration and the request alone. -/
theorem policy_gate (server : Server) (head : Head) (hasBody : Bool)
    (refused : Refused server.config head.request) :
    Gated (serveRequest server head hasBody) (fullRefusal server.config head) ∧
      Gated (Plain.serveRequest server head)
        (refusalBytes Plain.reasons server.config head.request) := by
  obtain ⟨response, away⟩ := refusal_some refused
  exact ⟨full_gated away head rfl hasBody, plain_gated away head rfl⟩

def guardedServer : Server where
  config := { Config.default (str "/site") with
    hostWhitelist := [str "example.com"]
    basicAuth := some (str "user", str "secret")
    proxy := some (str "http://127.0.0.1:3000")
    websocket := true }
  mime := .new
  proxyRules := []
  decodeBase64 key := if key = [] then some [] else none

def strangeHead : Head where
  request := ⟨.get, str "/docs/", OrderedMap.ofList [(str "host", str "example.org")]⟩
  http11 := true
  keepAlive := true

theorem policy_gate_strange :
    Gated (serveRequest guardedServer strangeHead false)
        (fullRefusal guardedServer.config strangeHead) ∧
      Gated (Plain.serveRequest guardedServer strangeHead)
        (refusalBytes Plain.reasons guardedServer.config strangeHead.request) :=
  policy_gate guardedServer strangeHead false (Or.inl (by decide +kernel))

end HttpServer.Serving
