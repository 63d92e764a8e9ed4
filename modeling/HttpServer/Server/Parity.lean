import HttpServer.Framing.Head
import HttpServer.Server.PolicyGate
import HttpServer.Server.Replies

set_option autoImplicit false

namespace HttpServer.Serving

open Unicode Text HttpServer.Core Framing Dialogue
open Engine (HandleResult ServerError)
open StateRun (value?_eq_some)

structure Server.Standalone (server : Server) : Prop where
  proxy : server.config.hasProxy = false
  rules : server.proxyRules = []

structure Turn where
  head : Head
  hasBody : Bool
  result : HandleResult

/-- A client that takes whatever it is sent, files that stay as they are, and a server that is
not stopped. -/
structure Faultless (host : (query : Effect) → query.Answer) : Prop where
  opened : host (.engine .closing) = false
  checked : ∀ token, host (.engine (.checks token)) = .ok ()
  going : host .stopped = false
  sent : ∀ data, host (.sends data) = true
  transferred : ∀ body chunked, host (.transfers body chunked) = true

def conversation (host : (query : Effect) → query.Answer) (reply : Turn → Serve Reply)
    (write : Head → Reply → Serve Outcome) : List Turn → List Reply
  | [] => []
  | turn :: rest =>
      let answer := ending host (reply turn)
      answer :: if ending host (write turn.head answer) = .keep true ∧ turn.head.keepAlive
        then conversation host reply write rest else []

def fullConversation (server : Server) (host : (query : Effect) → query.Answer) :
    List Turn → List Reply :=
  conversation host (fun turn => fullReply server (pure turn.result) turn.head turn.hasBody)
    (writeReply server)

def Plain.conversation (host : (query : Effect) → query.Answer) : List Turn → List Reply :=
  Serving.conversation host (fun turn => pure (Plain.reply turn.result)) Plain.writeReply

-- The content of a body, if `transferred` is what becomes of a file region or a listing.
def content (transferred : StaticPlan.Body → Bytes) : StaticPlan.Body → Bytes
  | .empty => []
  | .bytes data => data
  | body => transferred body

def told (transferred : StaticPlan.Body → Bytes) : Reply → Option (Int32 × Bytes)
  | .engine response => some (response.status, content transferred response.body)
  | .own status reason => some (status, encode reason)
  | _ => none

def Answers (transferred : StaticPlan.Body → Bytes) (result : HandleResult) (status : Int32)
    (text : Str) : Prop :=
  ∃ response, result = .handled response ∧ response.status = status ∧
    content transferred response.body = encode text

def Forbids (result : HandleResult) : Prop := ∃ message, result = .error (.forbidden message)

/-- The checks that the Full server makes first, and its own status for a method that is not
served, tell the client nothing else than the engine's result does. -/
def Concurs (server : Server) (transferred : StaticPlan.Body → Bytes) (turn : Turn) : Prop :=
  match evaluateSecurityPolicies server.config turn.head.request with
  | none => turn.result = .trap
  | some .proceed =>
      match resolvePath server.config.root (str "/") turn.head.request.target with
      | .error (.malformedUri _) => Answers transferred turn.result 400 (str "Bad Request")
      | .error _ => Answers transferred turn.result 403 (str "Forbidden") ∨ Forbids turn.result
      | .ok _ => turn.result = .next → ∀ name, turn.head.request.meth ≠ .other name
  | some _ => turn.result ≠ .next ∧ ∀ e, turn.result = .error e → Forbids turn.result

def admitted (server : Server) (request : Request) : Bool :=
  !turnedAside server.config request &&
    match resolvePath server.config.root (str "/") request.target with
    | .ok _ => true
    | .error _ => false

-- The engine answers, and where the response ends is told before the connection does.
def Turn.lasts (turn : Turn) : Bool :=
  turn.head.keepAlive &&
    match turn.result with
    | .handled response => turn.head.http11 || !isStreaming response.body
    | _ => false

-- Each turn concurs, and none follows one after which only the Thin server reads on.
def Meets (server : Server) (transferred : StaticPlan.Body → Bytes) : List Turn → Prop
  | [] => True
  | turn :: rest => Concurs server transferred turn ∧
      (turn.lasts = true →
        if admitted server turn.head.request then Meets server transferred rest else rest = [])

section

variable {server : Server} {transferred : StaticPlan.Body → Bytes} {turn : Turn}
  {host : (query : Effect) → query.Answer}

def standaloneReply (server : Server) (request : Request) (result : HandleResult) : Reply :=
  match evaluateSecurityPolicies server.config request with
  | none => .trap
  | some .proceed =>
      match resolvePath server.config.root (str "/") request.target with
      | .error (.malformedUri _) => .own 400 (str "Bad Request")
      | .error _ => .own 403 (str "Forbidden")
      | .ok _ =>
          match result with
          | .handled response => .engine response
          | .next => missingReply request
          | .error e => errorReply e
          | .trap => .trap
  | some _ => refusalReply result

theorem Server.Standalone.proxies (standalone : server.Standalone) :
    server.config.proxy = none ∧ server.config.proxyAll = none := by
  have nothing := standalone.proxy
  simp only [Config.hasProxy, Bool.or_eq_false_iff, Option.isSome_eq_false_iff,
    Option.isNone_iff_eq_none] at nothing
  exact nothing.1.1

theorem standalone_reply (standalone : server.Standalone) :
    fullReply server (pure turn.result) turn.head turn.hasBody =
      pure (standaloneReply server turn.head.request turn.result) := by
  have noUpgrade : upgradable server.config turn.head.request = false := by
    simp [upgradable, Config.hasWebsocketProxy, standalone.proxy]
  have noRule : server.matchProxyRule turn.head.request.target = none := by
    simp [Server.matchProxyRule, standalone.rules]
  simp only [fullReply, noUpgrade, dispatchReply, standaloneReply, standalone.proxies, noRule]
  cases evaluateSecurityPolicies server.config turn.head.request with
  | none => rfl
  | some decision =>
    cases decision with
    | proceed =>
      dsimp only
      cases resolvePath server.config.root (str "/") turn.head.request.target with
      | error e => cases e <;> rfl
      | ok path =>
        dsimp only
        cases turn.result with
        | next => simp [fileReply, standalone.proxies]
        | _ => rfl
    | _ => rfl

-- A status of the Full server, told apart from every status the Thin server has of its own.
theorem answers_iff {status : Int32} {text : Str} (result : HandleResult)
    (apart : ∀ other reason, Plain.reply result = .own other reason → status ≠ other) :
    told transferred (.own status text) = told transferred (Plain.reply result) ↔
      Answers transferred result status text := by
  cases result with
  | handled response =>
    simp only [told, Plain.reply, Answers, HandleResult.handled.injEq, exists_eq_left',
      Option.some.injEq, Prod.mk.injEq]
    exact ⟨fun same => ⟨same.1.symm, same.2.symm⟩, fun same => ⟨same.1.symm, same.2.symm⟩⟩
  | trap => simp [told, Plain.reply, Answers]
  | next => simp [told, Plain.reply, Answers, apart _ _ rfl]
  | error e => cases e <;> simp [told, Plain.reply, errorReply, Answers, apart _ _ rfl]

theorem malformed_iff (result : HandleResult) :
    told transferred (.own 400 (str "Bad Request")) = told transferred (Plain.reply result) ↔
      Answers transferred result 400 (str "Bad Request") := by
  refine answers_iff result fun other reason own => ?_
  cases result with
  | error e => cases e <;> cases own <;> decide
  | next => cases own; decide
  | _ => cases own

theorem forbidden_iff (result : HandleResult) :
    told transferred (.own 403 (str "Forbidden")) = told transferred (Plain.reply result) ↔
      Answers transferred result 403 (str "Forbidden") ∨ Forbids result := by
  by_cases forbids : Forbids result
  · obtain ⟨message, rfl⟩ := forbids
    simp [Plain.reply, errorReply, Forbids]
  · rw [or_iff_left forbids]
    refine answers_iff result fun other reason own => ?_
    cases result with
    | error e =>
      cases e with
      | forbidden message => exact absurd ⟨message, rfl⟩ forbids
      | _ => cases own; decide
    | next => cases own; decide
    | _ => cases own

theorem refused_iff (result : HandleResult) :
    told transferred (refusalReply result) = told transferred (Plain.reply result) ↔
      result ≠ .next ∧ ∀ e, result = .error e → Forbids result := by
  cases result with
  | handled response => simp [refusalReply, Plain.reply]
  | next => simp [refusalReply, Plain.reply, told]
  | error e => cases e <;> simp [refusalReply, Plain.reply, told, errorReply, Forbids]
  | trap => simp [refusalReply, Plain.reply]

theorem missing_iff (request : Request) :
    told transferred (missingReply request) = told transferred (Plain.reply .next) ↔
      ∀ name, request.meth ≠ .other name := by
  unfold missingReply
  cases request.meth <;> simp [Plain.reply, told]

-- A turn concurs exactly if the client is told the same.
theorem told_iff (turn : Turn) :
    told transferred (standaloneReply server turn.head.request turn.result) =
        told transferred (Plain.reply turn.result) ↔
      Concurs server transferred turn := by
  unfold standaloneReply Concurs
  cases evaluateSecurityPolicies server.config turn.head.request with
  | none => cases turn.result with
    | error e => cases e <;> simp [told, Plain.reply, errorReply]
    | _ => simp [told, Plain.reply]
  | some decision =>
    cases decision with
    | proceed =>
      dsimp only
      cases resolvePath server.config.root (str "/") turn.head.request.target with
      | error e =>
        cases e with
        | malformedUri message => exact malformed_iff turn.result
        | _ => exact forbidden_iff turn.result
      | ok path =>
        dsimp only
        cases turn.result with
        | next => simpa using missing_iff turn.head.request
        | _ => simp [Plain.reply]
    | _ => exact refused_iff turn.result

theorem check_ends (faultless : Faultless host) (response : StaticPlan.Response) :
    ending host (check response) = true := by
  have opened := faultless.opened
  unfold check
  cases response.body with
  | fileRegion file offset length =>
    have checked : ending host (engine (Engine.checks file.token).run) = .ok () :=
      congrArg (fun answer => Engine.raised answer) (faultless.checked file.token)
    have closing : ending host (engine Engine.closing) = false := opened
    simp only [ending_bind, closing, Bool.false_eq_true, if_false, checked]
    rfl
  | _ =>
    have closing : ending host (engine Engine.closing) = false := opened
    simp only [ending_bind, closing, Bool.false_eq_true, if_false]
    rfl

theorem writeBody_ends (faultless : Faultless host) (body : StaticPlan.Body) (chunked : Bool) :
    ending host (writeBody body chunked) = true := by
  cases body with
  | empty => rfl
  | bytes data =>
    cases data with
    | nil => rfl
    | cons b data => exact faultless.sent _
  | fileRegion file offset length => exact faultless.transferred _ _
  | listing stream => exact faultless.transferred _ _

theorem sendResponse_ends (faultless : Faultless host) (reasons : List (Int32 × Str))
    (response : StaticPlan.Response) (http11 : Bool) :
    ending host (sendResponse reasons response http11) =
      .keep (http11 || !isStreaming response.body) := by
  have sent : ending host (sends (encode (headerText reasons response.status
      (finalHeaders response http11)))) = true := faultless.sent _
  simp only [sendResponse, ending_bind, check_ends faultless, sent, writeBody_ends faultless,
    if_true, pure_eq, ending_done, Bool.true_and]
  cases http11 <;> cases isStreaming response.body <;> rfl

theorem errorReply_own (e : ServerError) : ∃ status reason, errorReply e = .own status reason := by
  cases e <;> exact ⟨_, _, rfl⟩

theorem plain_lasts (faultless : Faultless host) (turn : Turn) :
    (ending host (Plain.writeReply turn.head (Plain.reply turn.result)) = .keep true ∧
      turn.head.keepAlive) ↔ turn.lasts = true := by
  have own (status : Int32) (reason : Str) :
      ending host (Plain.writeReply turn.head (.own status reason)) ≠ .keep true := by
    have sent : ending host (sends (encode (Plain.errorText status reason))) = true :=
      faultless.sent _
    simp [Plain.writeReply, Plain.sendError, ending_bind, sent]
  unfold Turn.lasts
  cases result : turn.result with
  | handled response =>
    simp only [Plain.reply, Plain.writeReply, sendResponse_ends faultless, Outcome.keep.injEq,
      Bool.and_eq_true]
    exact And.comm
  | next => simp [Plain.reply, own]
  | error e =>
    obtain ⟨status, reason, same⟩ := errorReply_own e
    simp [Plain.reply, same, own]
  | trap => simp [Plain.reply, Plain.writeReply]

-- A client that asks for the connection to be closed has it closed by the framing already.
theorem close_closes {http11 : Bool} {headers : Headers}
    (close : toLower ((headers.get (str "connection")).getD []) = str "close") :
    keepAlive http11 headers = false := by
  have token : hasToken ((headers.get (str "connection")).getD []) (str "close") = true := by
    rw [hasToken, close]
    decide +kernel
  simp [keepAlive, token]

theorem engine_ends (faultless : Faultless host) (head : Head) (response : StaticPlan.Response) :
    ending host (writeReply server head (.engine response)) =
      .keep ((head.http11 || !isStreaming response.body) &&
        (!turnedAside server.config head.request &&
          toLower ((head.request.headers.get (str "connection")).getD []) != str "close")) := by
  have going : ending host stopped = false := faultless.going
  simp only [writeReply, ending_bind, sendResponse_ends faultless]
  cases head.http11 || !isStreaming response.body with
  | false => rfl
  | true =>
    dsimp only
    cases turnedAside server.config head.request with
    | true => rfl
    | false => simp [shouldKeepAlive, ending_bind, going, bne]

theorem full_lasts (faultless : Faultless host) (turn : Turn)
    (framed : turn.head.keepAlive = keepAlive turn.head.http11 turn.head.request.headers) :
    (ending host (writeReply server turn.head
        (standaloneReply server turn.head.request turn.result)) = .keep true ∧
      turn.head.keepAlive) ↔ turn.lasts = true ∧ admitted server turn.head.request = true := by
  have own (status : Int32) (reason : Str) :
      ending host (writeReply server turn.head (.own status reason)) ≠ .keep true := by
    simp [writeReply, sendFallbackStatus, ending_bind]
  have open_ (kept : turn.head.keepAlive = true) :
      toLower ((turn.head.request.headers.get (str "connection")).getD []) ≠ str "close" := by
    intro close
    rw [framed, close_closes close] at kept
    cases kept
  unfold standaloneReply admitted turnedAside Turn.lasts
  cases decision : evaluateSecurityPolicies server.config turn.head.request with
  | none => simp [writeReply]
  | some verdict =>
    cases verdict with
    | proceed =>
      have straight : turnedAside server.config turn.head.request = false := by
        simp [turnedAside, decision]
      dsimp only
      cases resolvePath server.config.root (str "/") turn.head.request.target with
      | error e => cases e <;> simp [own]
      | ok path =>
        dsimp only
        cases turn.result with
        | handled response =>
          simp only [engine_ends faultless, straight, Outcome.keep.injEq, Bool.and_eq_true,
            bne_iff_ne, Bool.not_false, and_true, true_and]
          exact ⟨fun ends => ⟨ends.2, ends.1.1⟩, fun ends => ⟨⟨ends.2, open_ ends.1⟩, ends.1⟩⟩
        | next =>
          have missing : ∃ status reason, missingReply turn.head.request = .own status reason := by
            unfold missingReply
            cases turn.head.request.meth <;> exact ⟨_, _, rfl⟩
          obtain ⟨status, reason, same⟩ := missing
          simp [same, own]
        | error e =>
          obtain ⟨status, reason, same⟩ := errorReply_own e
          simp [same, own]
        | trap => simp [writeReply]
    | _ =>
      have aside : turnedAside server.config turn.head.request = true := by
        simp [turnedAside, decision]
      cases turn.result with
      | handled response => simp [refusalReply, engine_ends faultless, aside]
      | trap => simp [refusalReply, writeReply]
      | _ => simp [refusalReply, own]

theorem conversation_cons (host : (query : Effect) → query.Answer) (reply : Turn → Serve Reply)
    (write : Head → Reply → Serve Outcome) (turn : Turn) (rest : List Turn) :
    conversation host reply write (turn :: rest) = ending host (reply turn) ::
      if ending host (write turn.head (ending host (reply turn))) = .keep true ∧
        turn.head.keepAlive then conversation host reply write rest else [] :=
  rfl

theorem conversation_eq_nil {reply : Turn → Serve Reply} {write : Head → Reply → Serve Outcome}
    (turns : List Turn) : conversation host reply write turns = [] ↔ turns = [] := by
  cases turns <;> simp [conversation]

end

section

variable {σ : Type} [Reader σ]

/-- The two servers tell a client the same exactly if every turn meets the condition. -/
theorem conversations_agree (server : Server) (standalone : server.Standalone)
    (host : (query : Effect) → query.Answer) (faultless : Faultless host)
    (transferred : StaticPlan.Body → Bytes) (turns : List Turn)
    (accepted : ∀ turn ∈ turns, ∃ c c' : Connection σ, readRequest c = .ok turn.head c') :
    (fullConversation server host turns).map (told transferred) =
        (Plain.conversation host turns).map (told transferred) ↔
      Meets server transferred turns := by
  induction turns with
  | nil => exact iff_of_true rfl trivial
  | cons turn rest ih =>
    obtain ⟨⟨c, c', read⟩, later⟩ := List.forall_mem_cons.mp accepted
    obtain ⟨raw, headers, -, -, -, same, -⟩ := readRequest_ok read
    have framed : turn.head.keepAlive = keepAlive turn.head.http11 turn.head.request.headers := by
      rw [same]
      rfl
    have agree := ih later
    have thinLasts := plain_lasts faultless turn
    have fullLasts := @full_lasts server _ faultless turn framed
    unfold fullConversation Plain.conversation at agree ⊢
    rw [conversation_cons, conversation_cons, standalone_reply standalone]
    simp only [pure_eq, ending_done, thinLasts, fullLasts, List.map_cons, List.cons.injEq, told_iff,
      Meets]
    refine and_congr_right fun concurs => ?_
    cases turn.lasts with
    | false => simp
    | true =>
      cases admitted server turn.head.request with
      | true => simpa using agree
      | false => simpa using conversation_eq_nil rest

end

theorem faultless_smooth : Faultless smoothHost :=
  ⟨rfl, fun _ => rfl, rfl, fun _ => rfl, fun _ _ => rfl⟩

def plainServer : Server where
  config := Config.default (str "/site")
  mime := .new
  proxyRules := []
  decodeBase64 _ := none

theorem plainServer_standalone : plainServer.Standalone := ⟨by decide +kernel, rfl⟩

def postHead : RawHead := ⟨str "POST", str "/docs", str "HTTP/1.1", [⟨str "Host", str " a"⟩]⟩

def postTurn : Turn where
  head := postHead.head (OrderedMap.ofList [(str "host", str "a")])
  hasBody := false
  result := .next

theorem readRequest_post :
    readRequest (Connection.new postHead.encode) = .ok postTurn.head ⟨[], [], .empty⟩ :=
  value?_eq_some.mp (by decide +kernel)

theorem conversations_agree_post :
    (fullConversation plainServer smoothHost [postTurn]).map (told fun _ => []) =
        (Plain.conversation smoothHost [postTurn]).map (told fun _ => []) ↔
      Meets plainServer (fun _ => []) [postTurn] :=
  conversations_agree plainServer plainServer_standalone smoothHost faultless_smooth (fun _ => [])
    [postTurn] (List.forall_mem_singleton.mpr ⟨_, _, readRequest_post⟩)

-- The engine passes a `POST` on; the Full server calls the method not allowed and the Thin server
-- calls the page missing.
theorem method_divides_servers : ¬∀ server : Server, server.Standalone →
    validateConfig server.config = .ok () →
    ∀ (host : (query : Effect) → query.Answer) (transferred : StaticPlan.Body → Bytes)
      (turns : List Turn), Faultless host →
    (∀ turn ∈ turns, ∃ c c' : Connection Bytes, readRequest c = .ok turn.head c') →
    (∀ turn ∈ turns, ∃ past, Run (handles server turn.head.request) past (.done turn.result)) →
    (fullConversation server host turns).map (told transferred) =
      (Plain.conversation host turns).map (told transferred) := by
  intro always
  have passed : Run (handles plainServer postTurn.head.request) [⟨.engine .closing, false⟩]
      (.done postTurn.result) := run_of_result rfl
  have same := always plainServer plainServer_standalone (by decide +kernel) smoothHost (fun _ => [])
    [postTurn] faultless_smooth (List.forall_mem_singleton.mpr ⟨_, _, readRequest_post⟩)
    (List.forall_mem_singleton.mpr ⟨_, passed⟩)
  exact absurd same (by decide +kernel)

end HttpServer.Serving
