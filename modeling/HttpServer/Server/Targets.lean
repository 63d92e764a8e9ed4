import HttpServer.Core.Rewriting
import HttpServer.Server.Addresses
import HttpServer.Server.Dispatch

set_option autoImplicit false

namespace HttpServer.Serving

open Unicode Text HttpServer.Core Framing Dialogue
open Engine (HandleResult)
open HttpServer.Server (TargetUrl parseTargetUrl parseTargetUrl_eq upstreamPath headText methodName
  splitAuthority)

def tunnelPath (parsed : TargetUrl) (path : Str) : Str := parsed.basePath ++ path

/-- A path from the root: the base and, behind it, the target, which meet at a slash. -/
def Joined (base target written : Str) : Prop :=
  written ≠ [] ∧ slashed written = true ∧ ∃ rest, written = base ++ rest ∧
    (rest = target ∨ rest = str "/" ++ target) ∧
    (base = [] ∨ rest = [] ∨ hasSuffix base (str "/") = true ∨ slashed rest = true)

structure WellTargeted (parsed : TargetUrl) (path : Str) : Prop where
  proxied : Joined parsed.basePath path (upstreamPath parsed path)
  tunnelled : Joined parsed.basePath path (tunnelPath parsed path)
  same : upstreamPath parsed path = tunnelPath parsed path

-- No rule rewrites the target, which begins with a slash, or the rule that does keeps one in front.
def rooted (server : Server) (target : Str) : Bool :=
  match server.config.proxyAll with
  | some _ => slashed target
  | none =>
      match server.proxyRules.find? fun rule => matchGlobPath rule.pattern target with
      | some rule => keepsSlash rule.pathRewrite target
      | none => slashed target

def requestLine (meth : Method) (target : Str) : Str :=
  methodName meth ++ str " " ++ target ++ str " HTTP/1.1\r\n"

-- A request head whose target is that which `join` makes of the upstream and the path.
def Asks (server : Server) (request : Request) (join : TargetUrl → Str → Str) (head : Bytes) : Prop :=
  ∃ url path parsed fields, upgradeTarget server request = some (url, path) ∧
    parseTargetUrl url = some parsed ∧
    head = encode (requestLine request.meth (join parsed path) ++ fields)

def AsksFor (server : Server) (request : Request) : Effect → Prop
  | .forwards head => Asks server request upstreamPath head
  | .upgrades head => Asks server request tunnelPath head
  | _ => True

abbrev Heads (server : Server) (request : Request) {R : Type} (serve : Serve R) : Prop :=
  Always (AsksFor server request) (fun _ => True) serve

section

variable {server : Server} {request : Request}

theorem fallback_heads (status : Int32) (reason : Str) :
    Heads server request (sendFallbackStatus status reason) :=
  ⟨trivial, fun _ => trivial⟩

theorem engine_heads {R : Type} (talk : Engine.Talk R) : Heads server request (engine talk) :=
  (always_any talk).translate fun _ => ⟨trivial, fun _ => trivial⟩

theorem check_heads (response : StaticPlan.Response) : Heads server request (check response) := by
  apply (engine_heads Engine.closing).bind
  intro closing _
  cases closing with
  | true => trivial
  | false =>
    cases response.body with
    | fileRegion file start length =>
      apply (engine_heads (Engine.checks file.token).run).bind
      intro checked _
      cases checked <;> trivial
    | _ => trivial

theorem writeBody_heads (body : StaticPlan.Body) (chunked : Bool) :
    Heads server request (writeBody body chunked) := by
  unfold writeBody
  split
  next => trivial
  next => trivial
  next => exact ⟨trivial, fun _ => trivial⟩
  next => exact ⟨trivial, fun _ => trivial⟩

theorem sendResponse_heads (response : StaticPlan.Response) (http11 : Bool) :
    Heads server request (sendResponse reasons response http11) := by
  apply (check_heads response).bind
  intro checked _
  cases checked with
  | false => trivial
  | true =>
    refine ⟨trivial, fun sent => ?_⟩
    cases sent with
    | false => trivial
    | true => exact (writeBody_heads response.body _).bind fun _ _ => trivial

theorem sendRefusal_heads (other : Request) (http11 : Bool) :
    Heads server request (sendRefusal server other http11) := by
  apply (engine_heads _).bind
  intro result _
  cases result with
  | handled response =>
    apply (sendResponse_heads response http11).bind
    intro outcome _
    cases outcome <;> trivial
  | next => exact fallback_heads _ _
  | error e => exact fallback_heads _ _
  | trap => trivial

theorem relayLoop_heads (pieces : List Bytes) : Heads server request (relayLoop pieces) := by
  induction pieces with
  | nil => trivial
  | cons piece rest ih =>
    refine ⟨trivial, fun sent => ?_⟩
    cases sent with
    | false => trivial
    | true => exact ih

theorem headText_line (meth : Method) (headers : Headers) (path : Str) (parsed : TargetUrl) :
    ∃ fields, headText meth headers path parsed = requestLine meth path ++ fields := by
  unfold headText requestLine
  simp only [List.append_assoc]
  exact ⟨_, rfl⟩

theorem upgradeHead_line (parsed : TargetUrl) (path : Str) (headers : Headers) :
    ∃ fields, upgradeHead parsed path headers = requestLine .get (tunnelPath parsed path) ++ fields := by
  have space : str "GET " = str "GET" ++ str " " := by decide
  have line : str " HTTP/1.1\r\nHost: " = str " HTTP/1.1\r\n" ++ str "Host: " := by decide
  unfold upgradeHead requestLine tunnelPath methodName
  rw [space, line]
  simp only [List.append_assoc]
  exact ⟨_, rfl⟩

theorem proxyHttpRequest_heads {url path : Str} (chosen : upgradeTarget server request = some (url, path))
    (hasBody : Bool) : Heads server request (proxyHttpRequest server request hasBody path url) := by
  refine ⟨trivial, fun granted => ?_⟩
  cases granted with
  | false => exact fallback_heads _ _
  | true =>
    dsimp only [if_true]
    cases parses : parseTargetUrl url with
    | none => exact fallback_heads _ _
    | some parsed =>
      refine ⟨trivial, fun connected => ?_⟩
      cases connected with
      | false => exact fallback_heads _ _
      | true =>
        obtain ⟨fields, line⟩ := headText_line request.meth request.headers (upstreamPath parsed path) parsed
        have asked : Asks server request upstreamPath
            (encode (headText request.meth request.headers (upstreamPath parsed path) parsed)) :=
          ⟨url, path, parsed, fields, chosen, parses, congrArg encode line⟩
        refine ⟨asked, fun forwarded => ?_⟩
        -- What follows the head writes none.
        have relayed (next : Option (List Bytes) → Serve Outcome)
            (failed : Heads server request (next none)) (empty : Heads server request (next (some [])))
            (pieces : ∀ piece rest, Heads server request (next (some (piece :: rest)))) :
            Heads server request (relays (request.headers.contains (str "transfer-encoding")) >>= next) := by
          refine ⟨trivial, fun answer => ?_⟩
          rcases answer with _ | (_ | ⟨piece, rest⟩)
          · exact failed
          · exact empty
          · exact pieces piece rest
        cases forwarded with
        | false => exact fallback_heads _ _
        | true =>
          by_cases expects : (hasBody && hasToken ((request.headers.get (str "expect")).getD [])
              (str "100-continue")) = true
          · simp only [expects]
            refine ⟨trivial, fun continued => ?_⟩
            cases continued with
            | false => trivial
            | true => exact relayed _ trivial (fallback_heads _ _) fun _ _ => relayLoop_heads _
          · simp only [expects]
            exact relayed _ trivial (fallback_heads _ _) fun _ _ => relayLoop_heads _

theorem serveFile_heads (hasBody http11 : Bool) (all : server.config.proxyAll = none)
    (rule : server.matchProxyRule request.target = none) :
    Heads server request (serveFile server request hasBody http11) := by
  apply (engine_heads _).bind
  intro result _
  cases result with
  | handled response =>
    apply (sendResponse_heads response http11).bind
    intro outcome _
    cases outcome with
    | keep again =>
      cases again with
      | true => exact ⟨trivial, fun _ => trivial⟩
      | false => trivial
    | failed => trivial
    | trap => trivial
  | next =>
    dsimp only
    cases upstream : server.config.proxy with
    | some url => exact proxyHttpRequest_heads (by simp [upgradeTarget, all, rule, upstream]) hasBody
    | none => cases request.meth <;> exact fallback_heads _ _
  | error e => cases e <;> exact fallback_heads _ _
  | trap => trivial

theorem dispatchEngineRequest_heads (hasBody http11 : Bool) :
    Heads server request (dispatchEngineRequest server request hasBody http11) := by
  unfold dispatchEngineRequest
  cases evaluateSecurityPolicies server.config request with
  | none => trivial
  | some decision =>
    cases decision with
    | proceed =>
      dsimp only
      cases resolvePath server.config.root (str "/") request.target with
      | error e => cases e <;> exact fallback_heads _ _
      | ok path =>
        dsimp only
        cases all : server.config.proxyAll with
        | some url => exact proxyHttpRequest_heads (by simp [upgradeTarget, all]) hasBody
        | none =>
          dsimp only
          cases rule : server.matchProxyRule request.target with
          | some pair => exact proxyHttpRequest_heads (by simp [upgradeTarget, all, rule]) hasBody
          | none => exact serveFile_heads hasBody http11 all rule
    | _ => exact sendRefusal_heads request http11

theorem handshake_get {hasBody : Bool} (fits : handshake server request hasBody = true) :
    request.meth = .get := by
  unfold handshake at fits
  simp only [Bool.and_eq_true, decide_eq_true_eq] at fits
  exact fits.1.1.1.1

theorem proxyWebsocket_heads (hasBody : Bool) :
    Heads server request (proxyWebsocket server request hasBody) := by
  refine ⟨trivial, fun granted => ?_⟩
  cases granted with
  | false => exact fallback_heads _ _
  | true =>
    dsimp only [if_true]
    cases evaluateSecurityPolicies server.config request with
    | none => trivial
    | some decision =>
      cases decision with
      | proceed =>
        dsimp only
        cases resolvePath server.config.root (str "/") request.target with
        | error e => exact fallback_heads _ _
        | ok path =>
          dsimp only
          by_cases fits : handshake server request hasBody = true
          · rw [if_pos fits]
            cases chosen : upgradeTarget server request with
            | none => exact fallback_heads _ _
            | some pair =>
              dsimp only
              cases parses : parseTargetUrl pair.1 with
              | none => exact fallback_heads _ _
              | some parsed =>
                refine ⟨trivial, fun connected => ?_⟩
                cases connected with
                | false => exact fallback_heads _ _
                | true =>
                  obtain ⟨fields, line⟩ := upgradeHead_line parsed pair.2 request.headers
                  rw [← handshake_get fits] at line
                  exact ⟨⟨pair.1, pair.2, parsed, fields, chosen, parses, congrArg encode line⟩,
                    fun _ => trivial⟩
          · rw [if_neg fits]
            exact fallback_heads _ _
      | _ => exact sendRefusal_heads request true

theorem serveRequest_heads (server : Server) (head : Head) (hasBody : Bool) :
    Heads server head.request (serveRequest server head hasBody) := by
  unfold serveRequest
  split_ifs
  · exact proxyWebsocket_heads hasBody
  · exact fallback_heads _ _
  · exact dispatchEngineRequest_heads hasBody head.http11

theorem splitAuthority_base (rest : Str) :
    (splitAuthority rest).2 = [] ∨ slashed (splitAuthority rest).2 = true := by
  unfold splitAuthority
  cases found : find rest (unit '/') with
  | none => exact Or.inl rfl
  | some idx =>
    right
    obtain ⟨inside, hit, -⟩ := List.findIdx?_eq_some_iff_getElem.mp found
    dsimp only
    rw [List.drop_eq_getElem_cons inside, slashed_cons]
    exact hit

theorem basePath_slashed {url : Str} {parsed : TargetUrl} (parses : parseTargetUrl url = some parsed) :
    parsed.basePath = [] ∨ slashed parsed.basePath = true := by
  rw [parseTargetUrl_eq, Option.bind_eq_some_iff] at parses
  obtain ⟨⟨scheme, rest⟩, -, read⟩ := parses
  dsimp only at read
  split at read
  next => cases read
  next =>
    obtain ⟨address, -, rfl⟩ := Option.map_eq_some_iff.mp read
    dsimp only
    split
    next => exact Or.inl rfl
    next => exact splitAuthority_base rest

theorem slashed_ne_nil {s : Str} (front : slashed s = true) : s ≠ [] := by
  rintro rfl
  cases front

theorem wellTargeted_iff {parsed : TargetUrl} (base : parsed.basePath = [] ∨ slashed parsed.basePath = true)
    (path : Str) : WellTargeted parsed path ↔ slashed path = true := by
  constructor
  · intro well
    by_cases none : parsed.basePath = []
    · have front := well.tunnelled.2.1
      rwa [tunnelPath, none] at front
    · -- The slash that is put between is missing in the tunnel.
      by_contra relative
      have same := well.same
      have between : upstreamPath parsed path = parsed.basePath ++ str "/" ++ path := by
        unfold upstreamPath
        exact (if_neg none).trans (if_neg relative)
      have lengths := congrArg List.length (between.symm.trans same)
      rw [tunnelPath, List.length_append, List.length_append, List.length_append] at lengths
      have one : (str "/").length = 1 := rfl
      omega
  · intro front
    have same : upstreamPath parsed path = tunnelPath parsed path := by
      unfold upstreamPath tunnelPath
      by_cases none : parsed.basePath = []
      · rw [if_pos none, none, List.nil_append]
      · exact (if_neg none).trans (if_pos front)
    have joined : Joined parsed.basePath path (tunnelPath parsed path) := by
      have whole : slashed (tunnelPath parsed path) = true := by
        rw [tunnelPath, slashed_append]
        rcases base with none | here
        · simp [slashAfter, none, front]
        · simp [slashAfter, here]
      exact ⟨slashed_ne_nil whole, whole, path, rfl, Or.inl rfl, Or.inr (Or.inr (Or.inr front))⟩
    exact ⟨same ▸ joined, joined, same⟩

theorem matchProxyRule_path (server : Server) (target : Str) :
    (server.matchProxyRule target).map Prod.snd =
      (server.proxyRules.find? fun rule => matchGlobPath rule.pattern target).map fun rule =>
        rule.pathRewrite.foldl rewritePath target := by
  unfold Server.matchProxyRule
  induction server.proxyRules with
  | nil => rfl
  | cons rule rest ih =>
    rw [List.findSome?_cons, List.find?_cons]
    unfold Core.matchProxyRule
    cases matchGlobPath rule.pattern target with
    | true => rfl
    | false => exact ih

theorem slashed_chosen {url path : Str} (chosen : upgradeTarget server request = some (url, path)) :
    slashed path = rooted server request.target := by
  have rewritten := matchProxyRule_path server request.target
  unfold upgradeTarget at chosen
  unfold rooted
  cases all : server.config.proxyAll with
  | some upstream =>
    rw [all] at chosen
    cases chosen
    rfl
  | none =>
    rw [all] at chosen
    dsimp only at chosen ⊢
    cases rule : server.proxyRules.find? fun rule => matchGlobPath rule.pattern request.target with
    | some rule =>
      rw [rule] at rewritten
      obtain ⟨pair, found, same⟩ := Option.map_eq_some_iff.mp rewritten
      rw [found] at chosen
      cases chosen
      dsimp only at same ⊢
      rw [same, slashed_rewritten]
    | none =>
      rw [rule, Option.map_none, Option.map_eq_none_iff] at rewritten
      rw [rewritten] at chosen
      obtain ⟨upstream, -, same⟩ := Option.map_eq_some_iff.mp chosen
      cases same
      rfl

end

/-- Every head goes to the chosen upstream with the path joined to its base; both ways of joining
agree, in a path from the root, exactly for a path that begins with a slash. -/
theorem upstreamTargets (server : Server) (head : Head) (hasBody : Bool) :
    (∀ past effect next, Run (serveRequest server head hasBody) past (.ask effect next) →
      AsksFor server head.request effect) ∧
    ∀ url path parsed, upgradeTarget server head.request = some (url, path) →
      parseTargetUrl url = some parsed →
      (WellTargeted parsed path ↔ rooted server head.request.target = true) := by
  constructor
  · intro past effect next run
    exact ((serveRequest_heads server head hasBody).run run).1
  · intro url path parsed chosen parses
    rw [wellTargeted_iff (basePath_slashed parses), slashed_chosen chosen]

def strippingServer : Server where
  config := Config.default (str "/site")
  mime := .new
  proxyRules := [⟨str "/api/**", str "http://127.0.0.1:3000", [(str "^/api", [])]⟩]
  decodeBase64 key := if key = [] then some [] else none

def apiHead : Head where
  request := ⟨.get, str "/api", OrderedMap.ofList [(str "host", str "example.org")]⟩
  http11 := true
  keepAlive := true

def unbroken (s : Str) : Bool := !s.any isSpace

theorem stripped_target : ¬∀ (server : Server) (head : Head),
    (∀ rule ∈ server.proxyRules, unbroken rule.pattern = true ∧
      ∀ pair ∈ rule.pathRewrite, unbroken pair.1 = true ∧ unbroken pair.2 = true) →
    (∃ path, resolvePath server.config.root (str "/") head.request.target = .ok path) →
    ∀ url path parsed, upgradeTarget server head.request = some (url, path) →
      parseTargetUrl url = some parsed → WellTargeted parsed path := by
  intro always
  have words : ∀ rule ∈ strippingServer.proxyRules, unbroken rule.pattern = true ∧
      ∀ pair ∈ rule.pathRewrite, unbroken pair.1 = true ∧ unbroken pair.2 = true := by decide +kernel
  have passes : resolvePath strippingServer.config.root (str "/") apiHead.request.target =
      .ok (str "/site/api") := by decide +kernel
  have chosen : upgradeTarget strippingServer apiHead.request =
      some (str "http://127.0.0.1:3000", []) := by decide +kernel
  have parses : parseTargetUrl (str "http://127.0.0.1:3000") =
      some ⟨str "http", str "127.0.0.1", 3000, []⟩ := by decide +kernel
  have well := always strippingServer apiHead words ⟨_, passes⟩ _ _ _ chosen parses
  exact well.tunnelled.1 rfl

end HttpServer.Serving
