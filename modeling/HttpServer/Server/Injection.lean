import HttpServer.Core.FieldValues
import HttpServer.Engine.Planned
import HttpServer.Server.Parity
import HttpServer.Server.Settling
import HttpServer.StaticPlan.Positions

set_option autoImplicit false

namespace HttpServer.Serving

open Unicode Text HttpServer.Core Framing Dialogue
open Engine (HandleResult Planned)
open HttpServer.Server (parseTargetUrl)

def corsFields (config : Config) (meth : Method) : List (Str × Str) :=
  let known := str ("Authorization, Content-Type, If-Match, If-Modified-Since, " ++
    "If-None-Match, If-Unmodified-Since")
  let allowed := match config.corsHeaders with
    | some extra => known ++ str ", " ++ extra
    | none => known
  if config.cors then
    [(str "Access-Control-Allow-Origin", str "*"), (str "Access-Control-Allow-Headers", allowed)] ++
      if meth = .other (str "OPTIONS") then
        [(str "Access-Control-Allow-Methods", str "GET, HEAD, OPTIONS")]
      else []
  else []

def coopFields (config : Config) : List (Str × Str) :=
  if config.coop then
    [(str "Cross-Origin-Opener-Policy", config.coopHeader.getD (str "same-origin")),
      (str "Cross-Origin-Embedder-Policy", str "require-corp")]
  else []

def pnaFields (config : Config) : List (Str × Str) :=
  if config.pna then [(str "Access-Control-Allow-Private-Network", str "true")] else []

def securityFields (config : Config) (meth : Method) : List (Str × Str) :=
  corsFields config meth ++ coopFields config ++ pnaFields config

/-- Every custom header is there, and every security header that no custom header replaces. -/
structure Carries (config : Config) (meth : Method) (fields : List (Str × Str)) : Prop where
  custom : ∀ entry ∈ config.customHeaders.entries, entry ∈ fields
  security : ∀ entry ∈ securityFields config meth,
    entry.1 ∈ config.customHeaders.keys ∨ entry ∈ fields

section

variable {config : Config} {meth : Method} {headers : Headers}

theorem securityFields_names : ((securityFields config meth).map Prod.fst).Sublist securityNames := by
  have cors : (corsFields config meth).map Prod.fst |>.Sublist (securityNames.take 3) := by
    unfold corsFields
    dsimp only
    split_ifs <;> simp only [List.map_append, List.map_cons, List.map_nil] <;> decide
  have coop : (coopFields config).map Prod.fst |>.Sublist ((securityNames.drop 3).take 2) := by
    unfold coopFields
    split_ifs <;> simp only [List.map_cons, List.map_nil] <;> decide
  have pna : (pnaFields config).map Prod.fst |>.Sublist (securityNames.drop 5) := by
    unfold pnaFields
    split_ifs <;> simp only [List.map_cons, List.map_nil] <;> decide
  rw [securityFields, List.map_append, List.map_append]
  exact (cors.append coop).append pna

theorem applySecurityHeaders_eq : applySecurityHeaders headers config meth =
    (securityFields config meth ++ config.customHeaders.entries).foldl
      (fun headers entry => headers.insert entry.1 entry.2) headers := by
  simp only [applySecurityHeaders, securityFields, List.foldl_append, pnaHeaders, coopHeaders,
    corsHeaders, pnaFields, coopFields, corsFields]
  split_ifs <;> rfl

theorem get_custom {entry : Str × Str} (member : entry ∈ config.customHeaders.entries) :
    (applySecurityHeaders headers config meth).get entry.1 = some entry.2 := by
  rw [applySecurityHeaders_eq, List.foldl_append]
  exact get_insertAll_mem _ config.customHeaders.nodup member

theorem get_security {entry : Str × Str} (member : entry ∈ securityFields config meth)
    (kept : entry.1 ∉ config.customHeaders.keys) :
    (applySecurityHeaders headers config meth).get entry.1 = some entry.2 := by
  rw [applySecurityHeaders_eq, List.foldl_append, get_insertAll _ _ kept]
  exact get_insertAll_mem _ (securityFields_names.nodup (by decide)) member

-- Where the body is a listing, the servers set one more header, which takes the place of a custom
-- header of exactly its name.
def Uncontested (config : Config) (http11 : Bool) (body : StaticPlan.Body) : Prop :=
  isStreaming body = true → ∀ value,
    (http11 = true → config.customHeaders.get (str "Transfer-Encoding") = some value →
      value = str "chunked") ∧
    (http11 = false → config.customHeaders.get (str "Connection") = some value →
      value = str "close")

theorem carries_of_get (custom : ∀ entry ∈ config.customHeaders.entries,
      headers.get entry.1 = some entry.2)
    (security : ∀ entry ∈ securityFields config meth, entry.1 ∉ config.customHeaders.keys →
      headers.get entry.1 = some entry.2) : Carries config meth headers.entries where
  custom entry member := (headers.get_eq_some _ _).mp (custom entry member)
  security entry member := by
    by_cases replaced : entry.1 ∈ config.customHeaders.keys
    · exact Or.inl replaced
    · exact Or.inr ((headers.get_eq_some _ _).mp (security entry member replaced))

-- One header more leaves the configured ones alone, unless it takes a custom header's place.
theorem carries_insert_iff {name value : Str} (other : name ∉ securityNames) :
    Carries config meth ((applySecurityHeaders headers config meth).insert name value).entries ↔
      ∀ asked, config.customHeaders.get name = some asked → asked = value := by
  constructor
  · intro carries asked found
    have member := carries.custom _ ((config.customHeaders.get_eq_some name asked).mp found)
    have sent := (OrderedMap.get_eq_some _ name asked).mpr member
    rw [OrderedMap.get_insert_self] at sent
    exact (Option.some.inj sent).symm
  · intro fits
    apply carries_of_get
    · intro entry member
      by_cases here : entry.1 = name
      · have found := (config.customHeaders.get_eq_some entry.1 entry.2).mpr member
        rw [here] at found ⊢
        rw [OrderedMap.get_insert_self, fits _ found]
      · rw [OrderedMap.get_insert_ne _ _ here, get_custom member]
    · intro entry member kept
      have known : entry.1 ∈ securityNames :=
        securityFields_names.subset (List.mem_map_of_mem member)
      have apart : entry.1 ≠ name := fun same => other (same ▸ known)
      rw [OrderedMap.get_insert_ne _ _ apart, get_security member kept]

theorem planned_carries {request : Request} {mime : MimeRegistry} {response : StaticPlan.Response}
    (planned : Planned (StaticPlan.start config request mime) response) (http11 : Bool) :
    Carries config request.meth (finalHeaders response http11).entries ↔
      Uncontested config http11 response.body := by
  obtain ⟨past, run⟩ := planned
  obtain ⟨reply, -, same⟩ := StaticPlan.run_responds run
  have sent : response.headers = applySecurityHeaders reply.headers config request.meth := by
    rw [same]
    rfl
  unfold finalHeaders Uncontested
  rw [sent]
  cases isStreaming response.body with
  | false =>
    have carries : Carries config request.meth
        (applySecurityHeaders reply.headers config request.meth).entries :=
      carries_of_get (fun entry => get_custom) fun entry => get_security
    simp [carries]
  | true =>
    cases http11 with
    | true => simpa using carries_insert_iff (by decide)
    | false => simpa using carries_insert_iff (by decide)

/-- The configuration asks for nothing but what a response of the server itself says anyway. -/
structure Unadorned (config : Config) (own : List (Str × Str)) : Prop where
  cors : config.cors = false
  coop : config.coop = false
  pna : config.pna = false
  custom : ∀ entry ∈ config.customHeaders.entries, entry ∈ own

-- No response of the servers themselves names one of the security headers.
theorem own_carries_iff {own : List (Str × Str)} (plain : ∀ entry ∈ own, entry.1 ∉ securityNames) :
    Carries config meth own ↔ Unadorned config own := by
  constructor
  · intro carries
    have nothing : securityFields config meth = [] := by
      rw [List.eq_nil_iff_forall_not_mem]
      intro entry member
      have known : entry.1 ∈ securityNames :=
        securityFields_names.subset (List.mem_map_of_mem member)
      rcases carries.security entry member with replaced | here
      · obtain ⟨custom, listed, same⟩ := List.mem_map.mp replaced
        exact plain custom (carries.custom custom listed) (same ▸ known)
      · exact plain entry here known
    simp only [securityFields, List.append_eq_nil_iff] at nothing
    refine ⟨?_, ?_, ?_, carries.custom⟩
    · simpa [corsFields] using nothing.1.1
    · simpa [coopFields] using nothing.1.2
    · simpa [pnaFields] using nothing.2
  · intro unadorned
    refine ⟨unadorned.custom, ?_⟩
    simp [securityFields, corsFields, coopFields, pnaFields, unadorned.cors, unadorned.coop,
      unadorned.pna]

end

def lines (fields : List (Str × Str)) : Str :=
  fields.flatMap fun entry => entry.1 ++ str ": " ++ entry.2 ++ str "\r\n"

def fallbackFields (reason : Str) : List (Str × Str) :=
  [(str "Content-Length", ofNat reason.length),
    (str "Content-Type", str "text/plain; charset=utf-8"), (str "Connection", str "close")]

def Plain.errorFields (reason : Str) : List (Str × Str) :=
  [(str "Connection", str "close"), (str "Content-Length", ofNat reason.length)]

/-- The header fields that are written for a reply, where `own` are those of the server's own
statuses; what an upstream answers is passed on as it is. -/
def fields (own : Str → List (Str × Str)) (http11 : Bool) : Reply → Option (List (Str × Str))
  | .engine response => some (finalHeaders response http11).entries
  | .own _ reason => some (own reason)
  | _ => none

theorem headerText_eq (reasons : List (Int32 × Str)) (status : Int32) (headers : Headers) :
    headerText reasons status headers =
      statusLine status (statusReason reasons status) ++ lines headers.entries ++ str "\r\n" :=
  rfl

theorem fallbackText_eq (status : Int32) (reason : Str) : fallbackText status reason =
    statusLine status reason ++ lines (fallbackFields reason) ++ str "\r\n" ++ reason := by
  have length : str "Content-Length: " = str "Content-Length" ++ str ": " := by decide
  have last : str "Content-Type: text/plain; charset=utf-8\r\n" ++ str "Connection: close\r\n\r\n" =
      str "Content-Type" ++ str ": " ++ str "text/plain; charset=utf-8" ++ str "\r\n" ++
        (str "Connection" ++ str ": " ++ str "close" ++ str "\r\n") ++ str "\r\n" := by decide
  rw [fallbackText, length,
    List.append_assoc (_ ++ str "\r\n") (str "Content-Type: text/plain; charset=utf-8\r\n"), last]
  simp only [lines, fallbackFields, List.flatMap_cons, List.flatMap_nil, List.append_nil,
    List.append_assoc]

theorem Plain.errorText_eq (status : Int32) (reason : Str) : Plain.errorText status reason =
    statusLine status reason ++ lines (Plain.errorFields reason) ++ str "\r\n" ++ reason := by
  have opening : str "Connection: close\r\nContent-Length: " =
      str "Connection" ++ str ": " ++ str "close" ++ str "\r\n" ++ str "Content-Length" ++
        str ": " := by decide
  have last : str "\r\n\r\n" = str "\r\n" ++ str "\r\n" := by decide
  rw [Plain.errorText, opening, last]
  simp only [lines, Plain.errorFields, List.flatMap_cons, List.flatMap_nil, List.append_nil,
    List.append_assoc]

-- The reply carries what the configuration asks for: it is the engine's, or the configuration asks
-- for nothing.
def Adorned (config : Config) (own : Str → List (Str × Str)) (http11 : Bool) : Reply → Prop
  | .engine response => Uncontested config http11 response.body
  | .own _ reason => Unadorned config (own reason)
  | _ => True

section

variable {server : Server} {head : Head} {hasBody : Bool}

abbrev Settles (server : Server) (request : Request) (settle : Serve Reply) : Prop :=
  Always (fun _ => True) (fun reply => ∀ response, reply = .engine response →
    Planned (StaticPlan.start server.config request server.mime) response) settle

theorem Settled.settles {request : Request} {settle : Serve Reply}
    (settled : Settled server request settle) : Settles server request settle := by
  induction settled with
  | own settle never => exact never.mono fun reply other response same => absurd same (other response)
  | engine response planned =>
    intro other same
    cases same
    exact planned
  | ask query next silent later ih => exact ⟨trivial, ih⟩

theorem fullReply_settles : Settles server head.request
    (fullReply server (handles server head.request) head hasBody) :=
  (fullReply_settled head hasBody).settles

theorem plainReply_settles : Settles server head.request
    (handles server head.request >>= fun result => pure (Plain.reply result)) :=
  (plainReply_settled head.request).settles

theorem settled_carries_iff {settle : Serve Reply} {request : Request}
    {own : Str → List (Str × Str)} {past : Events} {reply : Reply} {http11 : Bool}
    {sent : List (Str × Str)} (plain : ∀ reason, ∀ entry ∈ own reason, entry.1 ∉ securityNames)
    (settles : Settles server request settle) (run : Run settle past (.done reply))
    (written : fields own http11 reply = some sent) :
    Carries server.config request.meth sent ↔ Adorned server.config own http11 reply := by
  cases reply with
  | engine response =>
    cases written
    exact planned_carries (settles.ended run response rfl) http11
  | own status reason =>
    cases written
    exact own_carries_iff (plain reason)
  | _ => cases written

/-- A response carries the configured headers exactly if it is the engine's, and no header of its
own takes a custom header's place, or if the configuration asks for nothing but the lines that a
status of the server itself has anyway. -/
theorem configured_headers (server : Server) (head : Head) (hasBody : Bool) (past : Events)
    (reply : Reply) :
    (Run (fullReply server (handles server head.request) head hasBody) past (.done reply) →
      ∀ sent, fields fallbackFields head.http11 reply = some sent →
        (Carries server.config head.request.meth sent ↔
          Adorned server.config fallbackFields head.http11 reply)) ∧
    (Run (handles server head.request >>= fun result => pure (Plain.reply result)) past
        (.done reply) →
      ∀ sent, fields Plain.errorFields head.http11 reply = some sent →
        (Carries server.config head.request.meth sent ↔
          Adorned server.config Plain.errorFields head.http11 reply)) := by
  constructor
  · intro run sent written
    refine settled_carries_iff (fun reason entry member => ?_) fullReply_settles run written
    simp only [fallbackFields, List.mem_cons, List.not_mem_nil, or_false] at member
    rcases member with rfl | rfl | rfl <;> dsimp only <;> decide
  · intro run sent written
    refine settled_carries_iff (fun reason entry member => ?_) plainReply_settles run written
    simp only [Plain.errorFields, List.mem_cons, List.not_mem_nil, or_false] at member
    rcases member with rfl | rfl <;> dsimp only <;> decide

end

def framedServer : Server :=
  { plainServer with
    config := { Config.default (str "/site") with
      customHeaders := OrderedMap.ofList [(str "X-Frame-Options", str "DENY")] } }

def deafPast : Events := [⟨.engine .closing, false⟩]

def notAllowed : Reply := .own 405 (str "Method Not Allowed")

theorem full_run_post :
    Run (fullReply framedServer (handles framedServer postTurn.head.request) postTurn.head false)
      deafPast (.done notAllowed) :=
  run_of_result rfl

theorem plain_run_post :
    Run (handles framedServer postTurn.head.request >>= fun result => pure (Plain.reply result))
      deafPast (.done (.own 404 (str "Not Found"))) :=
  run_of_result rfl

theorem configured_headers_post :
    (Carries framedServer.config postTurn.head.request.meth
        (fallbackFields (str "Method Not Allowed")) ↔
      Adorned framedServer.config fallbackFields postTurn.head.http11 notAllowed) ∧
    (Carries framedServer.config postTurn.head.request.meth
        (Plain.errorFields (str "Not Found")) ↔
      Adorned framedServer.config Plain.errorFields postTurn.head.http11
        (.own 404 (str "Not Found"))) :=
  ⟨(configured_headers framedServer postTurn.head false deafPast notAllowed).1 full_run_post _ rfl,
    (configured_headers framedServer postTurn.head false deafPast _).2 plain_run_post _ rfl⟩

-- The statuses that the servers write themselves pass the custom headers by.
theorem fallback_forgets_headers : ¬∀ server : Server, validateConfig server.config = .ok () →
    ∀ (head : Head) (hasBody : Bool),
    (∃ c c' : Connection Bytes, readRequest c = .ok head c') →
    ∀ past reply sent,
      (Run (fullReply server (handles server head.request) head hasBody) past (.done reply) →
        fields fallbackFields head.http11 reply = some sent →
        Carries server.config head.request.meth sent) ∧
      (Run (handles server head.request >>= fun result => pure (Plain.reply result)) past
          (.done reply) →
        fields Plain.errorFields head.http11 reply = some sent →
        Carries server.config head.request.meth sent) := by
  intro always
  have carries := (always framedServer (by decide +kernel) postTurn.head false
    ⟨_, _, readRequest_post⟩ deafPast notAllowed _).1 full_run_post rfl
  have frame := carries.custom (str "X-Frame-Options", str "DENY") (by decide)
  exact absurd frame (by decide)

end HttpServer.Serving
