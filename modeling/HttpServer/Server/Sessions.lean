import HttpServer.Framing.Session
import HttpServer.Server.Delimiting
import HttpServer.Server.HeaderNames

set_option autoImplicit false

namespace HttpServer.Serving

open Unicode Text HttpServer.Core Framing Dialogue
open Engine (Planned)
open StaticPlan (OneLine Planner)

structure Round where
  head : Head
  hasBody : Bool
  past : Events

def Round.isHead (round : Round) : Bool := round.head.request.meth = .head

/-- The loop of `handle_client`, and of the Thin server's `handle_connection`, round by round. Only
a response of the engine lets it go on, so that a request's body is untouched before it is
dropped. -/
inductive Serves {σ : Type} [Reader σ] (serve : Head → Bool → Serve Outcome) :
    Connection σ → List Round → Prop
  -- The server is stopped, no request came in time, or none could be read.
  | closes (c : Connection σ) : Serves serve c []
  -- The connection is cut off while the server waits.
  | cut (c c' : Connection σ) (head : Head) (past : Events) (query : Effect)
      (next : query.Answer → Serve Outcome) (read : readRequest c = .ok head c')
      (run : Run (serve head (Framing.hasBody c')) past (.ask query next)) :
      Serves serve c [⟨head, Framing.hasBody c', past⟩]
  | ends (c c' : Connection σ) (head : Head) (past : Events) (outcome : Outcome)
      (read : readRequest c = .ok head c')
      (run : Run (serve head (Framing.hasBody c')) past (.done outcome))
      (ended : outcome = .keep true → head.keepAlive = false) :
      Serves serve c [⟨head, Framing.hasBody c', past⟩]
  -- The rest of the request's body is not what was announced, or does not come.
  | undrained (c c' : Connection σ) (head : Head) (past : Events)
      (read : readRequest c = .ok head c')
      (run : Run (serve head (Framing.hasBody c')) past (.done (.keep true)))
      (kept : head.keepAlive = true) (stuck : ∀ c'', drain c' ≠ .ok () c'') :
      Serves serve c [⟨head, Framing.hasBody c', past⟩]
  | next (c c' c'' : Connection σ) (head : Head) (past : Events) (later : List Round)
      (read : readRequest c = .ok head c')
      (run : Run (serve head (Framing.hasBody c')) past (.done (.keep true)))
      (kept : head.keepAlive = true) (drained : drain c' = .ok () c'')
      (rest : Serves serve c'' later) :
      Serves serve c (⟨head, Framing.hasBody c', past⟩ :: later)

inductive Output (config : Config) : List Round → Bytes → Prop
  | done : Output config [] []
  | round (round : Round) (later : List Round) (bytes more : Bytes)
      (sent : Sent config round.past bytes) (rest : Output config later more) :
      Output config (round :: later) (bytes ++ more)

/-- One of the servers: what a round of it is made of, and why only whole responses of the engine
let it go on. -/
structure Port (server : Server) where
  reasons : List (Int32 × Str)
  serve : Head → Bool → Serve Outcome
  settle : Head → Bool → Serve Reply
  write : Head → Reply → Serve Outcome
  texts : ∀ entry ∈ reasons, OneLine entry.2
  whole : ∀ head hasBody, serve head hasBody = settle head hasBody >>= write head
  settled : ∀ head hasBody, Settled server head.request (settle head hasBody)
  keeps : ∀ head, Keeps reasons head (write head)

inductive Build where
  | thin
  | full

def Server.port (server : Server) : Build → Port server
  | .thin =>
      { reasons := Plain.reasons
        serve := fun head _ => Plain.serveRequest server head
        settle := fun head _ => handles server head.request >>= fun result => pure (Plain.reply result)
        write := Plain.writeReply
        texts := by decide
        whole := fun head _ => by
          rw [plain_eq, Dialogue.bind_assoc]
          rfl
        settled := fun head _ => plainReply_settled head.request
        keeps := Plain.writeReply_keeps }
  | .full =>
      { reasons := reasons
        serve := serveRequest server
        settle := fun head hasBody => fullReply server (handles server head.request) head hasBody
        write := writeReply server
        texts := by decide
        whole := fun _ _ => serveRequest_eq
        settled := fullReply_settled
        keeps := writeReply_keeps server }

-- If the engine answers in this round, no header value of its response breaks the line.
def Round.Unbroken (settle : Head → Bool → Serve Reply) (round : Round) : Prop :=
  ∀ front response, front <+: round.past →
    Run (settle round.head round.hasBody) front (.done (.engine response)) →
    ∀ entry ∈ response.headers.entries, OneLine entry.2

-- The whole response of the engine is written, and the server would take another request.
def Round.Goes (serve : Head → Bool → Serve Outcome) (round : Round) : Prop :=
  Run (serve round.head round.hasBody) round.past (.done (.keep true))

/-- The engine's response was not written in full, it is a stream that ends with an HTTP/1.0
connection, or what is written is not a response of the engine. -/
def Round.Stops (settle : Head → Bool → Serve Reply) (round : Round) : Prop :=
  (∃ event ∈ round.past, ¬ Done event) ∨
    ∃ front reply, front <+: round.past ∧
      Run (settle round.head round.hasBody) front (.done reply) ∧
        ∀ response, reply = .engine response →
          isStreaming response.body = true ∧ round.head.http11 = false

def Round.Answered (server : Server) (round : Round) (message : Messages.Message) : Prop :=
  ∃ response, Planned (StaticPlan.start server.config round.head.request server.mime) response ∧
    message.status = response.status.toInt.toNat ∧
    message.fields = clientFields (finalHeaders response round.head.http11)

section

variable {server : Server} {response : StaticPlan.Response} {http11 : Bool}

theorem known_token {name : Str} (known : name ∈ StaticPlan.replyNames ++ serverNames) :
    RequestHeaders.token name = true := by
  have all : (StaticPlan.replyNames ++ serverNames).all RequestHeaders.token = true := by
    decide +kernel
  exact List.all_eq_true.mp all name known

theorem finalHeaders_fields {config : Config} {request : Request} {mime : MimeRegistry}
    {past : StaticPlan.Past} {reply : StaticPlan.Reply}
    (answers : StaticPlan.Answers ⟨config, request, mime⟩ past reply)
    (sent : response = Planner.sent ⟨config, request, mime⟩ reply)
    (tokens : ∀ name ∈ config.customHeaders.keys, RequestHeaders.token name = true)
    (unbroken : ∀ entry ∈ response.headers.entries, OneLine entry.2) :
    ∀ entry ∈ (finalHeaders response http11).entries, FieldEntry entry := by
  have headers : response.headers = applySecurityHeaders reply.headers config request.meth := by
    rw [sent]
    rfl
  have values : response.headers.Each fun _ value => OneLine value := fun name value found =>
    unbroken (name, value) ((OrderedMap.get_eq_some _ _ _).mp found)
  have final : (finalHeaders response http11).Each fun _ value => OneLine value := by
    rw [finalHeaders_eq]
    refine OrderedMap.Each.insertAll _ (values.mono fun _ _ => Or.inr) fun entry own => ?_
    unfold serverFields at own
    split_ifs at own
    · rw [List.mem_singleton.mp own]
      decide
    · rw [List.mem_singleton.mp own]
      decide
    · cases own
  intro entry member
  refine ⟨?_, final entry.1 entry.2 ((OrderedMap.get_eq_some _ _ _).mpr member)⟩
  have key : entry.1 ∈ (finalHeaders response http11).keys := List.mem_map_of_mem member
  rw [mem_keys_final, headers, mem_keys_applied] at key
  rcases key with (planned | security | custom) | own
  · rcases answers_named answers entry.1 planned with known | custom
    · exact known_token (List.mem_append_left _ known)
    · exact tokens entry.1 custom
  · have known : entry.1 ∈ StaticPlan.generatedNames :=
      List.mem_append_right _ (securityFields_names.subset security)
    exact known_token (List.mem_append_left _ (List.mem_append_right _ known))
  · exact tokens entry.1 custom
  · exact known_token (List.mem_append_right _ (serverFields_names _ http11 own))

theorem Port.reason_text (port : Port server) (status : Int32) :
    Messages.LineText (encode (statusReason port.reasons status)) := by
  have text : OneLine (statusReason port.reasons status) := by
    unfold statusReason
    cases found : port.reasons.find? fun entry => entry.1 == status with
    | none => decide
    | some entry => exact port.texts entry (List.mem_of_find?_eq_some found)
  exact ⟨mt (mem_encode_ascii _ (unit '\r') (by decide)).mp text.1,
    mt (mem_encode_ascii _ (unit '\n') (by decide)).mp text.2⟩

-- A round that lets the connection go on has written the whole of a response of the engine.
theorem Port.goes_written (port : Port server) {round : Round} {bytes : Bytes}
    (goes : round.Goes port.serve) (sent : Sent server.config round.past bytes) :
    ∃ front response, front <+: round.past ∧
      Run (port.settle round.head round.hasBody) front (.done (.engine response)) ∧
      Planned (StaticPlan.start server.config round.head.request server.mime) response ∧
      (isStreaming response.body = true → round.head.http11 = true) ∧
      (∀ event ∈ round.past, Done event) ∧
      ∃ written, Written server.config response.body (isStreaming response.body && round.head.http11)
          written ∧
        bytes = encode (headerText port.reasons response.status
          (finalHeaders response round.head.http11)) ++ written := by
  obtain ⟨head, hasBody, past⟩ := round
  rw [Round.Goes, port.whole] at goes
  obtain ⟨front, reply, back, settle, write, rfl⟩ := goes.of_bind
  obtain ⟨response, wrote, behind, rfl, rfl, written, silence⟩ := port.keeps head reply back write
  obtain ⟨planned, before⟩ := (port.settled head hasBody).run settle
  have here := (sent.after before).before silence
  obtain ⟨version, done, whole⟩ := sendResponse_kept written here
  refine ⟨front, response, List.prefix_append _ _, settle, planned, version, ?_, whole⟩
  simp only [List.mem_append]
  rintro event (early | during | late)
  · exact .of_silent (before event early)
  · exact done event during
  · exact .of_silent (silence event late)

theorem Port.stops_ends (port : Port server) {round : Round} {bytes : Bytes}
    (stops : round.Stops port.settle) (sent : Sent server.config round.past bytes) :
    ¬ round.Goes port.serve := by
  intro goes
  obtain ⟨front, response, before, settle, -, version, done, -⟩ := port.goes_written goes sent
  rcases stops with ⟨event, member, undone⟩ | ⟨front', reply, before', settle', other⟩
  · exact undone (done event member)
  · obtain ⟨-, same⟩ := settle.same_end settle' before before'
    obtain ⟨streams, old⟩ := other response same.symm
    rw [version streams] at old
    cases old

variable (block : 0 < server.config.limits.bodyBlockBytes.toInt)
  (length : NotCustom server.config (str "Content-Length"))
  (coding : NotCustom server.config (str "Transfer-Encoding"))
  (tokens : ∀ name ∈ server.config.customHeaders.keys, RequestHeaders.token name = true)

include block length coding tokens

-- What a round writes that lets the connection go on is one message, whatever follows it.
theorem Port.kept_delimits (port : Port server) {round : Round} {bytes : Bytes}
    (run : Run (port.serve round.head round.hasBody) round.past (.done (.keep true)))
    (sent : Sent server.config round.past bytes) (unbroken : round.Unbroken port.settle) :
    ∃ message, Messages.Delimits round.isHead bytes message ∧ round.Answered server message := by
  obtain ⟨front, response, before, settle, planned, version, -, body, whole, rfl⟩ :=
    port.goes_written run sent
  have lines := unbroken front response before settle
  obtain ⟨asked, planner⟩ := planned
  obtain ⟨reply, answers, same⟩ := StaticPlan.run_responds planner
  have fields := @finalHeaders_fields _ round.head.http11 _ _ _ _ _ answers same tokens lines
  obtain ⟨data, told⟩ := body_told answers block length coding same
    (fun entry member => (fields entry member).name) version whole
  have status : response.status ∈ StaticPlan.replyStatuses := by
    rw [same]
    exact answers.framed.1
  obtain ⟨number, three⟩ := replyStatuses_digits status
  refine ⟨⟨_, clientFields (finalHeaders response round.head.http11), data⟩, ?_, response,
    ⟨asked, planner⟩, rfl, rfl⟩
  rw [encode_headerText number]
  refine Messages.delimits three (port.reason_text _) (fun field member => ?_) told
  obtain ⟨entry, listed, rfl⟩ := List.mem_map.mp member
  exact (fields entry listed).text

variable {σ : Type} [Reader σ]

omit block length coding tokens in
-- A round that does not let the connection go on is the last one.
theorem Serves.goes_of_later {serve : Head → Bool → Serve Outcome} {c : Connection σ}
    {front back : List Round} {round : Round} (serves : Serves serve c (front ++ round :: back))
    (ended : ¬ round.Goes serve) : back = [] := by
  generalize same : front ++ round :: back = rounds at serves
  induction serves generalizing front with
  | closes => simp at same
  | cut | ends | undrained =>
    cases front with
    | nil => exact (List.cons.inj same).2
    | cons first front => simp at same
  | next c c' c'' head past later read run kept drained rest ih =>
    cases front with
    | nil =>
      obtain ⟨rfl, rfl⟩ := List.cons.inj same
      exact absurd run ended
    | cons first front => exact ih (List.cons.inj same).2

-- All rounds but the last one, if it did not let the connection go on, write one message each.
theorem Serves.exchange (port : Port server) {c : Connection σ} {rounds : List Round}
    (serves : Serves port.serve c rounds) {bytes : Bytes}
    (output : Output server.config rounds bytes)
    (unbroken : ∀ round ∈ rounds, round.Unbroken port.settle) :
    ∃ kept ends front back messages, rounds = kept ++ ends ∧ (∀ round ∈ kept, round.Goes port.serve) ∧
      (∀ round ∈ ends, ¬ round.Goes port.serve) ∧ ends.length ≤ 1 ∧
      bytes = front ++ back ∧ (ends = [] → back = []) ∧
      Messages.Exchange (kept.map Round.isHead) front messages ∧
      List.Forall₂ (Round.Answered server) kept messages := by
  -- The last round may have let the connection go on too, if it is the client that ends it.
  have last {round : Round} {bytes : Bytes} (output : Output server.config [round] bytes)
      (unbroken : ∀ r ∈ [round], r.Unbroken port.settle) :
      ∃ kept ends front back messages, [round] = kept ++ ends ∧
        (∀ round ∈ kept, round.Goes port.serve) ∧ (∀ round ∈ ends, ¬ round.Goes port.serve) ∧
        ends.length ≤ 1 ∧ bytes = front ++ back ∧ (ends = [] → back = []) ∧
        Messages.Exchange (kept.map Round.isHead) front messages ∧
        List.Forall₂ (Round.Answered server) kept messages := by
    by_cases goes : round.Goes port.serve
    · cases output with
      | round _ _ first more sent output =>
        cases output
        obtain ⟨message, delimits, answered⟩ :=
          port.kept_delimits block length coding tokens goes sent (unbroken _ List.mem_cons_self)
        exact ⟨[round], [], first ++ [], [], [message], rfl, List.forall_mem_singleton.mpr goes, by simp,
          by simp, (List.append_nil _).symm, fun _ => rfl, .next delimits .done, .cons answered .nil⟩
    · exact ⟨[], [round], [], bytes, [], rfl, by simp, List.forall_mem_singleton.mpr goes, le_rfl, rfl,
        by simp, .done, .nil⟩
  induction serves generalizing bytes with
  | closes c =>
    cases output
    exact ⟨[], [], [], [], [], rfl, by simp, by simp, by simp, rfl, fun _ => rfl, .done, .nil⟩
  | cut => exact last output unbroken
  | ends => exact last output unbroken
  | undrained => exact last output unbroken
  | next c c' c'' head past later read run kept drained rest ih =>
    cases output with
    | round _ _ first more sent output =>
      simp only [List.mem_cons, forall_eq_or_imp] at unbroken
      obtain ⟨message, delimits, answered⟩ :=
        port.kept_delimits block length coding tokens run sent unbroken.1
      obtain ⟨kept, ends, front, back, messages, rfl, going, ended, one, rfl, none, exchange, all⟩ :=
        ih output unbroken.2
      exact ⟨_ :: kept, ends, first ++ front, back, message :: messages, rfl,
        List.forall_mem_cons.mpr ⟨run, going⟩, ended, one, (List.append_assoc _ _ _).symm, none,
        .next delimits exchange, .cons answered all⟩

end

def asksHead (message : Message) : Bool := message.head.name == str "HEAD"

section

variable {σ : Type} [Reader σ]

theorem asksHead_eq {message : Message} {round : Round} {pieces : List Bytes}
    (yields : message.Yields round.head pieces) : asksHead message = round.isHead := by
  rw [asksHead, Round.isHead, yields.meth, method]
  by_cases head : message.head.name = str "HEAD"
  · rw [head]
    decide
  · split_ifs <;> simp [head]

theorem read_yields {message : Message} {c c' : Connection σ} {head : Head} {rest : Bytes}
    (wellFormed : message.WellFormed) (finished : c.body = .empty)
    (unread : c.unread = message.encode ++ rest) (read : readRequest c = .ok head c') :
    message.Yields head [] ∧ Remains c'.body c'.unread message.body.data rest := by
  rw [Message.encode, List.append_assoc] at unread
  obtain ⟨body, announces, remains⟩ := wellFormed.body.announces rest
  obtain ⟨headers, d, again, collected, unread, state⟩ :=
    readRequest_run wellFormed.head announces finished unread
  rw [read] at again
  cases again
  rw [← state, ← unread] at remains
  exact ⟨⟨rfl, rfl, collected, rfl, List.nil_prefix, by simp⟩, remains⟩

-- The requests that a server answers are those that were sent, in their order.
theorem Serves.requests {serve : Head → Bool → Serve Outcome} {c : Connection σ}
    {rounds : List Round} (serves : Serves serve c rounds) {script : List Message} {tail : Bytes}
    (wellFormed : ∀ message ∈ script, message.WellFormed) (finished : c.body = .empty)
    (unread : c.unread = script.flatMap Message.encode ++ tail) :
    ∀ pair ∈ script.zip rounds, pair.1.Yields pair.2.head [] := by
  have last {c c' : Connection σ} {head : Head} {past : Events} {script : List Message}
      (read : readRequest c = .ok head c')
      (wellFormed : ∀ message ∈ script, message.WellFormed) (finished : c.body = .empty)
      (unread : c.unread = script.flatMap Message.encode ++ tail) :
      ∀ pair ∈ script.zip [(⟨head, Framing.hasBody c', past⟩ : Round)],
        pair.1.Yields pair.2.head [] := by
    cases script with
    | nil => simp
    | cons message script =>
      simp only [List.mem_cons, forall_eq_or_imp] at wellFormed
      rw [List.flatMap_cons, List.append_assoc] at unread
      simpa using (read_yields wellFormed.1 finished unread read).1
  induction serves generalizing script with
  | closes c => simp
  | cut _ _ _ _ _ _ read => exact last read wellFormed finished unread
  | ends _ _ _ _ _ read => exact last read wellFormed finished unread
  | undrained _ _ _ _ read => exact last read wellFormed finished unread
  | next c c' c'' head past later read run kept drained rest ih =>
    cases script with
    | nil => simp
    | cons message script =>
      simp only [List.mem_cons, forall_eq_or_imp] at wellFormed
      rw [List.flatMap_cons, List.append_assoc] at unread
      obtain ⟨yields, remains⟩ := read_yields wellFormed.1 finished unread read
      obtain ⟨d, dropped, body, left⟩ := drain_run remains
      rw [drained] at dropped
      cases dropped
      simp only [List.zip_cons_cons, List.mem_cons, forall_eq_or_imp]
      exact ⟨yields, ih wellFormed.2 body left⟩

-- A client that asked for less than was answered reads what it asked for.
theorem exchange_paired {server : Server} {script : List Message} {kept ends : List Round}
    {bytes : Bytes} {messages : List Messages.Message}
    (answered : List.Forall₂ (Round.Answered server) kept messages)
    (exchange : Messages.Exchange (kept.map Round.isHead) bytes messages)
    (yields : ∀ pair ∈ script.zip (kept ++ ends), pair.1.Yields pair.2.head []) :
    ∃ front back shown, bytes = front ++ back ∧ (kept.length ≤ script.length → back = []) ∧
      Messages.Exchange ((script.zip kept).map fun pair => asksHead pair.1) front shown ∧
      List.Forall₂ (fun pair message => Round.Answered server pair.2 message) (script.zip kept)
        shown := by
  induction answered generalizing script bytes with
  | nil =>
    cases exchange
    exact ⟨[], [], [], rfl, fun _ => rfl, by simpa using .done, by simp⟩
  | cons answered later ih =>
    rename_i round message kept messages
    cases script with
    | nil => exact ⟨[], bytes, [], rfl, by simp, .done, .nil⟩
    | cons asked script =>
      simp only [List.cons_append, List.zip_cons_cons, List.mem_cons, forall_eq_or_imp] at yields
      cases exchange with
      | next delimits exchange =>
        rename_i first more
        obtain ⟨front, back, shown, rfl, none, paired, all⟩ := ih exchange yields.2
        rw [← asksHead_eq yields.1] at delimits
        refine ⟨first ++ front, back, message :: shown, (List.append_assoc _ _ _).symm, ?_,
          .next delimits paired, .cons answered all⟩
        intro shorter
        rw [List.length_cons, List.length_cons] at shorter
        exact none (by omega)

end

/-- On every connection the requests are answered in the order in which they were sent, and a client
that knows no more than which requests it sent reads one response to each of them out of the bytes,
as long as the server goes on. -/
theorem responses_in_step {σ : Type} [Reader σ] {server : Server} (build : Build)
    (valid : validateConfig server.config = .ok ())
    (length : NotCustom server.config (str "Content-Length"))
    (coding : NotCustom server.config (str "Transfer-Encoding"))
    (tokens : ∀ name ∈ server.config.customHeaders.keys, RequestHeaders.token name = true)
    {script : List Message} {source : σ} {tail : Bytes}
    (wellFormed : ∀ message ∈ script, message.WellFormed)
    (unread : Reader.unread source = script.flatMap Message.encode ++ tail)
    {rounds : List Round} {bytes : Bytes}
    (serves : Serves (server.port build).serve (Connection.new source) rounds)
    (output : Output server.config rounds bytes)
    (unbroken : ∀ round ∈ rounds, round.Unbroken (server.port build).settle) :
    (∀ pair ∈ script.zip rounds, pair.1.Yields pair.2.head []) ∧
    ∃ kept ends messages last, rounds = kept ++ ends ∧
      (∀ round ∈ kept, round.Goes (server.port build).serve) ∧
      (∀ round ∈ ends, ¬ round.Goes (server.port build).serve) ∧ ends.length ≤ 1 ∧
      Messages.readAll ((script.zip kept).map fun pair => asksHead pair.1) bytes =
        some (messages, last) ∧
      List.Forall₂ (fun pair message => Round.Answered server pair.2 message) (script.zip kept)
        messages ∧
      (ends = [] → rounds.length ≤ script.length → last = []) := by
  have block := validateConfig_block valid
  have requests := serves.requests wellFormed rfl unread
  refine ⟨requests, ?_⟩
  obtain ⟨kept, ends, front, back, messages, rfl, going, ended, one, rfl, none, exchange, answered⟩ :=
    serves.exchange block length coding tokens (server.port build) output unbroken
  obtain ⟨first, second, shown, rfl, whole, paired, all⟩ :=
    exchange_paired answered exchange requests
  refine ⟨kept, ends, shown, second ++ back, rfl, going, ended, one, ?_, all, ?_⟩
  · rw [List.append_assoc]
    exact paired.readAll _
  · rintro rfl shorter
    rw [List.append_nil] at shorter
    rw [none rfl, whole shorter, List.append_nil]

/-- Every round after which the connection goes on has written one response that a client tells from
what follows, and every other one is the last. -/
theorem rounds_delimited {σ : Type} [Reader σ] {server : Server} (build : Build)
    (valid : validateConfig server.config = .ok ())
    (length : NotCustom server.config (str "Content-Length"))
    (coding : NotCustom server.config (str "Transfer-Encoding"))
    (tokens : ∀ name ∈ server.config.customHeaders.keys, RequestHeaders.token name = true)
    {c : Connection σ} {front back : List Round} {round : Round} {bytes : Bytes}
    (serves : Serves (server.port build).serve c (front ++ round :: back))
    (sent : Sent server.config round.past bytes)
    (unbroken : round.Unbroken (server.port build).settle) :
    (round.Goes (server.port build).serve →
        ∃ message, Messages.Delimits round.isHead bytes message ∧ round.Answered server message) ∧
      (¬ round.Goes (server.port build).serve → back = []) ∧
      (round.Stops (server.port build).settle → back = []) := by
  refine ⟨fun goes => ?_, serves.goes_of_later, fun stops => ?_⟩
  · exact (server.port build).kept_delimits (validateConfig_block valid) length coding tokens goes
      sent unbroken
  · exact serves.goes_of_later ((server.port build).stops_ends stops sent)

def percentHead (last : Bool) : RawHead :=
  ⟨if last then str "HEAD" else str "GET", str "/%", str "HTTP/1.1",
    [⟨str "Host", str " a"⟩, ⟨str "Connection", if last then str " close" else str " keep-alive"⟩]⟩

def percent (last : Bool) : Message := ⟨percentHead last, .none⟩

def percentHeaders (last : Bool) : Headers :=
  OrderedMap.ofList [(str "host", str "a"),
    (str "connection", if last then str "close" else str "keep-alive")]

theorem percent_fields (last : Bool) : FieldLines (percentHead last).fields where
  lines := by
    have plain : ∀ f ∈ (percentHead last).fields, unit ':' ∉ f.name ∧
        f.text.all (fun u => 0x20 ≤ u.toNat ∧ u.toNat < 0x80) = true := by
      cases last <;> decide
    exact fun f member => ⟨(plain f member).1, lineText_literal (plain f member).2⟩
  count := by cases last <;> decide
  size := by cases last <;> decide

theorem percent_wellFormed (last : Bool) : (percent last).WellFormed where
  head :=
    { name := by cases last <;> decide
      space := by cases last <;> decide
      version := Or.inl rfl
      line := lineText_literal (by cases last <;> decide)
      lines := (percent_fields last).lines
      target := by cases last <;> decide
      size := by cases last <;> decide
      fields := percent_fields last
      unambiguous := (addFields_ok (show addFields ∅ _ = some (percentHeaders last) by
        cases last <;> rfl)).1 }
  body := .none _ (by cases last <;> rfl) (by cases last <;> rfl)

def percentResponse (last : Bool) : StaticPlan.Response :=
  ⟨400, applySecurityHeaders (OrderedMap.ofList
      [(str "Content-Type", str "text/plain; charset=UTF-8"), (str "Content-Length", str "11")])
    plainServer.config (if last then .head else .get),
    if last then .empty else .bytes (encode (str "Bad Request"))⟩

def percentSettling (last : Bool) : Events :=
  [⟨.engine .closing, false⟩, ⟨.engine .closing, false⟩,
    ⟨.engine (.reserves false (if last then 0 else 22)), .ok ()⟩]

def percentPieces (last : Bool) : List Bytes :=
  encode (headerText Plain.reasons 400 (percentResponse last).headers) ::
    if last then [] else [encode (str "Bad Request")]

def percentRound (last : Bool) : Round where
  head := (percentHead last).head (percentHeaders last)
  hasBody := false
  past := percentSettling last ++ ⟨.engine .closing, false⟩ ::
    (percentPieces last).map fun piece => ⟨.sends piece, true⟩

theorem percentRound_settles (last : Bool) :
    Run ((plainServer.port .thin).settle (percentRound last).head false) (percentSettling last)
      (.done (.engine (percentResponse last))) := by
  cases last <;> exact run_of_result rfl

theorem percentRound_unbroken (last : Bool) :
    (percentRound last).Unbroken (plainServer.port .thin).settle := by
  intro front response before run
  obtain ⟨-, same⟩ := run.same_end (percentRound_settles last) before (List.prefix_append _ _)
  cases same
  cases last <;> decide

theorem percentRound_goes (last : Bool) : (percentRound last).Goes (plainServer.port .thin).serve := by
  unfold Round.Goes
  cases last <;> exact run_of_result rfl

theorem percent_serves : Serves (plainServer.port .thin).serve
    (Connection.new ((percent false).encode ++ (percent true).encode))
    [percentRound false, percentRound true] := by
  have first : readRequest (Connection.new ((percent false).encode ++ (percent true).encode)) =
      .ok (percentRound false).head ⟨[], (percent true).encode, .empty⟩ :=
    StateRun.value?_eq_some.mp (by decide +kernel)
  have second : readRequest (⟨[], (percent true).encode, .empty⟩ : Connection Bytes) =
      .ok (percentRound true).head ⟨[], [], .empty⟩ :=
    StateRun.value?_eq_some.mp (by decide +kernel)
  refine .next _ _ _ _ _ _ first (percentRound_goes false) (by decide) rfl ?_
  exact .ends _ _ _ _ _ second (percentRound_goes true) (by decide)

theorem sent_pieces {config : Config} (pieces : List Bytes) :
    Sent config (pieces.map fun piece => ⟨.sends piece, true⟩) pieces.flatten := by
  induction pieces with
  | nil => exact .nothing
  | cons piece pieces ih => exact .sends _ _ _ _ _ List.prefix_rfl (fun _ => rfl) ih

theorem percentRound_sent (last : Bool) :
    Sent plainServer.config (percentRound last).past (percentPieces last).flatten :=
  .quiet _ _ _ trivial <| .quiet _ _ _ trivial <| .quiet _ _ _ trivial <| .quiet _ _ _ trivial <|
    sent_pieces _

-- The client closes after the second answer, which it reads in full all the same.
theorem responses_in_step_percent :
    (∀ pair ∈ [percent false, percent true].zip [percentRound false, percentRound true],
      pair.1.Yields pair.2.head []) ∧
    ∃ messages,
      Messages.readAll [false, true] ((percentPieces false).flatten ++ ((percentPieces true).flatten ++ []))
        = some (messages, []) ∧
      List.Forall₂ (fun pair message => Round.Answered plainServer pair.2 message)
        ([percent false, percent true].zip [percentRound false, percentRound true]) messages := by
  have plain (name : Str) : NotCustom plainServer.config name := fun key custom => by cases custom
  have unread : Reader.unread ((percent false).encode ++ (percent true).encode) =
      [percent false, percent true].flatMap Message.encode ++ [] := by
    simp [Reader.unread]
  obtain ⟨yields, kept, ends, messages, last, both, -, ended, -, told, answered, none⟩ :=
    responses_in_step .thin (by decide +kernel) (plain _) (plain _) (by decide)
      (by simp [percent_wellFormed]) unread percent_serves
      (.round _ _ _ _ (percentRound_sent false) (.round _ _ _ _ (percentRound_sent true) .done))
      (by simp [percentRound_unbroken])
  have all : ends = [] := by
    refine List.eq_nil_iff_forall_not_mem.mpr fun round member => ended round member ?_
    have listed : round ∈ [percentRound false, percentRound true] :=
      both ▸ List.mem_append_right kept member
    simp only [List.mem_cons, List.not_mem_nil, or_false] at listed
    rcases listed with rfl | rfl
    · exact percentRound_goes false
    · exact percentRound_goes true
  rw [all, List.append_nil] at both
  obtain rfl := both
  obtain rfl := none all (by decide)
  exact ⟨yields, messages, told, answered⟩

theorem rounds_delimited_percent :
    Serves (plainServer.port .thin).serve
        (Connection.new ((percent false).encode ++ (percent true).encode))
        ([] ++ percentRound false :: [percentRound true]) ∧
      ∃ message, Messages.Delimits false (percentPieces false).flatten message ∧
        (percentRound false).Answered plainServer message := by
  have plain (name : Str) : NotCustom plainServer.config name := fun key custom => by cases custom
  have serves : Serves (plainServer.port .thin).serve
      (Connection.new ((percent false).encode ++ (percent true).encode))
      ([] ++ percentRound false :: [percentRound true]) := percent_serves
  have delimited := rounds_delimited .thin (by decide +kernel) (plain _) (plain _) (by decide) serves
    (percentRound_sent false) (percentRound_unbroken false)
  exact ⟨serves, delimited.1 (percentRound_goes false)⟩

-- A value of `cors_headers` may break the line, and then it adds a length of its own.
def corsServer : Server :=
  { plainServer with
    config := { plainServer.config with
      cors := true
      corsHeaders := some (str "X\r\nContent-Length: 5") } }

def corsResponse : StaticPlan.Response :=
  ⟨400, applySecurityHeaders (OrderedMap.ofList
      [(str "Content-Type", str "text/plain; charset=UTF-8"), (str "Content-Length", str "11")])
    corsServer.config .get, .bytes (encode (str "Bad Request"))⟩

def corsPieces : List Bytes :=
  [encode (headerText Plain.reasons 400 corsResponse.headers), encode (str "Bad Request")]

def corsRound : Round where
  head := (percentHead false).head (percentHeaders false)
  hasBody := false
  past := percentSettling false ++ ⟨.engine .closing, false⟩ ::
    corsPieces.map fun piece => ⟨.sends piece, true⟩

set_option maxRecDepth 4000 in
theorem corsRound_goes : corsRound.Goes (corsServer.port .thin).serve := by
  unfold Round.Goes
  exact run_of_result rfl

theorem cors_serves : Serves (corsServer.port .thin).serve
    (Connection.new ((percent false).encode ++ (percent false).encode)) [corsRound, corsRound] := by
  have first : readRequest (Connection.new ((percent false).encode ++ (percent false).encode)) =
      .ok corsRound.head ⟨[], (percent false).encode, .empty⟩ :=
    StateRun.value?_eq_some.mp (by decide +kernel)
  have second : readRequest (⟨[], (percent false).encode, .empty⟩ : Connection Bytes) =
      .ok corsRound.head ⟨[], [], .empty⟩ :=
    StateRun.value?_eq_some.mp (by decide +kernel)
  refine .next _ _ _ _ _ _ first corsRound_goes (by decide) rfl ?_
  exact .next _ _ _ _ _ _ second corsRound_goes (by decide) rfl (.closes _)

theorem rounds_undelimited : ∃ (server : Server) (c : Connection Bytes) (round : Round) (bytes : Bytes),
    validateConfig server.config = .ok () ∧ (∀ name, NotCustom server.config name) ∧
      Serves (server.port .thin).serve c [round, round] ∧ Sent server.config round.past bytes ∧
      ¬ ∃ message, Messages.Delimits round.isHead bytes message := by
  have sent : Sent corsServer.config corsRound.past corsPieces.flatten :=
    .quiet _ _ _ trivial <| .quiet _ _ _ trivial <| .quiet _ _ _ trivial <| .quiet _ _ _ trivial <|
      sent_pieces _
  refine ⟨corsServer, _, corsRound, _, by decide +kernel, fun _ _ custom => (by cases custom),
    cors_serves, sent, ?_⟩
  rintro ⟨message, delimits⟩
  have unread : Messages.read false (corsPieces.flatten ++ []) = none := by decide +kernel
  cases unread.symm.trans (delimits [])

end HttpServer.Serving
