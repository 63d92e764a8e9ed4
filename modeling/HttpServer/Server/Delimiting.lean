import HttpServer.Engine.Transfers
import HttpServer.Server.Settling
import HttpServer.Server.Wire
import HttpServer.StaticPlan.Lengths

set_option autoImplicit false

namespace HttpServer.Serving

open Unicode Text HttpServer.Core Framing Dialogue
open Bodies (PlanBody Region)
open Engine (Planned)
open StaticPlan (OneLine Planner)

/-- The engine's body for a body of the planner that is read piece by piece. -/
inductive Stands : StaticPlan.Body → PlanBody → Prop
  | region (file : StaticPlan.File) (region : Region) :
      Stands (.fileRegion file region.offset region.length) (.fileRegion region)
  | listing (stream : StaticPlan.ListingStream) : Stands (.listing stream) (.listing stream)

-- `write_to` or `send_to` puts `bytes` on the connection for the whole of a body, and returns.
def Carried (config : Config) (body : StaticPlan.Body) (chunked : Bool) (bytes : Bytes) : Prop :=
  ∃ plan host after, Stands body plan ∧ plan.Fresh ∧
    (Bodies.Response.start plan config.limits.bodyBlockBytes host).History ∧
    (Bodies.writeTo chunked (.start plan config.limits.bodyBlockBytes host) = .ok () after ∨
      chunked = false ∧ ∃ kernel,
        Bodies.sendTo kernel (.start plan config.limits.bodyBlockBytes host) = .ok () after) ∧
    after.host.socket = host.socket ++ bytes

/-- The bytes that a client is sent. A write that fails leaves a part of its data, a transfer that
fails and the tunnel of a WebSocket leave any bytes. -/
inductive Sent (config : Config) : Events → Bytes → Prop
  | nothing : Sent config [] []
  | sends (data part more : Bytes) (done : Bool) (later : Events) (front : part <+: data)
      (whole : done = true → part = data) (rest : Sent config later more) :
      Sent config (⟨.sends data, done⟩ :: later) (part ++ more)
  | transfers (body : StaticPlan.Body) (chunked : Bool) (moved more : Bytes) (done : Bool)
      (later : Events) (carried : done = true → Carried config body chunked moved)
      (rest : Sent config later more) :
      Sent config (⟨.transfers body chunked, done⟩ :: later) (moved ++ more)
  | upgrades (head moved more : Bytes) (later : Events) (rest : Sent config later more) :
      Sent config (⟨.upgrades head, ()⟩ :: later) (moved ++ more)
  | quiet (event : Sigma Effect.Answer) (later : Events) (more : Bytes) (silence : silent event.1)
      (rest : Sent config later more) : Sent config (event :: later) more

section

variable {config : Config}

theorem Sent.after {front back : Events} {bytes : Bytes} (quiet : ∀ event ∈ front, silent event.1)
    (sent : Sent config (front ++ back) bytes) : Sent config back bytes := by
  induction front with
  | nil => exact sent
  | cons event front ih =>
    simp only [List.mem_cons, forall_eq_or_imp] at quiet
    apply ih quiet.2
    rw [List.cons_append] at sent
    cases sent with
    | sends => exact absurd quiet.1 id
    | transfers => exact absurd quiet.1 id
    | upgrades => exact absurd quiet.1 id
    | quiet _ _ _ _ rest => exact rest

theorem Sent.before {front back : Events} {bytes : Bytes} (quiet : ∀ event ∈ back, silent event.1)
    (sent : Sent config (front ++ back) bytes) : Sent config front bytes := by
  induction front generalizing bytes with
  | nil =>
    have whole : Sent config (back ++ []) bytes := by rwa [List.append_nil]
    have rest := Sent.after quiet whole
    cases rest
    exact .nothing
  | cons event front ih =>
    rw [List.cons_append] at sent
    cases sent with
    | sends data part more done _ front whole rest =>
      exact .sends data part more done _ front whole (ih rest)
    | transfers body chunked moved more done _ carried rest =>
      exact .transfers body chunked moved more done _ carried (ih rest)
    | upgrades head moved more _ rest => exact .upgrades head moved more _ (ih rest)
    | quiet _ _ _ silence rest => exact .quiet _ _ _ silence (ih rest)

theorem Sent.written {data bytes : Bytes} {later : Events}
    (sent : Sent config (⟨.sends data, true⟩ :: later) bytes) :
    ∃ more, bytes = data ++ more ∧ Sent config later more := by
  cases sent with
  | sends _ part more _ _ _ whole rest => exact ⟨more, by rw [whole rfl], rest⟩
  | quiet _ _ _ silence => exact absurd silence id

theorem Sent.moved {body : StaticPlan.Body} {chunked : Bool} {bytes : Bytes} {later : Events}
    (sent : Sent config (⟨.transfers body chunked, true⟩ :: later) bytes) :
    ∃ moved more, bytes = moved ++ more ∧ Carried config body chunked moved ∧
      Sent config later more := by
  cases sent with
  | transfers _ _ moved more _ _ carried rest => exact ⟨moved, more, rfl, carried rfl, rest⟩
  | quiet _ _ _ silence => exact absurd silence id

theorem block_chunk (piece : Bytes) : Bodies.block true piece = Messages.chunk piece := by
  have size : encode (Numerals.numeral 16 piece.length ++ str "\r\n") =
      Messages.closed (Messages.hex piece.length) := by
    have line := encode_crlf (Numerals.numeral 16 piece.length) []
    rw [List.append_nil] at line
    rw [line, Messages.encode_narrow (Messages.numeral_ascii (by decide) (by decide) _)]
    exact List.append_nil _
  have close : encode (str "\r\n") = [0x0D, 0x0A] := by decide
  rw [Bodies.block, if_pos rfl, if_pos rfl, size, close, Messages.chunk, List.append_assoc]
  rfl

theorem written_chunks (pieces : List Bytes) :
    Bodies.written true pieces = pieces.flatMap Messages.chunk ++ Messages.lastChunk := by
  have last : encode (str "0\r\n\r\n") = Messages.lastChunk := by decide
  rw [Bodies.written, if_pos rfl, last, funext block_chunk]

theorem Carried.region {file : StaticPlan.File} {offset length : Int64} {bytes : Bytes}
    (block : 0 < config.limits.bodyBlockBytes.toInt)
    (carried : Carried config (.fileRegion file offset length) false bytes) :
    (bytes.length : Int) = length.toInt := by
  obtain ⟨plan, host, after, stands, fresh, history, run, socket⟩ := carried
  cases stands with
  | region _ region =>
    have sound := @Bodies.start_sound _ _ host fresh block
    have whole := @Bodies.start_left _ config.limits.bodyBlockBytes host fresh
    have sent : after.host.socket = host.socket ++ region.bytes := by
      rcases run with written | ⟨-, kernel, sent⟩
      · exact (Bodies.writeTo_plain sound history written).trans (congrArg _ whole)
      · exact (Bodies.sendTo_ok sound history sent).trans (congrArg _ whole)
    rw [List.append_cancel_left (socket.symm.trans sent)]
    exact region.bytes_length

theorem Carried.chunks {stream : StaticPlan.ListingStream} {bytes : Bytes}
    (block : 0 < config.limits.bodyBlockBytes.toInt)
    (carried : Carried config (.listing stream) true bytes) :
    ∃ pieces : List Bytes, (∀ data ∈ pieces, data ≠ []) ∧
      bytes = pieces.flatMap Messages.chunk ++ Messages.lastChunk := by
  obtain ⟨plan, host, after, stands, fresh, history, run, socket⟩ := carried
  have written := run.resolve_right fun sent => Bool.noConfusion sent.1
  have sound := @Bodies.start_sound _ _ host fresh block
  obtain ⟨pieces, -, bounds, out⟩ := Bodies.writeTo_ok sound history written
  refine ⟨pieces, fun data member => (bounds data member).1, ?_⟩
  rw [← written_chunks]
  exact List.append_cancel_left (socket.symm.trans out)

end

def clientFields (headers : Headers) : List Messages.Field :=
  (headers.entries.map clientField).map Messages.Field.trimmed

section

variable {response : StaticPlan.Response} {http11 : Bool}

theorem values_named {headers : Headers} {name : Str} {bytes : Bytes}
    (tokens : ∀ entry ∈ headers.entries, RequestHeaders.token entry.1 = true)
    (small : (name.all fun u => u.toNat < 0x80) = true) (same : encode (toLower name) = bytes) :
    Messages.values bytes (clientFields headers) =
      (fieldValues headers name).map fun value => Messages.trimmed (encode value) := by
  have ascii : ∀ u ∈ name, u.toNat < 0x80 := fun u member => by
    simpa using List.all_eq_true.mp small u member
  have lower : fieldValues headers (toLower name) = fieldValues headers name := by
    simp only [fieldValues, toLower_idem]
  rw [← same, clientFields, clientValues tokens (toLower_small ascii), lower]

theorem fieldValues_final {name : Str} (spelled : Spelled response.headers name)
    (coding : toLower (str "Transfer-Encoding") ≠ toLower name)
    (close : toLower (str "Connection") ≠ toLower name) :
    fieldValues (finalHeaders response http11) name = (response.headers.get name).toList := by
  have one {key value : Str} (other : toLower key ≠ toLower name) :
      fieldValues (response.headers.insert key value) name =
        (response.headers.get name).toList := by
    have kept : Spelled (response.headers.insert key value) name :=
      OrderedMap.Each.insert spelled fun same => absurd same other
    have apart : name ≠ key := fun same => other (same ▸ rfl)
    rw [fieldValues_eq kept, OrderedMap.get_insert_ne _ _ apart]
  unfold finalHeaders
  split_ifs
  · exact one coding
  · exact one close
  · exact fieldValues_eq spelled

theorem fieldValues_coding (spelled : Spelled response.headers (str "Transfer-Encoding"))
    (none : response.headers.get (str "Transfer-Encoding") = none) :
    fieldValues (finalHeaders response http11) (str "Transfer-Encoding") =
      if isStreaming response.body && http11 then [str "chunked"] else [] := by
  unfold finalHeaders
  cases isStreaming response.body with
  | false => rw [if_neg (by simp), fieldValues_eq spelled, none]; rfl
  | true =>
    cases http11 with
    | true =>
      have kept : Spelled (response.headers.insert (str "Transfer-Encoding") (str "chunked"))
          (str "Transfer-Encoding") := OrderedMap.Each.insert spelled fun _ => rfl
      simp only [if_true, fieldValues_eq kept, OrderedMap.get_insert_self]
      rfl
    | false =>
      have kept : Spelled (response.headers.insert (str "Connection") (str "close"))
          (str "Transfer-Encoding") :=
        OrderedMap.Each.insert spelled fun same => absurd same (by decide)
      have apart : str "Transfer-Encoding" ≠ str "Connection" := by decide
      simp only [if_true, Bool.false_eq_true, if_false, fieldValues_eq kept,
        OrderedMap.get_insert_ne _ _ apart, none]
      rfl

inductive Written (config : Config) : StaticPlan.Body → Bool → Bytes → Prop
  | empty (chunked : Bool) : Written config .empty chunked []
  | bytes (content : Bytes) (chunked : Bool) : Written config (.bytes content) chunked content
  | carried (body : StaticPlan.Body) (chunked : Bool) (moved : Bytes)
      (carried : Carried config body chunked moved) : Written config body chunked moved

variable {config : Config} {request : Request} {mime : MimeRegistry} {past : StaticPlan.Past}
  {reply : StaticPlan.Reply} {bytes : Bytes}

theorem Written.of_empty {chunked : Bool} (written : Written config .empty chunked bytes) :
    bytes = [] := by
  cases written with
  | empty => rfl
  | carried _ _ _ carried =>
    obtain ⟨plan, host, after, stands, -⟩ := carried
    cases stands

-- A body of known length is written byte for byte.
theorem Written.sized {body : StaticPlan.Body} {size : Int}
    (block : 0 < config.limits.bodyBlockBytes.toInt) (written : Written config body false bytes)
    (known : body.size? = some size) : size = bytes.length := by
  cases written with
  | empty => exact (Option.some.inj known).symm
  | bytes content => exact (Option.some.inj known).symm
  | carried _ _ _ carried =>
    cases body with
    | fileRegion file offset length =>
      exact (Option.some.inj known).symm.trans (carried.region block).symm
    | listing => cases known
    | _ =>
      obtain ⟨plan, host, after, stands, -⟩ := carried
      cases stands

theorem Written.listing {stream : StaticPlan.ListingStream}
    (block : 0 < config.limits.bodyBlockBytes.toInt)
    (written : Written config (.listing stream) true bytes) :
    ∃ pieces : List Bytes, (∀ data ∈ pieces, data ≠ []) ∧
      bytes = pieces.flatMap Messages.chunk ++ Messages.lastChunk := by
  cases written with
  | carried _ _ _ carried => exact carried.chunks block

theorem extent_bodied {n : Nat} (list : List Messages.Field)
    (bodied : (n / 100 == 1 || n == 204 || n == 304) = false) : Messages.extent false n list =
      match Messages.values (Messages.ascii "transfer-encoding") list,
        Messages.values (Messages.ascii "content-length") list with
      | [coding], [] =>
          if coding.map Messages.lower == Messages.ascii "chunked" then .chunked else .unending
      | [], [length] =>
          match Numerals.nat? 10 (Messages.units length) with
          | some n => .sized n
          | none => .unending
      | _, _ => .unending := by
  rw [Messages.extent, Bool.false_or]
  exact if_neg (by rw [bodied]; exact Bool.false_ne_true)

theorem extent_empty {isHead : Bool} {n : Nat} (list : List Messages.Field)
    (told : (isHead || n == 204 || n == 304) = true) :
    Messages.extent isHead n list = .nothing := by
  have empty : (isHead || n / 100 == 1 || n == 204 || n == 304) = true := by
    simp only [Bool.or_eq_true] at told ⊢
    tauto
  rw [Messages.extent, if_pos empty]

theorem replyStatuses_digits {status : Int32} (known : status ∈ StaticPlan.replyStatuses) :
    status.toInt = status.toInt.toNat ∧
      (Messages.narrow (Numerals.numeral 10 status.toInt.toNat)).length = 3 := by
  have all : (StaticPlan.replyStatuses.all fun status => status.toInt = status.toInt.toNat &&
      (Messages.narrow (Numerals.numeral 10 status.toInt.toNat)).length == 3) = true := by
    decide +kernel
  simpa using List.all_eq_true.mp all status known

theorem replyStatuses_bodied {status : Int32} (known : status ∈ StaticPlan.replyStatuses)
    (bodied : ¬(status = 204 ∨ status = 304)) : (status.toInt.toNat / 100 == 1 ||
      status.toInt.toNat == 204 || status.toInt.toNat == 304) = false := by
  have all : (StaticPlan.replyStatuses.all fun status => status == 204 || status == 304 ||
      !(status.toInt.toNat / 100 == 1 || status.toInt.toNat == 204 ||
        status.toInt.toNat == 304)) = true := by
    decide +kernel
  have here := List.all_eq_true.mp all status known
  rw [not_or] at bodied
  rw [Bool.or_eq_true, Bool.or_eq_true, beq_iff_eq, beq_iff_eq, Bool.not_eq_true'] at here
  exact here.resolve_left fun empty => empty.elim bodied.1 bodied.2

-- The head that a reply gets tells where its body ends.
theorem body_told (answers : StaticPlan.Answers ⟨config, request, mime⟩ past reply)
    (block : 0 < config.limits.bodyBlockBytes.toInt)
    (length : NotCustom config (str "Content-Length"))
    (coding : NotCustom config (str "Transfer-Encoding"))
    (sent : response = Planner.sent ⟨config, request, mime⟩ reply)
    (tokens : ∀ entry ∈ (finalHeaders response http11).entries,
      RequestHeaders.token entry.1 = true)
    (version : isStreaming response.body = true → http11 = true)
    (written : Written config response.body (isStreaming response.body && http11) bytes) :
    ∃ data, Messages.Body (Messages.extent (decide (request.meth = .head))
      response.status.toInt.toNat (clientFields (finalHeaders response http11))) bytes data := by
  have framed := answers.framed
  have status : response.status = reply.status := by rw [sent]; rfl
  have nothing (empty : response.body = .empty)
      (told : (decide (request.meth = .head) || response.status.toInt.toNat == 204 ||
        response.status.toInt.toNat == 304) = true) :
      ∃ data, Messages.Body (Messages.extent (decide (request.meth = .head))
        response.status.toInt.toNat (clientFields (finalHeaders response http11))) bytes data := by
    rw [empty] at written
    rw [written.of_empty, extent_empty _ told]
    exact ⟨[], .nothing⟩
  by_cases head : request.meth = .head
  · refine nothing ?_ (by simp [head])
    rw [sent]
    exact if_pos head
  have body : response.body = reply.body := by
    rw [sent]
    exact if_neg head
  by_cases empty : reply.status = 204 ∨ reply.status = 304
  · refine nothing (body.trans (framed.2 empty)) ?_
    rw [status]
    rcases empty with same | same <;> rw [same] <;> simp
  have lengths : Messages.values (Messages.ascii "content-length")
      (clientFields (finalHeaders response http11)) =
        (reply.body.size?.map ofInt).toList.map fun value => Messages.trimmed (encode value) := by
    have spelled := StaticPlan.spelled_sent answers length (by decide)
    have same : response.headers.get (str "Content-Length") = reply.body.size?.map ofInt := by
      rw [sent, ← answers.measured head]
      exact get_applySecurityHeaders (by decide) length.absent _
    rw [values_named tokens (by decide : ((str "Content-Length").all (·.toNat < 0x80)) = true)
      (by decide), fieldValues_final (sent ▸ spelled) (by decide) (by decide), same]
  have codings : Messages.values (Messages.ascii "transfer-encoding")
      (clientFields (finalHeaders response http11)) =
        if isStreaming response.body && http11 then [Messages.ascii "chunked"] else [] := by
    have spelled := StaticPlan.spelled_sent answers coding (by decide)
    have absent : reply.headers.get (str "Transfer-Encoding") = none := by
      rw [Option.eq_none_iff_forall_ne_some]
      intro value found
      rcases answers.named _ _ found with known | custom
      · exact absurd known (by decide)
      · exact coding.absent custom
    have none : response.headers.get (str "Transfer-Encoding") = none := by
      rw [sent, ← absent]
      exact get_applySecurityHeaders (by decide) coding.absent _
    rw [values_named tokens (by decide : ((str "Transfer-Encoding").all (·.toNat < 0x80)) = true)
      (by decide), fieldValues_coding (sent ▸ spelled) none]
    split_ifs
    · decide
    · rfl
  have bodied := replyStatuses_bodied framed.1 empty
  rw [← status] at bodied
  rw [decide_eq_false head, extent_bodied _ bodied, lengths, codings]
  cases size : reply.body.size? with
  | some k =>
    have still : isStreaming response.body = false := by
      rw [body]
      cases same : reply.body with
      | listing => rw [same] at size; cases size
      | _ => rfl
    rw [still, Bool.false_and] at written ⊢
    have whole := written.sized block (body ▸ size)
    have number : encode (ofInt k) = Messages.narrow (Numerals.numeral 10 bytes.length) := by
      rw [whole, StaticPlan.ofInt_natCast]
      exact Messages.encode_narrow (Messages.numeral_ascii (by decide) (by decide) _)
    simp only [Bool.false_eq_true, if_false, Option.map_some, Option.toList_some, List.map_cons,
      List.map_nil, number, Messages.decimal_value]
    exact ⟨bytes, .sized bytes⟩
  | none =>
    cases same : reply.body with
    | listing stream =>
      rw [same] at body
      have streaming : isStreaming response.body = true := by rw [body]; rfl
      rw [version streaming] at written ⊢
      rw [body] at written ⊢
      obtain ⟨pieces, notEmpty, rfl⟩ := written.listing block
      exact ⟨_, .chunked pieces notEmpty⟩
    | _ => rw [same] at size; cases size

end

-- No write or transfer that was reported as failed.
def Done : Sigma Effect.Answer → Prop
  | ⟨.sends _, (well : Bool)⟩ => well = true
  | ⟨.transfers _ _, (well : Bool)⟩ => well = true
  | _ => True

theorem Done.of_silent {event : Sigma Effect.Answer} (quiet : silent event.1) : Done event := by
  obtain ⟨query, answer⟩ := event
  cases query with
  | sends => exact absurd quiet id
  | transfers => exact absurd quiet id
  | _ => trivial

section

variable {config : Config} {response : StaticPlan.Response} {http11 : Bool} {past : Events}
  {bytes : Bytes}

theorem check_silent (response : StaticPlan.Response) :
    Always silent (fun _ => True) (check response) := by
  unfold check
  refine ⟨trivial, fun closed => ?_⟩
  cases closed with
  | true => exact trivial
  | false =>
    cases response.body with
    | fileRegion file offset length =>
      refine ⟨trivial, fun answer => ?_⟩
      cases answer <;> exact trivial
    | _ => exact trivial

theorem writeBody_written {body : StaticPlan.Body} {chunked : Bool}
    (run : Run (writeBody body chunked) past (.done true)) (sent : Sent config past bytes) :
    Written config body chunked bytes ∧ ∀ event ∈ past, Done event := by
  have carried {body : StaticPlan.Body} (run : Run (transfers body chunked) past (.done true)) :
      Written config body chunked bytes ∧ ∀ event ∈ past, Done event := by
    cases run with
    | answer done rest =>
      cases rest
      obtain ⟨moved, more, rfl, carried, rest⟩ := sent.moved
      cases rest
      rw [List.append_nil]
      exact ⟨.carried _ _ _ carried, by simp [Done]⟩
  cases body with
  | empty =>
    cases run
    cases sent
    exact ⟨.empty _, by simp⟩
  | bytes content =>
    cases content with
    | nil =>
      cases run
      cases sent
      exact ⟨.bytes [] _, by simp⟩
    | cons b content =>
      cases run with
      | answer done rest =>
        cases rest
        obtain ⟨more, rfl, rest⟩ := sent.written
        cases rest
        rw [List.append_nil]
        exact ⟨.bytes _ _, by simp [Done]⟩
  | fileRegion => exact carried run
  | listing => exact carried run

-- After a response, a connection goes on only if head and body went out whole, and not at all after
-- a body that ends with the connection.
theorem sendResponse_kept {reasons : List (Int32 × Str)}
    (run : Run (sendResponse reasons response http11) past (.done (.keep true)))
    (sent : Sent config past bytes) :
    (isStreaming response.body = true → http11 = true) ∧ (∀ event ∈ past, Done event) ∧
      ∃ written, Written config response.body (isStreaming response.body && http11) written ∧
        bytes = encode (headerText reasons response.status (finalHeaders response http11)) ++
          written := by
  obtain ⟨front, checked, back, first, run, rfl⟩ := run.of_bind
  have quiet := (check_silent response).asked first
  have sent := sent.after quiet
  cases checked with
  | false => cases run
  | true =>
    simp only [if_true] at run
    cases run with
    | answer done run =>
      cases done with
      | false => cases run
      | true =>
        obtain ⟨more, rfl, after⟩ := sent.written
        change Run (writeBody _ _ >>= fun whole => Dialogue.done
          (Outcome.keep (whole && !(isStreaming response.body && !http11)))) _ _ at run
        obtain ⟨middle, whole, last, body, ending, rfl⟩ := run.of_bind
        obtain ⟨rfl, again⟩ := ending.of_done
        rw [List.append_nil] at after
        simp only [Outcome.keep.injEq, Bool.and_eq_true, Bool.not_eq_true',
          Bool.and_eq_false_iff, Bool.not_eq_false'] at again
        obtain ⟨rfl, version⟩ := again
        obtain ⟨written, done⟩ := writeBody_written body after
        refine ⟨fun streaming => ?_, ?_, more, written, rfl⟩
        · exact version.resolve_left (by simp [streaming])
        · simp only [List.mem_append, List.mem_cons, List.append_nil]
          rintro event (before | rfl | later)
          · exact .of_silent (quiet event before)
          · exact rfl
          · exact done event later

theorem relayLoop_closes (pieces : List Bytes) :
    Always (fun _ => True) (fun outcome => outcome ≠ .keep true) (relayLoop pieces) := by
  induction pieces with
  | nil => exact fun same => by cases same
  | cons piece pieces ih =>
    refine ⟨trivial, fun answer => ?_⟩
    cases answer with
    | true => exact ih
    | false => exact fun same => by cases same

/-- Nothing but a response of the engine lets a connection go on, and nothing is written after
it. -/
def Keeps (reasons : List (Int32 × Str)) (head : Head) (write : Reply → Serve Outcome) : Prop :=
  ∀ reply past, Run (write reply) past (.done (.keep true)) →
    ∃ response front back, reply = .engine response ∧ past = front ++ back ∧
      Run (sendResponse reasons response head.http11) front (.done (.keep true)) ∧
        ∀ event ∈ back, silent event.1

theorem shouldKeepAlive_silent (headers : Headers) :
    Always silent (fun _ => True) (shouldKeepAlive headers) :=
  ⟨trivial, fun _ => trivial⟩

theorem writeReply_keeps (server : Server) (head : Head) :
    Keeps reasons head (writeReply server head) := by
  intro reply past run
  cases reply with
  | engine response =>
    obtain ⟨front, outcome, back, wrote, rest, rfl⟩ := run.of_bind
    cases outcome with
    | keep again =>
      cases again with
      | true =>
        refine ⟨response, front, back, rfl, rfl, wrote, ?_⟩
        dsimp only at rest
        split_ifs at rest
        · cases rest
        · obtain ⟨asked, kept, last, stopping, ending, rfl⟩ := rest.of_bind
          obtain ⟨rfl, -⟩ := ending.of_done
          rw [List.append_nil]
          exact (shouldKeepAlive_silent _).asked stopping
      | false => cases rest
    | failed => cases rest
    | trap => cases rest
  | own status reason =>
    obtain ⟨front, _, back, _, rest, rfl⟩ := run.of_bind
    cases rest
  | relayed pieces => exact absurd rfl ((relayLoop_closes pieces).ended run)
  | upgraded => cases run
  | failed => cases run
  | trap => cases run

theorem Plain.writeReply_keeps (head : Head) : Keeps Plain.reasons head (Plain.writeReply head) := by
  intro reply past run
  cases reply with
  | engine response => exact ⟨response, past, [], rfl, (List.append_nil _).symm, run, by simp⟩
  | own status reason =>
    obtain ⟨front, sent, back, _, rest, rfl⟩ := run.of_bind
    cases sent <;> cases rest
  | relayed pieces => cases run
  | upgraded => cases run
  | failed => cases run
  | trap => cases run

end

end HttpServer.Serving
