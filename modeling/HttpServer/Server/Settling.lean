import HttpServer.Engine.Planned
import HttpServer.Server.PolicyGate
import HttpServer.Server.Replies

set_option autoImplicit false

namespace HttpServer.Serving

open Unicode Text HttpServer.Core Framing Dialogue
open Engine (HandleResult Planned)
open HttpServer.Server (parseTargetUrl)

def silent : Effect → Prop
  | .sends _ => False
  | .transfers _ _ => False
  | .upgrades _ => False
  | _ => True

abbrev Never (settle : Serve Reply) : Prop :=
  Always (fun _ => True) (fun reply => ∀ response, reply ≠ .engine response) settle

/-- A response of the engine is one of the planner, and comes before anything is written. -/
inductive Settled (server : Server) (request : Request) : Serve Reply → Prop
  | own (settle : Serve Reply) (never : Never settle) : Settled server request settle
  | engine (response : StaticPlan.Response)
      (planned : Planned (StaticPlan.start server.config request server.mime) response) :
      Settled server request (.done (.engine response))
  | ask (query : Effect) (next : query.Answer → Serve Reply) (quiet : silent query)
      (later : ∀ answer, Settled server request (next answer)) :
      Settled server request (.ask query next)

section

variable {server : Server} {request : Request}

theorem Settled.done {reply : Reply} (own : ∀ response, reply ≠ .engine response) :
    Settled server request (.done reply) :=
  .own _ own

theorem Settled.run {settle : Serve Reply} {past : Events} {response : StaticPlan.Response}
    (settled : Settled server request settle) (run : Run settle past (.done (.engine response))) :
    Planned (StaticPlan.start server.config request server.mime) response ∧
      ∀ event ∈ past, silent event.1 := by
  induction settled generalizing past with
  | own settle never => exact absurd rfl (never.ended run response)
  | engine planned facts =>
    cases run
    exact ⟨facts, by simp⟩
  | ask query next quiet later ih =>
    cases run with
    | answer answer run =>
      obtain ⟨planned, rest⟩ := ih answer run
      simp only [List.mem_cons, forall_eq_or_imp]
      exact ⟨planned, quiet, rest⟩

theorem Settled.bind {R : Type} {ends : R → Prop} {first : Serve R} {rest : R → Serve Reply}
    (always : Always silent ends first) (later : ∀ result, ends result → Settled server request (rest result)) :
    Settled server request (first >>= rest) := by
  induction first with
  | done result => exact later result always
  | ask query next ih => exact .ask query _ always.1 fun answer => ih answer (always.2 answer)

theorem acquires_silent (bytes : Int32) : Always silent (fun _ => True) (acquires bytes) :=
  ⟨trivial, fun _ => trivial⟩

theorem connects_silent (target : HttpServer.Server.TargetUrl) :
    Always silent (fun _ => True) (connects target) :=
  ⟨trivial, fun _ => trivial⟩

theorem handles_planned (server : Server) (request : Request) :
    Always silent (fun result => ∀ response, result = .handled response →
      Planned (StaticPlan.start server.config request server.mime) response)
      (handles server request) := by
  unfold handles engine
  refine Always.translate (Engine.handle_planned server.config server.mime request) fun question => ?_
  exact ⟨trivial, fun _ => trivial⟩

theorem proxyReply_never (request : Request) (hasBody : Bool) (target upstreamUrl : Str) :
    Never (proxyReply server request hasBody target upstreamUrl) := by
  have relayed (chunked : Bool) : Never (relayReply chunked) := by
    refine ⟨trivial, fun answer => ?_⟩
    rcases answer with _ | (_ | ⟨piece, rest⟩) <;> exact fun response same => by cases same
  refine ⟨trivial, fun granted => ?_⟩
  cases granted with
  | false => exact fun response same => by cases same
  | true =>
    dsimp only [if_true]
    cases parseTargetUrl upstreamUrl with
    | none => exact fun response same => by cases same
    | some parsed =>
      refine ⟨trivial, fun connected => ?_⟩
      cases connected with
      | false => exact fun response same => by cases same
      | true =>
        refine ⟨trivial, fun forwarded => ?_⟩
        cases forwarded with
        | false => exact fun response same => by cases same
        | true =>
          by_cases expects : (hasBody && hasToken ((request.headers.get (str "expect")).getD [])
              (str "100-continue")) = true
          · simp only [expects]
            refine ⟨trivial, fun continued => ?_⟩
            cases continued with
            | false => exact fun response same => by cases same
            | true => exact relayed _
          · simp only [expects]
            exact relayed _

theorem refusalReply_settled (request : Request) :
    Settled server request (refusalReply <$> handles server request) := by
  apply Settled.bind (handles_planned server request)
  intro result planned
  cases result with
  | handled handed => exact .engine handed (planned handed rfl)
  | _ => exact .done fun response same => by cases same

theorem fileReply_settled (request : Request) (hasBody : Bool) :
    Settled server request (handles server request >>= fileReply server request hasBody) := by
  apply Settled.bind (handles_planned server request)
  intro result planned
  cases result with
  | handled handed => exact .engine handed (planned handed rfl)
  | next =>
    simp only [fileReply]
    cases server.config.proxy with
    | some upstream => exact .own _ (proxyReply_never request hasBody _ _)
    | none =>
      apply Settled.done
      unfold missingReply
      cases request.meth <;> simp
  | error e =>
    apply Settled.done
    cases e <;> simp [errorReply]
  | trap => exact .done (by simp)

theorem dispatchReply_settled (request : Request) (hasBody : Bool) : Settled server request
    (dispatchReply server (handles server request) request hasBody) := by
  unfold dispatchReply
  cases evaluateSecurityPolicies server.config request with
  | none => exact .done (by simp)
  | some decision =>
    cases decision with
    | proceed =>
      dsimp only
      cases resolvePath server.config.root (str "/") request.target with
      | error e => cases e <;> exact .done (by simp)
      | ok path =>
        dsimp only
        cases server.config.proxyAll with
        | some upstream => exact .own _ (proxyReply_never request hasBody _ _)
        | none =>
          dsimp only
          cases server.matchProxyRule request.target with
          | some rule => exact .own _ (proxyReply_never request hasBody _ _)
          | none => exact fileReply_settled request hasBody
    | _ => exact refusalReply_settled request

theorem websocketReply_settled (request : Request) (hasBody : Bool) : Settled server request
    (websocketReply server (handles server request) request hasBody) := by
  apply Settled.bind (acquires_silent _)
  intro granted _
  cases granted with
  | false => exact .done (by simp)
  | true =>
    simp only [if_true]
    cases evaluateSecurityPolicies server.config request with
    | none => exact .done (by simp)
    | some decision =>
      cases decision with
      | proceed =>
        dsimp only
        cases resolvePath server.config.root (str "/") request.target with
        | error e => exact .done (by simp)
        | ok path =>
          dsimp only
          by_cases fits : handshake server request hasBody = true
          · rw [if_pos fits]
            cases upgradeTarget server request with
            | none => exact .done (by simp)
            | some pair =>
              dsimp only
              cases parseTargetUrl pair.1 with
              | none => exact .done (by simp)
              | some parsed =>
                apply Settled.bind (connects_silent parsed)
                intro connected _
                cases connected with
                | false => exact .done (by simp)
                | true => exact .own _ ⟨trivial, fun _ response same => by cases same⟩
          · rw [if_neg fits]
            exact .done (by simp)
      | _ => exact refusalReply_settled request

theorem fullReply_settled (head : Head) (hasBody : Bool) : Settled server head.request
    (fullReply server (handles server head.request) head hasBody) := by
  unfold fullReply
  split_ifs
  · exact websocketReply_settled head.request hasBody
  · exact .done (by simp)
  · exact dispatchReply_settled head.request hasBody

theorem plainReply_settled (request : Request) : Settled server request
    (handles server request >>= fun result => pure (Plain.reply result)) := by
  apply Settled.bind (handles_planned server request)
  intro result planned
  cases result with
  | handled handed => exact .engine handed (planned handed rfl)
  | error e => exact .done (by cases e <;> simp [Plain.reply, errorReply])
  | _ => exact .done (by simp [Plain.reply])

end

end HttpServer.Serving
