import HttpServer.Engine.Handle

set_option autoImplicit false

namespace HttpServer.Engine

open Unicode HttpServer.Core Dialogue
open StaticPlan (File Step)

-- Whatever is asked and answered, the dialogue ends in a `result`.
abbrev Ending {R : Type} (result : R → Prop) (talk : Talk R) : Prop :=
  Always (fun _ => True) result talk

theorem ending_bind {α β : Type} (result : Except Raised β → Prop) {first : Engine α}
    {rest : α → Engine β} (errors : ∀ e, result (.error e))
    (later : ∀ a, Ending result (rest a).run) : Ending result (first >>= rest).run := by
  apply (always_any first.run).bind
  intro answer _
  cases answer with
  | error e => exact errors e
  | ok a => exact later a

-- The engine's result is a response only if the planner, asked the same way, ends in it.
def Planned (step : Step) (response : StaticPlan.Response) : Prop :=
  ∃ past, Run step past (.done (.responds response))

theorem Planned.ask {query : StaticPlan.Query} {complete : query.Answer → Step}
    (answer : query.Answer) {response : StaticPlan.Response}
    (planned : Planned (complete answer) response) : Planned (.ask query complete) response := by
  obtain ⟨past, run⟩ := planned
  exact ⟨⟨query, answer⟩ :: past, .answer answer run⟩

def FromPlan (whole : Step) (result : Except Raised PlanResult) : Prop :=
  ∀ response, result = .ok (.handled response) → Planned whole response

theorem planSteps_planned {config : Config} {request : Request} {whole : Step} (step : Step)
    (files : List File) (reaches : ∀ response, Planned step response → Planned whole response) :
    Ending (FromPlan whole)
      (planSteps config request step files).run := by
  induction step generalizing files with
  | done outcome =>
    cases outcome with
    | responds response =>
      refine ending_bind (FromPlan whole) (fun _ _ same => by cases same) fun _ other same => ?_
      cases same
      exact reaches _ ⟨[], .here _⟩
    | next => exact fun response same => by cases same
    | changed => exact fun response same => by cases same
    | trap => exact fun response same => by cases same
  | ask query complete ih =>
    have later (answer : query.Answer) (response : StaticPlan.Response)
        (planned : Planned (complete answer) response) : Planned whole response :=
      reaches response (planned.ask answer)
    unfold planSteps
    cases query with
    | opens path =>
      refine ending_bind (FromPlan whole) (fun _ _ same => by cases same) fun opened => ?_
      cases opened with
      | none => exact ih none files (later none)
      | some file => exact ih (some _) _ (later (some _))
    | reads file count =>
      exact ending_bind (FromPlan whole) (fun _ _ same => by cases same)
        fun bytes => ih bytes files (later bytes)
    | lists path =>
      exact ending_bind (FromPlan whole) (fun _ _ same => by cases same)
        fun entries => ih entries files (later entries)

-- Whatever its runtime answers, the engine hands out only responses of the planner.
theorem handle_planned (config : Config) (mime : MimeRegistry) (request : Request) :
    Ending (fun result => ∀ response, result = .handled response →
      Planned (StaticPlan.start config request mime) response) (handle config mime request) := by
  refine ⟨trivial, fun closed => ?_⟩
  cases closed with
  | true => exact fun response same => by cases same
  | false =>
    apply (planSteps_planned (StaticPlan.start config request mime) [] fun _ => id).bind
    intro result planned
    cases result with
    | error e => exact fun response same => by cases same
    | ok plan =>
      cases plan with
      | next => exact fun response same => by cases same
      | trap => exact fun response same => by cases same
      | handled response =>
        refine ⟨trivial, fun closed => ?_⟩
        cases closed with
        | true => exact fun response same => by cases same
        | false =>
          refine ⟨trivial, fun reserved => ?_⟩
          cases reserved with
          | error e => exact fun response same => by cases same
          | ok =>
            intro other same
            cases same
            exact planned response rfl

end HttpServer.Engine
