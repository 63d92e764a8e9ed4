import HttpServer.Server.Injection
import HttpServer.StaticPlan.Replies

set_option autoImplicit false

namespace HttpServer.Serving

open Unicode Text HttpServer.Core Framing Dialogue
open StaticPlan (Planner replyNames)

def Distinct (headers : Headers) : Prop := (headers.keys.map toLower).Nodup

-- The header that the servers add to a body of unknown length.
def serverFields (body : StaticPlan.Body) (http11 : Bool) : List (Str × Str) :=
  if isStreaming body then
    if http11 then [(str "Transfer-Encoding", str "chunked")] else [(str "Connection", str "close")]
  else []

def serverNames : List Str := ["Transfer-Encoding", "Connection"].map str

/-- The names on a response are told apart in any letter case, and a custom header is the only one
of its name. -/
structure Unambiguous (config : Config) (response : StaticPlan.Response) (http11 : Bool) : Prop where
  done : Distinct response.headers
  sent : Distinct (finalHeaders response http11)
  replaced : ∀ entry ∈ config.customHeaders.entries,
    fieldValues (finalHeaders response http11) entry.1 = [entry.2]

-- No custom name is another spelling of one of `names` or of another custom name.
def Unclashing (config : Config) (names : List Str) : Prop :=
  ∀ key ∈ config.customHeaders.keys, ∀ other ∈ config.customHeaders.keys ++ names,
    toLower key = toLower other → key = other

section

variable {config : Config} {meth : Method} {headers : Headers} {response : StaticPlan.Response}
  {http11 : Bool}

theorem distinct_iff : Distinct headers ↔
    ∀ key ∈ headers.keys, ∀ other ∈ headers.keys, toLower key = toLower other → key = other := by
  constructor
  · intro distinct key member other among same
    exact List.inj_on_of_nodup_map distinct member among same
  · intro apart
    exact headers.nodup.map_on fun key member other among => apart key member other among

theorem Distinct.spelled (distinct : Distinct headers) {name : Str} (present : name ∈ headers.keys) :
    Spelled headers name := by
  intro key value found same
  have member := List.mem_map_of_mem (f := Prod.fst) ((headers.get_eq_some key value).mp found)
  exact distinct_iff.mp distinct key member name present same

theorem finalHeaders_eq (response : StaticPlan.Response) (http11 : Bool) :
    finalHeaders response http11 = (serverFields response.body http11).foldl
      (fun headers entry => headers.insert entry.1 entry.2) response.headers := by
  unfold finalHeaders serverFields
  split_ifs <;> rfl

theorem mem_keys_final {key : Str} : key ∈ (finalHeaders response http11).keys ↔
    key ∈ response.headers.keys ∨ key ∈ (serverFields response.body http11).map Prod.fst := by
  rw [finalHeaders_eq, OrderedMap.mem_keys_insertAll]

theorem mem_keys_applied {key : Str} : key ∈ (applySecurityHeaders headers config meth).keys ↔
    key ∈ headers.keys ∨ key ∈ (securityFields config meth).map Prod.fst ∨
      key ∈ config.customHeaders.keys := by
  rw [applySecurityHeaders_eq, OrderedMap.mem_keys_insertAll, List.map_append, List.mem_append]
  rfl

theorem serverFields_names (body : StaticPlan.Body) (http11 : Bool) :
    (serverFields body http11).map Prod.fst ⊆ serverNames := by
  unfold serverFields
  split_ifs <;> simp only [List.map_cons, List.map_nil] <;> decide

-- The code spells each of its own names in one way.
theorem known_apart {key other : Str} (known : key ∈ replyNames ++ serverNames)
    (among : other ∈ replyNames ++ serverNames) (same : toLower key = toLower other) :
    key = other := by
  have apart : (replyNames ++ serverNames).all (fun key => (replyNames ++ serverNames).all
      fun other => toLower key != toLower other || key == other) = true := by
    decide +kernel
  have row := List.all_eq_true.mp apart key known
  have cell := List.all_eq_true.mp row other among
  simpa [same] using cell

theorem answers_named {p : Planner} {past : StaticPlan.Past} {reply : StaticPlan.Reply}
    (answers : StaticPlan.Answers p past reply) :
    ∀ key ∈ reply.headers.keys, key ∈ replyNames ∨ key ∈ p.config.customHeaders.keys := by
  intro key member
  obtain ⟨entry, listed, rfl⟩ := List.mem_map.mp member
  exact answers.named entry.1 entry.2 ((OrderedMap.get_eq_some _ _ _).mpr listed)

-- The names on a response beside the custom ones, if `reply` is what the planner makes of the
-- request before the configured headers.
def builtNames (config : Config) (meth : Method) (reply : StaticPlan.Reply) (own : List (Str × Str)) :
    List Str :=
  reply.headers.keys ++ (securityFields config meth).map Prod.fst ++ own.map Prod.fst

theorem builtNames_known {p : Planner} {past : StaticPlan.Past} {reply : StaticPlan.Reply}
    (answers : StaticPlan.Answers p past reply) {body : StaticPlan.Body} {key : Str}
    (member : key ∈ builtNames p.config meth reply (serverFields body http11)) :
    key ∈ replyNames ++ serverNames ∨ key ∈ p.config.customHeaders.keys := by
  rw [builtNames, List.mem_append, List.mem_append] at member
  rcases member with (planned | security) | own
  · exact (answers_named answers key planned).imp_left (List.mem_append_left _)
  · have known : key ∈ StaticPlan.generatedNames :=
      List.mem_append_right _ (securityFields_names.subset security)
    exact Or.inl (List.mem_append_left _ (List.mem_append_right _ known))
  · exact Or.inl (List.mem_append_right _ (serverFields_names body http11 own))

theorem Unclashing.mono {names more : List Str} (unclashing : Unclashing config more)
    (fewer : ∀ key ∈ names, key ∈ more ∨ key ∈ config.customHeaders.keys) :
    Unclashing config names := by
  intro key custom other among same
  refine unclashing key custom other ?_ same
  rw [List.mem_append] at among ⊢
  rcases among with another | built
  · exact Or.inl another
  · exact (fewer other built).symm

-- Custom names aside, two names of the code are never the same.
theorem Unclashing.distinct {names : List Str} (unclashing : Unclashing config names)
    (known : ∀ key ∈ names, key ∈ replyNames ++ serverNames ∨ key ∈ config.customHeaders.keys)
    (keys : ∀ key ∈ headers.keys, key ∈ config.customHeaders.keys ++ names) : Distinct headers := by
  rw [distinct_iff]
  intro key member other among same
  by_cases custom : key ∈ config.customHeaders.keys
  · exact unclashing key custom other (keys other among) same
  by_cases customOther : other ∈ config.customHeaders.keys
  · exact (unclashing other customOther key (keys key member) same.symm).symm
  have built := (List.mem_append.mp (keys key member)).resolve_left custom
  have builtOther := (List.mem_append.mp (keys other among)).resolve_left customOther
  exact known_apart ((known key built).resolve_right custom)
    ((known other builtOther).resolve_right customOther) same

theorem Distinct.of_final (distinct : Distinct (finalHeaders response http11)) :
    Distinct response.headers := by
  rw [distinct_iff] at distinct ⊢
  intro key member other among
  exact distinct key (mem_keys_final.mpr (Or.inl member)) other (mem_keys_final.mpr (Or.inl among))

theorem fieldValues_distinct (distinct : Distinct headers) {name value : Str}
    (found : headers.get name = some value) : fieldValues headers name = [value] := by
  have present : name ∈ headers.keys :=
    List.mem_map_of_mem (f := Prod.fst) ((headers.get_eq_some name value).mp found)
  rw [fieldValues_eq (distinct.spelled present), found]
  rfl

theorem Unambiguous.uncontested (unambiguous : Unambiguous config response http11) :
    Uncontested config http11 response.body := by
  have kept {name value own : Str} (custom : config.customHeaders.get name = some value)
      (set : (finalHeaders response http11).get name = some own) : value = own := by
    have entry := (config.customHeaders.get_eq_some name value).mp custom
    have one := unambiguous.replaced (name, value) entry
    rw [fieldValues_distinct unambiguous.sent set] at one
    exact (List.cons.inj one).1.symm
  intro streaming value
  refine ⟨fun new custom => kept custom ?_, fun old custom => kept custom ?_⟩
  · simp [finalHeaders, streaming, new]
  · simp [finalHeaders, streaming, old]

end

/-- The headers on the way out have one spelling of each name, and a custom header takes the place
of any other, exactly if no custom name respells a name on the response or is taken by the
servers. -/
theorem header_names {config : Config} {request : Request} {mime : MimeRegistry}
    {past : StaticPlan.Past} {response : StaticPlan.Response}
    (run : Run (StaticPlan.start config request mime) past (.done (.responds response)))
    (http11 : Bool) :
    (∃ reply, StaticPlan.Answers ⟨config, request, mime⟩ past reply ∧
      response = Planner.sent ⟨config, request, mime⟩ reply ∧
      (Unambiguous config response http11 ↔
        Unclashing config (builtNames config request.meth reply (serverFields response.body http11)) ∧
          Uncontested config http11 response.body)) ∧
    (Unclashing config (replyNames ++ serverNames) →
      (Unambiguous config response http11 ↔ Uncontested config http11 response.body)) := by
  obtain ⟨reply, answers, sent⟩ := StaticPlan.run_responds run
  have headers : response.headers = applySecurityHeaders reply.headers config request.meth := by
    rw [sent]
    rfl
  have keys {key : Str} : key ∈ (finalHeaders response http11).keys ↔
      key ∈ config.customHeaders.keys ++
        builtNames config request.meth reply (serverFields response.body http11) := by
    rw [mem_keys_final, headers, mem_keys_applied, builtNames]
    simp only [List.mem_append]
    tauto
  have whole : Unambiguous config response http11 ↔
      Unclashing config (builtNames config request.meth reply (serverFields response.body http11)) ∧
        Uncontested config http11 response.body := by
    constructor
    · intro unambiguous
      refine ⟨fun key custom other among => ?_, unambiguous.uncontested⟩
      have present : key ∈ (finalHeaders response http11).keys :=
        keys.mpr (List.mem_append_left _ custom)
      exact distinct_iff.mp unambiguous.sent key present other (keys.mpr among)
    · rintro ⟨unclashing, uncontested⟩
      have distinct : Distinct (finalHeaders response http11) :=
        unclashing.distinct (fun key => builtNames_known answers) fun key => keys.mp
      have carries := (planned_carries ⟨past, run⟩ http11).mpr uncontested
      refine ⟨distinct.of_final, distinct, fun entry member => ?_⟩
      have found := (OrderedMap.get_eq_some _ entry.1 entry.2).mpr (carries.custom entry member)
      exact fieldValues_distinct distinct found
  refine ⟨⟨reply, answers, sent, whole⟩, fun unclashing => ?_⟩
  have built := unclashing.mono fun key =>
    @builtNames_known request.meth http11 ⟨config, request, mime⟩ past reply answers response.body key
  rw [whole]
  exact and_iff_right built

def lengthConfig (name : String) : Config :=
  { Config.middlewareDefault (str "/site") with
    customHeaders := OrderedMap.ofList [(str name, str "5")] }

def malformedRequest : Request := ⟨.get, str "/%", ∅⟩

def malformedResponse (name : String) : StaticPlan.Response :=
  ⟨400, applySecurityHeaders (OrderedMap.ofList
      [(str "Content-Type", str "text/plain; charset=UTF-8"), (str "Content-Length", str "11")])
    (lengthConfig name) .get, .bytes (encode (str "Bad Request"))⟩

theorem header_names_length :
    Unambiguous (lengthConfig "Content-Length") (malformedResponse "Content-Length") true := by
  have run : Run (StaticPlan.start (lengthConfig "Content-Length") malformedRequest .new) []
      (.done (.responds (malformedResponse "Content-Length"))) := run_of_result rfl
  have unclashing : Unclashing (lengthConfig "Content-Length") (replyNames ++ serverNames) := by
    intro key custom other among
    have length := List.mem_singleton.mp custom
    rcases List.mem_append.mp among with another | built
    · exact fun _ => length.trans (List.mem_singleton.mp another).symm
    · have known : key ∈ replyNames ++ serverNames := by
        rw [length]
        decide
      exact known_apart known built
  exact ((header_names run true).2 unclashing).mpr fun streaming => by cases streaming

-- Beside the length of its text the answer carries the length that the configuration spells in
-- small letters.
theorem lengths_contradict : ¬∀ (config : Config) (request : Request) (mime : MimeRegistry)
    (past : StaticPlan.Past) (response : StaticPlan.Response), validateConfig config = .ok () →
    Run (StaticPlan.start config request mime) past (.done (.responds response)) →
    Distinct response.headers := by
  intro always
  have run : Run (StaticPlan.start (lengthConfig "content-length") malformedRequest .new) []
      (.done (.responds (malformedResponse "content-length"))) := run_of_result rfl
  have distinct := always _ _ _ _ _ rfl run
  exact absurd distinct (by unfold Distinct; decide)

end HttpServer.Serving
