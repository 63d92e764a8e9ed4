import HttpServer.Core.Mounts
import HttpServer.StaticPlan.Redirects

set_option autoImplicit false

namespace HttpServer.StaticPlan

open Unicode Text HttpServer.Core Dialogue Percent

def isAlpha (u : UInt16) : Bool :=
  0x41 ≤ u.toNat && u.toNat ≤ 0x5A || 0x61 ≤ u.toNat && u.toNat ≤ 0x7A

def isSchemeUnit (u : UInt16) : Bool :=
  isAlpha u || 0x30 ≤ u.toNat && u.toNat ≤ 0x39 || [unit '+', unit '-', unit '.'].contains u

def HasScheme (reference : Str) : Prop :=
  ∃ first rest behind, reference = first :: rest ++ unit ':' :: behind ∧ isAlpha first = true ∧
    rest.all isSchemeUnit = true

-- A client may leave the server for such a reference.
def Foreign (reference : Str) : Prop :=
  str "//" <+: reference ∨ str "/\\" <+: reference ∨ HasScheme reference

-- Clients drop tabs and line breaks from a reference.
def isDropped (u : UInt16) : Bool := u == 0x09 || u == 0x0A || u == 0x0D

def asRead (reference : Str) : Str := reference.filter (!isDropped ·)

-- A path on the same server, or text that starts with an escape.
def Local (reference : Str) : Prop :=
  reference.head? = some sign ∨
    ∃ rest, reference = unit '/' :: rest ∧ rest.head? ≠ some (unit '/') ∧
      rest.head? ≠ some (unit '\\')

theorem Local.not_foreign {reference : Str} (here : Local reference) : ¬Foreign reference := by
  have second {u : UInt16} {rest : Str} (starts : [unit '/', u] <+: unit '/' :: rest) :
      rest.head? = some u := by
    obtain ⟨tail, rfl⟩ := (List.cons_prefix_cons.mp starts).2
    rfl
  rintro (slashes | backslash | ⟨first, rest, behind, rfl, letter, -⟩)
  · rcases here with escape | ⟨rest, rfl, noSlash, -⟩
    · obtain ⟨tail, rfl⟩ := slashes
      have slash : unit '/' = sign := Option.some.inj escape
      exact absurd slash (by decide)
    · exact noSlash (second slashes)
  · rcases here with escape | ⟨rest, rfl, -, noBackslash⟩
    · obtain ⟨tail, rfl⟩ := backslash
      have slash : unit '/' = sign := Option.some.inj escape
      exact absurd slash (by decide)
    · exact noBackslash (second backslash)
  · rcases here with escape | ⟨rest, whole, -⟩
    · obtain rfl : first = sign := Option.some.inj escape
      exact absurd letter (by decide)
    · obtain rfl : first = unit '/' := (List.cons.inj whole).1
      exact absurd letter (by decide)

-- Where the spelling does not end in a slash, the one in front is not the one put behind.
theorem spelling_local {raw text : Str} (decodes : Decodes FaceValue raw text)
    (noSlash : hasSuffix raw (str "/") = false) (single : text = [] ∨ SingleSlash text) {more : Str}
    (slash : more.head? ≠ some (unit '/')) (backslash : more.head? ≠ some (unit '\\')) :
    Local (raw ++ str "/" ++ more) := by
  obtain ⟨rfl, rfl⟩ | ⟨u, rest, behind, rfl, rfl, inner⟩ | escape := decodes.front faceValue_nil
  · exact .inr ⟨more, rfl, slash, backslash⟩
  · obtain ⟨tail, same, slash', backslash'⟩ := single.resolve_left (List.cons_ne_nil _ _)
    obtain ⟨rfl, rfl⟩ := List.cons.inj same
    refine .inr ⟨rest ++ str "/" ++ more, rfl, ?_⟩
    obtain ⟨rfl, rfl⟩ | ⟨v, rest, behind, rfl, rfl, -⟩ | escape := inner.front faceValue_nil
    · exact absurd noSlash (by decide)
    · exact ⟨slash', backslash'⟩
    · obtain ⟨rest, rfl⟩ := List.head?_eq_some_iff.mp escape
      exact ⟨show some sign ≠ some (unit '/') by decide, show some sign ≠ some (unit '\\') by decide⟩
  · obtain ⟨rest, rfl⟩ := List.head?_eq_some_iff.mp escape
    exact .inl rfl

theorem formatDirRedirect_local {p : Planner} {path : Str} (normal : Normal p.config.baseUrl)
    (resolves : p.Resolves path) (noSlash : hasSuffix p.rawPath (str "/") = false) :
    Local (formatDirRedirect p.rawPath p.query) := by
  obtain ⟨-, text, rel, decodes, -, under, allowed, -⟩ :=
    (resolvePath_iff _ _ _ _).mp resolves.resolved
  rw [← pathText_rawPath] at decodes
  have single := under.singleSlash normal allowed
  have plain : Local (p.rawPath ++ str "/") := by
    have alone := @spelling_local _ _ decodes noSlash single [] (by simp) (by simp)
    rwa [List.append_nil] at alone
  simp only [formatDirRedirect, noSlash, Bool.false_eq_true, if_false]
  cases p.query with
  | none => exact plain
  | some q =>
    dsimp only
    split_ifs
    · rw [List.append_assoc _ (str "?")]
      exact spelling_local decodes noSlash single (show some (unit '?') ≠ some (unit '/') by decide)
        (show some (unit '?') ≠ some (unit '\\') by decide)
    · exact plain

def isLocation (name : Str) : Bool := toLower name == toLower (str "Location")

-- A location is one that the configuration asks for, or leads to the same server with nothing
-- but units of the target, slashes and a question mark.
def Stays (p : Planner) (name value : Str) : Prop :=
  isLocation name = true → (name, value) ∈ p.config.customHeaders.entries ∨
    Local value ∧ ∀ u ∈ value, u ∈ p.request.target ∨ u = unit '/' ∨ u = unit '?'

section

variable {p : Planner}

theorem stays_other {name : Str} (other : isLocation name = false) (value : Str) :
    Stays p name value :=
  fun location => absurd location (ne_true_of_eq_false other)

theorem stays_names {headers : Headers} {names : List Str}
    (named : headers.Each fun name _ => name ∈ names) (other : names.all (!isLocation ·) = true) :
    headers.Each (Stays p) :=
  named.mono fun name value member =>
    stays_other (by simpa using List.all_eq_true.mp other name member) value

theorem stays_applySecurityHeaders {headers : Headers} (known : headers.Each (Stays p))
    (meth : Method) : (applySecurityHeaders headers p.config meth).Each (Stays p) := by
  apply each_applySecurityHeaders known
  · have other : securityNames.all (!isLocation ·) = true := by decide
    exact fun key member value =>
      stays_other (by simpa using List.all_eq_true.mp other key member) value
  · exact fun entry member _ => .inl member

theorem stays_policy {headers : Headers} {body : Bytes}
    (policy : evaluateSecurityPolicies p.config p.request = some (.unauthorized headers body) ∨
      evaluateSecurityPolicies p.config p.request = some (.forbidden headers body) ∨
      evaluateSecurityPolicies p.config p.request = some (.preflight headers)) :
    headers.Each (Stays p) := by
  rcases policy_headers policy with same | same <;> subst same
  · exact stays_applySecurityHeaders OrderedMap.each_empty _
  · apply stays_applySecurityHeaders
    apply OrderedMap.each_ofList
    rw [List.forall_mem_singleton]
    exact stays_other (by decide) _

theorem formatDirRedirect_units (p : Planner) :
    ∀ u ∈ formatDirRedirect p.rawPath p.query,
      u ∈ p.request.target ∨ u = unit '/' ∨ u = unit '?' := by
  have slashed : ∀ u ∈ p.rawPath ++ str "/", u ∈ p.request.target ∨ u = unit '/' ∨ u = unit '?' := by
    intro u member
    rcases List.mem_append.mp member with path | slash
    · rw [pathText_rawPath] at path
      exact .inl ((List.takeWhile_sublist _).subset path)
    · exact .inr (.inl (List.mem_singleton.mp slash))
  have path : ∀ u ∈ (if hasSuffix p.rawPath (str "/") then p.rawPath else p.rawPath ++ str "/"),
      u ∈ p.request.target ∨ u = unit '/' ∨ u = unit '?' := by
    split_ifs
    · exact fun u member => slashed u (List.mem_append_left _ member)
    · exact slashed
  unfold formatDirRedirect
  cases asked : p.query with
  | none => exact path
  | some q =>
    have inside : q ⊆ p.request.target := subset_of_mem_split (List.mem_of_getElem? asked)
    dsimp only
    by_cases long : 0 < q.length
    · rw [if_pos long]
      intro u member
      rcases List.mem_append.mp member with front | query
      · rcases List.mem_append.mp front with front | mark
        · exact path u front
        · exact .inr (.inr (List.mem_singleton.mp mark))
      · exact .inl (inside query)
    · rw [if_neg long]
      exact path

theorem Generated.stays {reply : Reply} (generated : Generated p reply)
    (normal : Normal p.config.baseUrl) : reply.headers.Each (Stays p) := by
  cases generated with
  | refused status headers bytes policy =>
    have known := stays_policy (policy.imp And.right (Or.inl ∘ And.right))
    exact (known.insert (stays_other (by decide) _)).insert (stays_other (by decide) _)
  | preflight headers policy =>
    have known := @stays_policy p headers [] (.inr (.inr policy))
    exact known.insert (stays_other (by decide) _)
  | text | robots =>
    apply OrderedMap.each_ofList
    rw [List.forall_mem_cons, List.forall_mem_singleton]
    have length : isLocation (str "Content-Length") = false := by decide
    exact ⟨stays_other (by decide) _, stays_other length _⟩
  | outside =>
    apply OrderedMap.each_ofList
    rw [List.forall_mem_singleton]
    exact stays_other (by decide) _
  | redirect path resolves noSlash =>
    apply OrderedMap.each_ofList
    rw [List.forall_mem_cons, List.forall_mem_cons, List.forall_mem_singleton]
    refine ⟨fun _ => .inr ⟨?_, formatDirRedirect_units p⟩, stays_other (by decide) _,
      stays_other (by decide) _⟩
    exact formatDirRedirect_local normal resolves noSlash

theorem Answers.stays {past : Past} {reply : Reply} (answers : Answers p past reply)
    (normal : Normal p.config.baseUrl) : reply.headers.Each (Stays p) := by
  cases answers with
  | generated _ _ generated => exact generated.stays normal
  | errorPage =>
    apply OrderedMap.each_ofList
    rw [List.forall_mem_cons, List.forall_mem_singleton]
    have length : isLocation (str "Content-Length") = false := by decide
    exact ⟨stays_other (by decide) _, stays_other length _⟩
  | unlisted | listed =>
    apply OrderedMap.each_ofList
    rw [List.forall_mem_singleton]
    exact stays_other (by decide) _
  | file _ path index missing i choice file sample =>
    exact stays_names (fileReply_fileNames _ _ _ _) (by decide)

end

/-- A location that the configuration does not ask for keeps the client on the server. -/
theorem location_stays {config : Config} {request : Request} {mime : MimeRegistry} {past : Past}
    {response : Response} (normal : ∃ value, normalizeBaseUrl value = .ok config.baseUrl)
    (run : Run (start config request mime) past (.done (.responds response))) :
    ∀ entry ∈ response.headers.entries, isLocation entry.1 = true →
      entry ∈ config.customHeaders.entries ∨ ¬Foreign entry.2 ∧
        (request.target.all (!isDropped ·) = true → ¬Foreign (asRead entry.2)) := by
  obtain ⟨value, checked⟩ := normal
  obtain ⟨reply, answers, rfl⟩ := run_responds run
  have stays := stays_applySecurityHeaders
    (answers.stays (normalizeBaseUrl_spelling checked).1) request.meth
  intro entry member location
  have found := (OrderedMap.get_eq_some _ entry.1 entry.2).mpr member
  refine (stays entry.1 entry.2 found location).imp_right fun ⟨here, units⟩ => ?_
  refine ⟨here.not_foreign, fun clean => ?_⟩
  have whole : asRead entry.2 = entry.2 := by
    rw [asRead, List.filter_eq_self]
    intro u inside
    rcases units u inside with target | rfl | rfl
    · exact List.all_eq_true.mp clean u target
    · decide
    · decide
  rw [whole]
  exact here.not_foreign

theorem location_stays_docs :
    (str "Location", str "/docs/?a=1") ∈ (Config.default (str "public")).customHeaders.entries ∨
      ¬Foreign (str "/docs/?a=1") ∧ ((asking "/docs?a=1").target.all (!isDropped ·) = true →
        ¬Foreign (asRead (str "/docs/?a=1"))) :=
  location_stays ⟨str "/", rfl⟩ docs_run (str "Location", str "/docs/?a=1") (by decide) (by decide)

def elsewhere : Config :=
  { Config.default (str "public") with
    customHeaders := OrderedMap.ofList [(str "Location", str "//elsewhere")] }

-- A custom header replaces the location, and a client that drops tabs reads two slashes.
theorem foreign_locations :
    (normalizeBaseUrl elsewhere.baseUrl = .ok elsewhere.baseUrl ∧
      Run (start elsewhere (asking "/docs") .new) [opened (str "public/docs") (some directoryFile)]
        (.done (.responds (movedTo "//elsewhere"))) ∧
      Foreign (str "//elsewhere")) ∧
    Run (start (.default (str "public")) (asking "/\t/docs") .new)
      [opened (str "public/\t/docs") (some directoryFile)]
      (.done (.responds (movedTo "/\t/docs/"))) ∧
    Foreign (asRead (str "/\t/docs/")) := by
  refine ⟨⟨by decide, run_of_result (by decide +kernel), .inl ?_⟩, run_of_result (by decide +kernel),
    .inl ?_⟩
  · exact ⟨str "elsewhere", by decide⟩
  · exact ⟨str "docs/", by decide⟩

end HttpServer.StaticPlan
