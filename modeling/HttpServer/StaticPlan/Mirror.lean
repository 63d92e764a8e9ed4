import HttpServer.StaticPlan.Plan

set_option autoImplicit false

namespace HttpServer.StaticPlan

open Unicode Text HttpServer.Core Dialogue

-- A host whose answers depend on the file system alone.
abbrev Host := (query : Query) → query.Answer

inductive Mirrors : Outcome → Outcome → Prop
  | responds (status : Int32) (headers : Headers) (body : Body) :
      Mirrors (.responds ⟨status, headers, .empty⟩) (.responds ⟨status, headers, body⟩)
  | next : Mirrors .next .next
  | changed : Mirrors .changed .changed
  | trap : Mirrors .trap .trap

theorem applySecurityHeaders_head (config : Config) (reply : Headers) :
    applySecurityHeaders reply config .head = applySecurityHeaders reply config .get := by
  simp [applySecurityHeaders, corsHeaders]

theorem policies_head (config : Config) (target : Str) (headers : Headers) :
    evaluateSecurityPolicies config ⟨.head, target, headers⟩ =
      evaluateSecurityPolicies config ⟨.get, target, headers⟩ := by
  simp only [evaluateSecurityPolicies, applySecurityHeaders_head, hostRefused, basicAuthorized]
  simp

def headPlanner (config : Config) (target : Str) (headers : Headers) (mime : MimeRegistry) : Planner :=
  ⟨config, ⟨.head, target, headers⟩, mime⟩

def getPlanner (config : Config) (target : Str) (headers : Headers) (mime : MimeRegistry) : Planner :=
  ⟨config, ⟨.get, target, headers⟩, mime⟩

section

variable {host : Host} {config : Config} {target : Str} {headers : Headers} {mime : MimeRegistry}

theorem opens_mirrors {path : Str} {next next' : Option File → Step}
    (rest : ∀ answer, Mirrors (ending host (next answer)) (ending host (next' answer))) :
    Mirrors (ending host (Step.opens path next)) (ending host (Step.opens path next')) :=
  rest (host (.opens path))

theorem reads_mirrors {file : File} {count : Int32} {next next' : Bytes → Step}
    (rest : ∀ bytes, Mirrors (ending host (next bytes)) (ending host (next' bytes))) :
    Mirrors (ending host (Step.reads file count next)) (ending host (Step.reads file count next')) :=
  rest (host (.reads file count))

theorem response_mirrors (host : Host) (status : Int32) (reply : Headers) (own body : Body) :
    Mirrors (ending host ((headPlanner config target headers mime).response status reply own))
      (ending host ((getPlanner config target headers mime).response status reply body)) := by
  have same := applySecurityHeaders_head config reply
  have mirrors := Mirrors.responds status (applySecurityHeaders reply config .get) body
  simpa [ending, play, Planner.response, headPlanner, getPlanner, same] using mirrors

theorem text_mirrors (status : Int32) (text : Str) :
    Mirrors (ending host ((headPlanner config target headers mime).text status text))
      (ending host ((getPlanner config target headers mime).text status text)) :=
  response_mirrors host _ _ _ _

theorem notFound_mirrors :
    Mirrors (ending host (headPlanner config target headers mime).notFound)
      (ending host (getPlanner config target headers mime).notFound) := by
  apply opens_mirrors
  intro answer
  cases answer with
  | none => exact text_mirrors _ _
  | some file =>
    by_cases regular : file.kind = 1
    · simp only [regular, if_true]
      exact response_mirrors host _ _ _ _
    · simp only [regular, if_false]
      exact text_mirrors _ _

-- Both methods sample the same files.
theorem serve_mirrors (file : File) (path : Str) (encoding : Option Str) :
    Mirrors (ending host ((headPlanner config target headers mime).serve file path encoding))
      (ending host ((getPlanner config target headers mime).serve file path encoding)) := by
  by_cases text : (encoding.isNone && isTextMime (resolveContentType path mime octetStream none) &&
      0 < file.size) = true
  · have sampled (p : Planner) (same : p.mime = mime) : p.serve file path encoding =
        Step.reads file 1024 fun bytes => p.fileResponse file path encoding (some bytes) := by
      subst same
      exact if_pos text
    rw [sampled _ rfl, sampled _ rfl]
    exact reads_mirrors fun bytes => response_mirrors host _ _ _ _
  · have unsampled (p : Planner) (same : p.mime = mime) :
        p.serve file path encoding = p.fileResponse file path encoding none := by
      subst same
      exact if_neg text
    rw [unsampled _ rfl, unsampled _ rfl]
    exact response_mirrors host _ _ _ _

theorem chooseFrom_mirrors {missing missing' : Step}
    (otherwise : Mirrors (ending host missing) (ending host missing')) (choices : List Choice)
    (i : Nat) :
    Mirrors (ending host ((headPlanner config target headers mime).chooseFrom missing choices i))
      (ending host ((getPlanner config target headers mime).chooseFrom missing' choices i)) := by
  induction choices generalizing i with
  | nil => exact otherwise
  | cons choice rest ih =>
    apply opens_mirrors
    intro answer
    cases answer with
    | none => exact ih (i + 1)
    | some file =>
      by_cases regular : file.kind = 1
      · by_cases compressed : choice.encoding = some gzip
        · simp only [regular, compressed, if_true]
          apply reads_mirrors
          intro bytes
          cases gzipMagic bytes with
          | true =>
            simp only [if_true]
            exact serve_mirrors _ _ _
          | false =>
            simp only [Bool.false_eq_true, if_false]
            by_cases insists : (decide (i = 0) && config.forceContentEncoding &&
                hasSuffix choice.path (str ".gz") && choice.represented != choice.path) = true
            · simp only [headPlanner, getPlanner, insists, if_true]
              exact Mirrors.changed
            · simp only [headPlanner, getPlanner, insists, Bool.false_eq_true, if_false]
              exact ih (i + 1)
        · simp only [regular, compressed, if_true, if_false]
          exact serve_mirrors _ _ _
      · simp only [regular, if_false]
        exact ih (i + 1)

theorem unanswered_mirrors :
    Mirrors (ending host (headPlanner config target headers mime).unanswered)
      (ending host (getPlanner config target headers mime).unanswered) := by
  by_cases silent : (!config.handleError || config.proxy.isSome) = true
  · simp only [Planner.unanswered, headPlanner, getPlanner, silent, if_true]
    exact Mirrors.next
  · simp only [Planner.unanswered, headPlanner, getPlanner, silent, Bool.false_eq_true, if_false]
    exact notFound_mirrors

theorem fileMissing_mirrors :
    Mirrors (ending host (headPlanner config target headers mime).fileMissing)
      (ending host (getPlanner config target headers mime).fileMissing) := by
  by_cases fallback : config.hasFallback = true
  · simp only [Planner.fileMissing, headPlanner, getPlanner, fallback, if_true]
    exact chooseFrom_mirrors (text_mirrors 404 _) _ 0
  · simp only [Planner.fileMissing, headPlanner, getPlanner, fallback, Bool.false_eq_true, if_false]
    exact unanswered_mirrors

-- HEAD does not list, and its headers do not depend on the entries.
theorem listing_mirrors (path rawPath : Str) (query : Option Str) :
    Mirrors (ending host ((headPlanner config target headers mime).listing path rawPath query))
      (ending host ((getPlanner config target headers mime).listing path rawPath query)) :=
  response_mirrors host 200 _ _ _

theorem directoryMissing_mirrors (path rawPath : Str) (query : Option Str) :
    Mirrors (ending host ((headPlanner config target headers mime).directoryMissing path rawPath query))
      (ending host
        ((getPlanner config target headers mime).directoryMissing path rawPath query)) := by
  by_cases listed : config.showDir = true
  · by_cases page : (!config.dirOverrides404 && !config.hasFallback) = true
    · simp only [Planner.directoryMissing, headPlanner, getPlanner, listed, page, if_true]
      apply opens_mirrors
      intro answer
      cases answer with
      | none => exact listing_mirrors path rawPath query
      | some file =>
        by_cases regular : file.kind = 1
        · simp only [regular, if_true]
          exact notFound_mirrors
        · simp only [regular, if_false]
          exact listing_mirrors path rawPath query
    · simp only [Planner.directoryMissing, headPlanner, getPlanner, listed, page, if_true,
        Bool.false_eq_true, if_false]
      exact listing_mirrors path rawPath query
  · simp only [Planner.directoryMissing, headPlanner, getPlanner, listed, Bool.false_eq_true, if_false]
    exact unanswered_mirrors

theorem directory_mirrors (path rawPath : Str) (query : Option Str) :
    Mirrors (ending host ((headPlanner config target headers mime).directory path rawPath query))
      (ending host ((getPlanner config target headers mime).directory path rawPath query)) := by
  by_cases slash : hasSuffix rawPath (str "/") = true
  · by_cases index : config.autoIndex = true
    · simp only [Planner.directory, headPlanner, getPlanner, slash, index, Bool.not_true,
        Bool.false_eq_true, if_false, if_true]
      exact chooseFrom_mirrors (directoryMissing_mirrors path rawPath query) _ 0
    · simp only [Planner.directory, headPlanner, getPlanner, slash, index, Bool.not_true,
        Bool.false_eq_true, if_false]
      exact directoryMissing_mirrors path rawPath query
  · by_cases neither : (!config.autoIndex && !config.showDir) = true
    · simp only [Planner.directory, headPlanner, getPlanner, slash, neither, Bool.not_false, if_true]
      exact notFound_mirrors
    · simp only [Planner.directory, headPlanner, getPlanner, slash, neither, Bool.not_false, if_true,
        Bool.false_eq_true, if_false]
      exact response_mirrors host 302 _ _ _

theorem resolved_mirrors (path rawPath : Str) (query : Option Str) :
    Mirrors (ending host ((headPlanner config target headers mime).resolved path rawPath query))
      (ending host ((getPlanner config target headers mime).resolved path rawPath query)) := by
  have direct : Mirrors
      (ending host ((headPlanner config target headers mime).choose
        ((headPlanner config target headers mime).representations path false)
        (headPlanner config target headers mime).fileMissing))
      (ending host ((getPlanner config target headers mime).choose
        ((getPlanner config target headers mime).representations path false)
        (getPlanner config target headers mime).fileMissing)) :=
    chooseFrom_mirrors fileMissing_mirrors _ 0
  apply opens_mirrors
  intro answer
  cases answer with
  | none => exact direct
  | some file =>
    by_cases directory : file.kind = 2
    · simp only [directory, if_true]
      exact directory_mirrors path rawPath query
    · simp only [directory, if_false]
      exact direct

theorem files_mirrors :
    Mirrors (ending host (headPlanner config target headers mime).files)
      (ending host (getPlanner config target headers mime).files) := by
  by_cases robots :
    (config.robots && (split target (unit '?')).headD [] == str "/robots.txt") = true
  · simp only [Planner.files, headPlanner, getPlanner, robots, if_true]
    exact response_mirrors host 200 _ _ _
  · simp only [Planner.files, headPlanner, getPlanner, robots, Bool.false_eq_true, if_false]
    cases resolvePath config.root config.baseUrl target with
    | ok path => exact resolved_mirrors path _ _
    | error e =>
      cases e with
      | malformedUri => exact text_mirrors 400 _
      | outsideBaseUrl => exact response_mirrors host 403 _ _ _
      | traversalForbidden => exact text_mirrors 403 _
      | notFound =>
        by_cases page : (config.handleError && config.proxy.isNone) = true
        · simp only [page, if_true]
          exact notFound_mirrors
        · simp only [page, Bool.false_eq_true, if_false]
          exact Mirrors.next

end

/-- For one file system, HEAD ends as GET does, with the same status and headers. -/
theorem start_mirrors (host : Host) (config : Config) (target : Str) (headers : Headers)
    (mime : MimeRegistry) :
    Mirrors (ending host (start config ⟨.head, target, headers⟩ mime))
      (ending host (start config ⟨.get, target, headers⟩ mime)) := by
  unfold start
  rw [policies_head]
  cases evaluateSecurityPolicies config ⟨.get, target, headers⟩ with
  | none => exact Mirrors.trap
  | some decision =>
    cases decision with
    | unauthorized => exact response_mirrors host 401 _ _ _
    | forbidden => exact response_mirrors host 403 _ _ _
    | preflight => exact response_mirrors host 204 _ _ _
    | proceed => exact files_mirrors

end HttpServer.StaticPlan
