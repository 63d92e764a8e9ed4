import HttpServer.Core.Mounts
import HttpServer.StaticPlan.Redirects

set_option autoImplicit false

namespace HttpServer.StaticPlan

open Unicode Text HttpServer.Core Dialogue Percent

section

variable (c : Config) (request : Request) (mime : MimeRegistry) (baseUrl : Str)

theorem chooseFrom_remount (missing : Step) (choices : List Choice) (index : Nat) :
    Planner.chooseFrom ⟨{ c with baseUrl }, request, mime⟩ missing choices index =
      Planner.chooseFrom ⟨c, request, mime⟩ missing choices index := by
  induction choices generalizing index with
  | nil => rfl
  | cons choice rest ih =>
    simp only [Planner.chooseFrom, ih]
    rfl

theorem directory_remount (path rawPath : Str) (query : Option Str) :
    Planner.directory ⟨{ c with baseUrl }, request, mime⟩ path rawPath query =
      Planner.directory ⟨c, request, mime⟩ path rawPath query := by
  simp only [Planner.directory, Planner.choose, chooseFrom_remount]
  rfl

theorem fileMissing_remount :
    Planner.fileMissing ⟨{ c with baseUrl }, request, mime⟩ =
      Planner.fileMissing ⟨c, request, mime⟩ := by
  simp only [Planner.fileMissing, Planner.choose, chooseFrom_remount]
  rfl

theorem resolved_remount (path rawPath : Str) (query : Option Str) :
    Planner.resolved ⟨{ c with baseUrl }, request, mime⟩ path rawPath query =
      Planner.resolved ⟨c, request, mime⟩ path rawPath query := by
  simp only [Planner.resolved, Planner.choose, chooseFrom_remount, directory_remount,
    fileMissing_remount]
  rfl

theorem files_remount (same : matchAndStripBaseUrl baseUrl = matchAndStripBaseUrl c.baseUrl) :
    Planner.files ⟨{ c with baseUrl }, request, mime⟩ = Planner.files ⟨c, request, mime⟩ := by
  have resolved : resolvePath c.root baseUrl request.target =
      resolvePath c.root c.baseUrl request.target := by
    simp only [resolvePath, same]
  simp only [Planner.files, resolved_remount, resolved]
  rfl

-- The mount counts only where a request passes the policies to look for a file.
theorem start_remount (files : (request.meth = .get ∨ request.meth = .head) →
      evaluateSecurityPolicies c request = some .proceed →
      Planner.files ⟨{ c with baseUrl }, request, mime⟩ = Planner.files ⟨c, request, mime⟩) :
    start { c with baseUrl } request mime = start c request mime := by
  have policies : evaluateSecurityPolicies { c with baseUrl } request =
      evaluateSecurityPolicies c request := rfl
  unfold start
  rw [policies]
  cases decision : evaluateSecurityPolicies c request with
  | none => rfl
  | some decision' =>
    cases decision' with
    | unauthorized | forbidden | preflight => rfl
    | proceed =>
      cases meth : request.meth with
      | get => exact files (.inl meth) decision
      | head => exact files (.inr meth) decision
      | other => rfl

end

theorem matchAndStripBaseUrl_empty : matchAndStripBaseUrl [] = matchAndStripBaseUrl (str "/") := by
  funext path
  apply Option.ext
  intro rel
  have same : mount [] = mount (str "/") := by decide
  rw [matchAndStripBaseUrl_iff, matchAndStripBaseUrl_iff, Under, Under, same]

def probe (baseUrl : Str) : Str := quoted (baseUrl ++ str "/x")

section

variable {value baseUrl : Str}

theorem probe_noQuestion (normal : Normal baseUrl) : unit '?' ∉ probe baseUrl := by
  intro member
  rcases mem_quoted member with inside | escape
  · rcases List.mem_append.mp inside with mounted | tail
    · exact normal.clean (by decide) mounted
    · exact absurd tail (by decide)
  · exact absurd escape (by decide)

theorem probe_pathText (normal : Normal baseUrl) : pathText (probe baseUrl) = probe baseUrl := by
  rw [pathText, List.takeWhile_eq_self_iff]
  intro u member
  rw [bne_iff_ne]
  rintro rfl
  exact probe_noQuestion normal member

theorem probe_noNul (normal : Normal baseUrl) : 0 ∉ baseUrl ++ str "/x" := by
  rw [List.mem_append, not_or]
  exact ⟨normal.clean (by decide), by decide⟩

theorem probe_other (baseUrl : Str) : probe baseUrl ≠ str "/robots.txt" := by
  intro same
  have plain : Decodes FaceValue (probe baseUrl) (str "/robots.txt") := by
    rw [same]
    exact .of_plain (by decide)
  have last := congrArg List.getLast? (decodes_unique (decodes_quoted (baseUrl ++ str "/x")) plain)
  rw [List.getLast?_append] at last
  have letters : unit 'x' = unit 't' := Option.some.inj last
  exact absurd letters (by decide)

theorem probe_inside (below : baseUrl ≠ str "/") :
    Under baseUrl (baseUrl ++ str "/x") (str "x") := by
  refine .inr ?_
  rw [mount, if_neg below, List.append_assoc]
  rfl

-- What does not start with a slash contains no path that does.
theorem bare_outside {value : Str} (notEmpty : value ≠ []) (start : value.head? ≠ some (unit '/'))
    (more rel : Str) : ¬Under value (unit '/' :: more) rel := by
  obtain ⟨u, tail, rfl⟩ := List.exists_cons_of_ne_nil notEmpty
  have other : u ≠ unit '/' := fun same => start (congrArg some same)
  have below : u :: tail ≠ str "/" := fun root => other (List.cons.inj root).1
  rw [Under, mount, if_neg below]
  rintro (⟨same, -⟩ | same)
  · exact other (List.cons.inj same).1.symm
  · exact other (List.cons.inj same).1.symm

theorem probe_outside (normal : Normal baseUrl) (spelling : Spelling value baseUrl)
    (notEmpty : value ≠ []) (other : value ≠ baseUrl) (rel : Str) :
    ¬Under value (baseUrl ++ str "/x") rel := by
  cases spelling with
  | empty => exact absurd rfl notEmpty
  | full => exact absurd rfl other
  | trailing rest more =>
    rw [Under, mount, if_neg (by simp [str, more])]
    rintro (⟨same, -⟩ | same)
    · simp [str] at same
    · simp [str, Numerals.unitOf] at same
  | bare rest => exact bare_outside notEmpty (normal.bare notEmpty) _ _
  | bareTrailing rest more =>
    obtain ⟨u, tail, rfl⟩ := List.exists_cons_of_ne_nil more
    exact bare_outside notEmpty (normal.bare more) _ _

theorem resolvePath_outside {root value target text : Str} (escaped : WellEscaped target)
    (decodes : Decodes FaceValue (pathText target) text) (noNul : 0 ∉ text)
    (outside : ∀ rel, ¬Under value text rel) :
    resolvePath root value target = .error (.outsideBaseUrl text) := by
  have none : matchAndStripBaseUrl value text = none := by
    rw [Option.eq_none_iff_forall_ne_some]
    intro rel inside
    exact outside rel ((matchAndStripBaseUrl_iff _ _ _).mp inside)
  have nul : Text.contains text [0] = false := by
    rw [← Bool.not_eq_true, contains_single]
    exact noNul
  have decoded : decodePercent (target.takeWhile (· != unit '?')) = .ok text :=
    (decodePercent_iff _ _).mpr decodes
  simp only [resolvePath, (validateUriEncoding_iff target).mpr escaped, split_head, decoded,
    Bool.not_true, Bool.false_eq_true, if_false]
  change (if Text.contains text [0] = true then _ else _) = _
  rw [nul, none]
  rfl

end

theorem start_files {c : Config} {request : Request} (mime : MimeRegistry)
    (method : request.meth = .get ∨ request.meth = .head)
    (policy : evaluateSecurityPolicies c request = some .proceed) :
    start c request mime = Planner.files ⟨c, request, mime⟩ := by
  unfold start
  rw [policy]
  rcases method with meth | meth <;> rw [meth]

theorem files_resolved {p : Planner} {path : Str}
    (robots : (p.config.robots && p.rawPath == str "/robots.txt") = false)
    (resolved : resolvePath p.config.root p.config.baseUrl p.request.target = .ok path) :
    p.files = p.resolved path p.rawPath p.query := by
  rw [Planner.rawPath] at robots
  simp only [Planner.files, robots, resolved, Bool.false_eq_true, if_false]
  rfl

theorem files_outside {p : Planner} {text : Str}
    (robots : (p.config.robots && p.rawPath == str "/robots.txt") = false)
    (resolved : resolvePath p.config.root p.config.baseUrl p.request.target =
      .error (.outsideBaseUrl text)) :
    p.files = p.response 403 (OrderedMap.ofList [(str "Content-Length", str "0")]) .empty := by
  rw [Planner.rawPath] at robots
  simp only [Planner.files, robots, resolved, Bool.false_eq_true, if_false]

def AsksForFiles (c : Config) : Prop :=
  ∃ request, (request.meth = .get ∨ request.meth = .head) ∧
    evaluateSecurityPolicies c request = some .proceed

-- The mount in its normal form means what it means as it is configured.
def SameMount (c : Config) (baseUrl : Str) : Prop :=
  (∀ request mime, start { c with baseUrl } request mime = start c request mime) ∧
    normalizeBaseUrl baseUrl = .ok baseUrl

theorem probe_apart {c : Config} {baseUrl : Str} (normal : Normal baseUrl)
    (spelling : Spelling c.baseUrl baseUrl) (notEmpty : c.baseUrl ≠ []) (other : c.baseUrl ≠ baseUrl)
    {request : Request} (method : request.meth = .get ∨ request.meth = .head)
    (policy : evaluateSecurityPolicies c request = some .proceed) (mime : MimeRegistry) :
    start { c with baseUrl } { request with target := probe baseUrl } mime ≠
      start c { request with target := probe baseUrl } mime := by
  have below := spelling.below notEmpty other
  have path := probe_pathText normal
  have decodes : Decodes FaceValue (pathText (probe baseUrl)) (baseUrl ++ str "/x") := by
    rw [path]
    exact decodes_quoted _
  have escaped : WellEscaped (probe baseUrl) := wellEscaped_quoted _
  have allowed : Allowed (str "x") := (validateRelativePath_iff _).mp (by decide)
  have inside : resolvePath c.root baseUrl (probe baseUrl) =
      .ok (located (normRoot c.root) (str "x")) :=
    (resolvePath_iff _ _ _ _).mpr
      ⟨escaped, _, _, decodes, probe_noNul normal, probe_inside below, allowed, rfl⟩
  have outside : resolvePath c.root c.baseUrl (probe baseUrl) =
      .error (.outsideBaseUrl (baseUrl ++ str "/x")) :=
    resolvePath_outside escaped decodes (probe_noNul normal)
      (probe_outside normal spelling notEmpty other)
  have robots (config : Config) : (config.robots &&
      Planner.rawPath ⟨config, { request with target := probe baseUrl }, mime⟩ == str "/robots.txt") =
        false := by
    rw [pathText_rawPath, path, beq_eq_false_iff_ne.mpr (probe_other baseUrl), Bool.and_false]
  let asked : Request := { request with target := probe baseUrl }
  let mounted : Config := { c with baseUrl }
  have found : start mounted asked mime = _ :=
    (@start_files mounted asked mime method policy).trans
      (@files_resolved ⟨mounted, asked, mime⟩ _ (robots _) inside)
  have refused : start c asked mime = _ :=
    (@start_files c asked mime method policy).trans
      (@files_outside ⟨c, asked, mime⟩ _ (robots c) outside)
  change start mounted asked mime ≠ start c asked mime
  rw [found, refused]
  intro same
  cases same

theorem same_mount_iff {c : Config} (valid : validateConfig c = .ok ()) :
    ∃ baseUrl, normalizeBaseUrl c.baseUrl = .ok baseUrl ∧
      (SameMount c baseUrl ↔ c.baseUrl = [] ∨ c.baseUrl = baseUrl ∨ ¬AsksForFiles c) := by
  obtain ⟨baseUrl, checked⟩ := validateConfig_baseUrl valid
  obtain ⟨normal, spelling⟩ := normalizeBaseUrl_spelling checked
  refine ⟨baseUrl, checked, ?_⟩
  constructor
  · rintro ⟨same, -⟩
    by_contra wrong
    simp only [not_or, not_not] at wrong
    obtain ⟨notEmpty, other, request, method, policy⟩ := wrong
    exact probe_apart normal spelling notEmpty other method policy ⟨∅⟩ (same _ _)
  · intro condition
    refine ⟨fun request mime => ?_, normalizeBaseUrl_normal normal⟩
    apply start_remount
    intro method policy
    rcases condition with empty | same | silent
    · apply files_remount
      rw [empty] at checked ⊢
      obtain rfl := Except.ok.inj checked
      exact matchAndStripBaseUrl_empty.symm
    · exact files_remount _ _ _ _ (by rw [same])
    · exact absurd ⟨request, method, policy⟩ silent

def mountedAt (baseUrl : String) : Config :=
  { Config.default (str "public") with baseUrl := str baseUrl }

theorem same_mount_app :
    ∃ baseUrl, normalizeBaseUrl (mountedAt "/app").baseUrl = .ok baseUrl ∧
      (SameMount (mountedAt "/app") baseUrl ↔ (mountedAt "/app").baseUrl = [] ∨
        (mountedAt "/app").baseUrl = baseUrl ∨ ¬AsksForFiles (mountedAt "/app")) :=
  same_mount_iff rfl

-- Without its slash the mount is accepted and matches no path of a client.
theorem bare_mount_differs :
    validateConfig (mountedAt "app") = .ok () ∧
      normalizeBaseUrl (mountedAt "app").baseUrl = .ok (str "/app") ∧
      Run (start (mountedAt "app") (asking "/app") .new) [] (.done (.responds
        ⟨403, OrderedMap.ofList [(str "Content-Length", str "0")], .empty⟩)) ∧
      ¬SameMount (mountedAt "app") (str "/app") := by
  refine ⟨rfl, by decide, run_of_result rfl, fun same => ?_⟩
  have first := congrArg query? (same.1 (asking "/app") .new)
  exact absurd first (by decide)

end HttpServer.StaticPlan
