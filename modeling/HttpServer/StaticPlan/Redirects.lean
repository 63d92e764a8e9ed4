import HttpServer.Core.Resolution
import HttpServer.StaticPlan.Replies

set_option autoImplicit false

namespace HttpServer.StaticPlan

open Unicode Text HttpServer.Core Dialogue Percent

def Planner.redirectReply (p : Planner) : Reply :=
  ⟨302, OrderedMap.ofList
    [(str "Location", formatDirRedirect p.rawPath p.query),
      (str "Content-Type", str "text/html; charset=UTF-8"), (str "Content-Length", str "0")], .empty⟩

section

variable {config : Config} {request : Request} {mime : MimeRegistry} {past : Past}
  {response : Response}

theorem fileReply_status (p : Planner) (file : File) (path : Str) (encoding : Option Str)
    (sample : Option Bytes) :
    (p.fileReply file path encoding sample).status ∈ [(200 : Int32), 206, 304, 416] := by
  rw [fileReply_eq]
  cases p.askedRange file with
  | satisfiable r => exact (show (206 : Int32) ∈ [(200 : Int32), 206, 304, 416] by simp)
  | notSatisfiable => exact (show (416 : Int32) ∈ [(200 : Int32), 206, 304, 416] by simp)
  | notApplicable =>
    dsimp only
    split_ifs
    · exact (show (304 : Int32) ∈ [(200 : Int32), 206, 304, 416] by simp)
    · exact (show (200 : Int32) ∈ [(200 : Int32), 206, 304, 416] by simp)

-- What answers with 302 has resolved the target and found no slash at the end of its path.
theorem run_redirects (run : Run (start config request mime) past (.done (.responds response)))
    (moved : response.status = 302) :
    (∃ path, Planner.Resolves ⟨config, request, mime⟩ path) ∧
      hasSuffix (Planner.rawPath ⟨config, request, mime⟩) (str "/") = false ∧
      response = Planner.sent ⟨config, request, mime⟩
        (Planner.redirectReply ⟨config, request, mime⟩) := by
  obtain ⟨reply, answers, rfl⟩ := run_responds run
  change reply.status = 302 at moved
  cases answers with
  | generated _ _ generated =>
    cases generated with
    | refused status headers bytes policy =>
      change status = 302 at moved
      rcases policy with ⟨rfl, -⟩ | ⟨rfl, -⟩ <;> exact absurd moved (by decide)
    | preflight => exact absurd moved (show (204 : Int32) ≠ 302 by decide)
    | text status bytes known =>
      change status = 302 at moved
      subst moved
      exact absurd known (by decide)
    | robots => exact absurd moved (show (200 : Int32) ≠ 302 by decide)
    | outside => exact absurd moved (show (403 : Int32) ≠ 302 by decide)
    | redirect path resolves noSlash => exact ⟨⟨path, resolves⟩, noSlash, rfl⟩
  | errorPage => exact absurd moved (show (404 : Int32) ≠ 302 by decide)
  | unlisted => exact absurd moved (show (200 : Int32) ≠ 302 by decide)
  | listed => exact absurd moved (show (200 : Int32) ≠ 302 by decide)
  | file _ path index missing i choice file sample more turn regular taken =>
    have known := fileReply_status ⟨config, request, mime⟩ file choice.represented choice.encoding
      sample
    rw [moved] at known
    exact absurd known (by decide)

theorem get_location (p : Planner) : (p.sent p.redirectReply).headers.get (str "Location") =
    some ((p.config.customHeaders.get (str "Location")).getD
      (formatDirRedirect p.rawPath p.query)) := by
  have other : str "Location" ∉ securityNames := by decide
  cases custom : p.config.customHeaders.get (str "Location") with
  | none =>
    have absent := (OrderedMap.get_eq_none _ _).mp custom
    rw [Planner.sent, get_applySecurityHeaders other absent]
    rfl
  | some value =>
    have member := (OrderedMap.get_eq_some _ _ _).mp custom
    exact get_insertAll_mem _ p.config.customHeaders.nodup member

theorem split_target {path q : Str} (cut : unit '?' ∉ path) :
    split (path ++ unit '?' :: q) (unit '?') = path :: split q (unit '?') :=
  List.splitOn_append_cons_self_of_not_mem cut q

theorem decodes_unique {raw text other : Str} (decodes : Decodes FaceValue raw text)
    (again : Decodes FaceValue raw other) : text = other :=
  Except.ok.inj (((decodePercent_iff _ _).mpr decodes).symm.trans ((decodePercent_iff _ _).mpr again))

theorem pathText_append {path q : Str} (cut : unit '?' ∉ path) :
    pathText (path ++ unit '?' :: q) = path :=
  takeWhile_bne cut

theorem first_piece (q : Str) : (split q (unit '?'))[0]? = some (q.takeWhile (· != unit '?')) := by
  rw [← split_head, ← List.head?_eq_getElem?, List.head?_eq_some_head]

-- One more slash at the end of a directory's name.
def SameDirectory (path other : Str) : Prop := other = path ∨ other = path ++ str "/"

theorem Allowed.slash {rel : Str} (allowed : Allowed rel) (some : rel ≠ []) :
    Allowed (rel ++ str "/") := by
  have pieces : split (rel ++ str "/") (unit '/') = split rel (unit '/') ++ [[]] := by
    obtain ⟨front, last, first, rest, whole, behind, joined⟩ := split_append rel (str "/") (unit '/')
    have slash : split (str "/") (unit '/') = [[], []] := by decide
    obtain ⟨rfl, rfl⟩ := List.cons.inj (behind.symm.trans slash)
    rw [joined, whole, List.append_nil, List.append_assoc]
    rfl
  have kept {u : UInt16} (absent : u ∉ rel) (other : u ∉ str "/") : u ∉ rel ++ str "/" := by
    rw [List.mem_append, not_or]
    exact ⟨absent, other⟩
  refine ⟨?_, kept allowed.noNul (by decide), kept allowed.noBackslash (by decide),
    kept allowed.noColon (by decide), ?_, ?_⟩
  · obtain ⟨u, rest, rfl⟩ := List.exists_cons_of_ne_nil some
    intro slash
    apply allowed.relative
    simpa using slash
  · rw [pieces, List.mem_append, not_or]
    exact ⟨allowed.noParent, by decide⟩
  · intro part member
    rw [pieces, List.mem_append, List.mem_singleton] at member
    rcases member with inside | rfl
    · exact allowed.noDevice part inside
    · exact not_device_nil

theorem resolves_slash {root baseUrl path q dir : Str} (cut : unit '?' ∉ path)
    (resolved : resolvePath root baseUrl (path ++ unit '?' :: q) = .ok dir) :
    (∃ dir', resolvePath root baseUrl (path ++ str "/?" ++ q) = .ok dir' ∧ SameDirectory dir dir') ↔
      decodePercent path ≠ .ok (mount baseUrl ++ str "/") := by
  have whole : path ++ str "/?" ++ q = (path ++ str "/") ++ unit '?' :: q := by
    rw [List.append_assoc, List.append_assoc]
    rfl
  have cut' : unit '?' ∉ path ++ str "/" := by
    rw [List.mem_append, not_or]
    exact ⟨cut, by decide⟩
  have question : Numerals.digit? 16 (unit '?') = none := by decide
  have slash : Numerals.digit? 16 (unit '/') = none := by decide
  obtain ⟨escaped, text, rel, decodes, noNul, under, allowed, rfl⟩ :=
    (resolvePath_iff _ _ _ _).mp resolved
  rw [pathText_append cut] at decodes
  rw [wellEscaped_append _ _ (by decide) question] at escaped
  have longer : Decodes FaceValue (path ++ str "/") (text ++ str "/") :=
    decodes.append (.of_plain (by decide))
  have escaped' : WellEscaped (path ++ str "/?" ++ q) := by
    rw [whole, wellEscaped_append _ _ (by decide) question]
    refine ⟨?_, escaped.2⟩
    exact (wellEscaped_append path [] (by decide) slash).mpr ⟨escaped.1, wellEscaped_nil⟩
  have clean : 0 ∉ text ++ str "/" := by
    rw [List.mem_append, not_or]
    exact ⟨noNul, by decide⟩
  have follows (rel' : Str) (below : Under baseUrl (text ++ str "/") rel') (fine : Allowed rel') :
      resolvePath root baseUrl (path ++ str "/?" ++ q) = .ok (located (normRoot root) rel') := by
    refine (resolvePath_iff _ _ _ _).mpr ⟨escaped', _, rel', ?_, clean, below, fine, rfl⟩
    rwa [whole, pathText_append cut']
  rw [Ne, decodePercent_iff]
  constructor
  · -- At the mount's own slash the second slash is the first character of the relative part.
    rintro ⟨dir', resolved', -⟩ lone
    obtain ⟨-, text', rel', decodes', -, under', allowed', -⟩ := (resolvePath_iff _ _ _ _).mp resolved'
    rw [whole, pathText_append cut'] at decodes'
    have twice := lone.append (.of_plain (show sign ∉ str "/" by decide))
    obtain rfl := decodes_unique decodes' twice
    rcases under' with ⟨same, -⟩ | same
    · have lengths := congrArg List.length same
      simp [str] at lengths
    · obtain rfl : str "/" = rel' := by simpa using same
      exact allowed'.relative (List.prefix_refl _)
  · intro deeper
    rcases under with ⟨rfl, rfl⟩ | rfl
    · exact ⟨_, follows [] (.inr (by rw [List.append_nil])) allowed, .inl rfl⟩
    · have some : rel ≠ [] := by
        rintro rfl
        exact deeper (by rwa [List.append_nil] at decodes)
      refine ⟨_, follows (rel ++ str "/") (.inr (by simp only [List.append_assoc]))
        (Allowed.slash allowed some), .inr ?_⟩
      unfold located
      rw [if_neg some, if_neg (by simp [str])]
      simp only [List.append_assoc]

/-- The client gets its own spelling back with one more slash, and asking for that leads into the
same directory and not to a further redirect. -/
structure KeepsQuery (config : Config) (request : Request) (path q : Str) (response : Response) :
    Prop where
  location : response.headers.get (str "Location") = some (path ++ str "/?" ++ q)
  slash (mime : MimeRegistry) : hasSuffix
    (Planner.rawPath ⟨config, { request with target := path ++ str "/?" ++ q }, mime⟩) (str "/") = true
  follows (mime : MimeRegistry) (dir : Str) (resolves : Planner.Resolves ⟨config, request, mime⟩ dir) :
    ∃ dir', Planner.Resolves ⟨config, { request with target := path ++ str "/?" ++ q }, mime⟩ dir' ∧
      SameDirectory dir dir'
  settles (mime : MimeRegistry) (past : Past) (next : Response)
    (run : Run (start config { request with target := path ++ str "/?" ++ q } mime) past
      (.done (.responds next))) : next.status ≠ 302

/-- The configuration sends this very location, or sends none and the query has no second question
mark; and the path does not name the mount followed by an escaped slash. -/
def Redirectable (config : Config) (path q : Str) : Prop :=
  (config.customHeaders.get (str "Location") = some (path ++ str "/?" ++ q) ∨
    config.customHeaders.get (str "Location") = none ∧ unit '?' ∉ q) ∧
  decodePercent path ≠ .ok (mount config.baseUrl ++ str "/")

theorem pathText_rawPath (p : Planner) : p.rawPath = pathText p.request.target := by
  rw [Planner.rawPath, List.headD_eq_head?_getD, List.head?_eq_some_head (split_ne_nil _ _),
    split_head]
  rfl

theorem rawPath_slash (p : Planner) {path q : Str} (cut : unit '?' ∉ path)
    (target : p.request.target = path ++ str "/?" ++ q) : p.rawPath = path ++ str "/" := by
  have whole : path ++ str "/?" ++ q = (path ++ str "/") ++ unit '?' :: q := by
    rw [List.append_assoc, List.append_assoc]
    rfl
  have cut' : unit '?' ∉ path ++ str "/" := by
    rw [List.mem_append, not_or]
    exact ⟨cut, by decide⟩
  rw [Planner.rawPath, target, whole, split_target cut']
  rfl

theorem sent_location {p : Planner} {path q : Str} (cut : unit '?' ∉ path) (notEmpty : q ≠ [])
    (target : p.request.target = path ++ unit '?' :: q)
    (noSlash : hasSuffix p.rawPath (str "/") = false) :
    (p.sent p.redirectReply).headers.get (str "Location") = some (path ++ str "/?" ++ q) ↔
      p.config.customHeaders.get (str "Location") = some (path ++ str "/?" ++ q) ∨
        p.config.customHeaders.get (str "Location") = none ∧ unit '?' ∉ q := by
  have raw : p.rawPath = path := by
    rw [Planner.rawPath, target, split_target cut]
    rfl
  have query : p.query = some (q.takeWhile (· != unit '?')) := by
    rw [Planner.query, target, split_target cut, List.getElem?_cons_succ, first_piece]
  have kept : q.takeWhile (· != unit '?') = q ↔ unit '?' ∉ q := by
    rw [List.takeWhile_eq_self_iff]
    simp only [bne_iff_ne]
    exact ⟨fun all member => all _ member rfl, fun absent u member same => absent (same ▸ member)⟩
  rw [get_location, Option.some.injEq]
  cases p.config.customHeaders.get (str "Location") with
  | some value => simp
  | none =>
    rw [raw] at noSlash
    simp only [Option.getD_none, formatDirRedirect, raw, query, noSlash, Bool.false_eq_true,
      if_false, reduceCtorEq, false_or, true_and]
    split_ifs with long
    · rw [← kept]
      simp only [List.append_assoc, List.append_cancel_left_eq]
      simp [str]
    · refine iff_of_false ?_ ?_
      · intro same
        have lengths := congrArg List.length same
        have one : (str "/").length = 1 := rfl
        have two : (str "/?").length = 2 := rfl
        rw [List.length_append, List.length_append, List.length_append] at lengths
        omega
      · intro absent
        rw [kept.mpr absent, List.length_pos_iff] at long
        exact long notEmpty

/-- A redirect keeps the whole query exactly where the query has no question mark of its own. -/
theorem redirect_keeps_query {path q : Str} (cut : unit '?' ∉ path) (notEmpty : q ≠ [])
    (target : request.target = path ++ unit '?' :: q)
    (run : Run (start config request mime) past (.done (.responds response)))
    (moved : response.status = 302) :
    KeepsQuery config request path q response ↔ Redirectable config path q := by
  obtain ⟨⟨dir, resolves⟩, noSlash, rfl⟩ := run_redirects run moved
  have resolved := resolves.resolved
  rw [target] at resolved
  have header := sent_location cut notEmpty target noSlash
  have deeper := resolves_slash cut resolved
  constructor
  · intro keeps
    obtain ⟨dir', further, same⟩ := keeps.follows mime dir resolves
    exact ⟨header.mp keeps.location, deeper.mp ⟨dir', further.resolved, same⟩⟩
  · intro redirectable
    obtain ⟨dir', further, same⟩ := deeper.mpr redirectable.2
    have ends (mime : MimeRegistry) : hasSuffix
        (Planner.rawPath ⟨config, { request with target := path ++ str "/?" ++ q }, mime⟩)
          (str "/") = true := by
      rw [rawPath_slash _ cut rfl]
      exact hasSuffix_append _ _
    refine ⟨header.mpr redirectable.1, ends, ?_, ?_⟩
    · intro mime dir again
      obtain rfl := Except.ok.inj (resolved.symm.trans (target ▸ again.resolved))
      have other : (Planner.rawPath
          ⟨config, { request with target := path ++ str "/?" ++ q }, mime⟩ == str "/robots.txt") =
            false := by
        rw [beq_eq_false_iff_ne]
        intro robots
        have slash := ends mime
        rw [robots] at slash
        exact absurd slash (by decide)
      refine ⟨dir', ⟨again.policy, again.method, ?_, further⟩, same⟩
      rw [other, Bool.and_false]
    · intro mime past next run again
      obtain ⟨-, noSlash, -⟩ := run_redirects run again
      exact absurd (ends mime) (ne_true_of_eq_false noSlash)

end

def directoryFile : File := ⟨3, 2, 0, 0⟩

def asking (target : String) : Request := ⟨.get, str target, ∅⟩

def movedTo (location : String) : Response :=
  ⟨302, OrderedMap.ofList
    [(str "Location", str location), (str "Content-Type", str "text/html; charset=UTF-8"),
      (str "Content-Length", str "0")], .empty⟩

theorem docs_run :
    Run (start (.default (str "public")) (asking "/docs?a=1") .new)
      [opened (str "public/docs") (some directoryFile)] (.done (.responds (movedTo "/docs/?a=1"))) :=
  run_of_result (by decide +kernel)

theorem redirect_keeps_query_docs :
    KeepsQuery (.default (str "public")) (asking "/docs?a=1") (str "/docs") (str "a=1")
      (movedTo "/docs/?a=1") ↔ Redirectable (.default (str "public")) (str "/docs") (str "a=1") :=
  redirect_keeps_query (by decide) (by decide) rfl docs_run rfl

-- What follows the second question mark is gone.
theorem second_question_mark_lost :
    (asking "/docs?a=1?b=2").target = str "/docs" ++ unit '?' :: str "a=1?b=2" ∧
      Run (start (.default (str "public")) (asking "/docs?a=1?b=2") .new)
        [opened (str "public/docs") (some directoryFile)] (.done (.responds (movedTo "/docs/?a=1"))) ∧
      ¬KeepsQuery (.default (str "public")) (asking "/docs?a=1?b=2") (str "/docs") (str "a=1?b=2")
        (movedTo "/docs/?a=1") := by
  refine ⟨rfl, run_of_result (by decide +kernel), fun keeps => ?_⟩
  exact absurd keeps.location (by decide +kernel)

end HttpServer.StaticPlan
