import HttpServer.StaticPlan.Plan

set_option autoImplicit false

namespace HttpServer.StaticPlan

open Unicode Text HttpServer.Core Dialogue

abbrev Past := History Query Query.Answer

def opened (path : Str) (answer : Option File) : Sigma Query.Answer := ⟨.opens path, answer⟩

def examined (file : File) (bytes : Bytes) : Sigma Query.Answer := ⟨.reads file 2, bytes⟩

def sampled (file : File) (bytes : Bytes) : Sigma Query.Answer := ⟨.reads file 1024, bytes⟩

def isDirectory : Option File → Prop
  | some f => f.kind = 2
  | none => False

def isRegular : Option File → Prop
  | some f => f.kind = 1
  | none => False

def Planner.rawPath (p : Planner) : Str := (split p.request.target (unit '?')).headD []

def Planner.query (p : Planner) : Option Str := (split p.request.target (unit '?'))[1]?

def Planner.indexName (p : Planner) (path : Str) : Str :=
  join path (str "index." ++ p.config.defaultExt.getD (str "html"))

def Planner.fallbackName (p : Planner) : Str :=
  join p.config.root (p.config.fallbackTargetFile.getD (str "index.html"))

def Planner.errorName (p : Planner) : Str := join p.config.root (str "404.html")

/-- The policies let the request through, and its target names `path`. -/
structure Planner.Resolves (p : Planner) (path : Str) : Prop where
  policy : evaluateSecurityPolicies p.config p.request = some .proceed
  method : p.request.meth = .get ∨ p.request.meth = .head
  robots : (p.config.robots && p.rawPath == str "/robots.txt") = false
  resolved : resolvePath p.config.root p.config.baseUrl p.request.target = .ok path

-- A file behind the choice at `i` that is not gzip after all ends the run.
def Planner.insists (p : Planner) (i : Nat) (choice : Choice) : Bool :=
  i = 0 && p.config.forceContentEncoding && hasSuffix choice.path (str ".gz") &&
    choice.represented != choice.path

/-- What a host is asked and answers while one choice after another is left. -/
inductive Passes (p : Planner) : List Choice → Nat → Past → Prop
  | start (i : Nat) : Passes p [] i []
  | denied (choice : Choice) (rest : List Choice) (i : Nat) (answer : Option File) (more : Past)
      (notRegular : ¬isRegular answer) (later : Passes p rest (i + 1) more) :
      Passes p (choice :: rest) i (opened choice.path answer :: more)
  | wrong (choice : Choice) (rest : List Choice) (i : Nat) (file : File) (bytes : Bytes)
      (more : Past) (regular : file.kind = 1) (compressed : choice.encoding = some gzip)
      (noMagic : gzipMagic bytes = false) (lenient : p.insists i choice = false)
      (later : Passes p rest (i + 1) more) :
      Passes p (choice :: rest) i
        (opened choice.path (some file) :: examined file bytes :: more)

/-- After `past` the run turns to the representations of a path, and to `missing` after them. -/
inductive Trying (p : Planner) : Past → Str → Bool → Step → Prop
  | direct (path : Str) (answer : Option File) (resolves : p.Resolves path)
      (notDirectory : ¬isDirectory answer) : Trying p [opened path answer] path false p.fileMissing
  | index (path : Str) (answer : Option File) (resolves : p.Resolves path)
      (directory : isDirectory answer) (enabled : p.config.autoIndex = true)
      (slash : hasSuffix p.rawPath (str "/") = true) :
      Trying p [opened path answer] (p.indexName path) true
        (p.directoryMissing path p.rawPath p.query)
  | fallback (path : Str) (answer : Option File) (more : Past) (resolves : p.Resolves path)
      (notDirectory : ¬isDirectory answer)
      (passes : Passes p (p.representations path false) 0 more)
      (enabled : p.config.hasFallback = true) :
      Trying p (opened path answer :: more) p.fallbackName true p.terminal

structure Turn (p : Planner) (past : Past) (path : Str) (index : Bool) (missing : Step) (i : Nat)
    (choice : Choice) : Prop where
  chosen : (p.representations path index)[i]? = some choice
  reached : ∃ prior more, past = prior ++ more ∧ Trying p prior path index missing ∧
    Passes p ((p.representations path index).take i) 0 more

inductive Taken (choice : Choice) (file : File) : Option Bytes → Past → Prop
  | plain (other : choice.encoding ≠ some gzip) :
      Taken choice file none [opened choice.path (some file)]
  | sniffed (bytes : Bytes) (identity : choice.encoding = none) :
      Taken choice file (some bytes) [opened choice.path (some file), sampled file bytes]
  | unzipped (bytes : Bytes) (compressed : choice.encoding = some gzip)
      (magic : gzipMagic bytes = true) :
      Taken choice file none [opened choice.path (some file), examined file bytes]

inductive Looks (p : Planner) : Past → Query → Prop
  | resolved (path : Str) (resolves : p.Resolves path) : Looks p [] (.opens path)
  | candidate (past : Past) (path : Str) (index : Bool) (missing : Step) (i : Nat) (choice : Choice)
      (turn : Turn p past path index missing i choice) : Looks p past (.opens choice.path)
  | magic (past : Past) (path : Str) (index : Bool) (missing : Step) (i : Nat) (choice : Choice)
      (file : File) (turn : Turn p past path index missing i choice) (regular : file.kind = 1)
      (compressed : choice.encoding = some gzip) :
      Looks p (past ++ [opened choice.path (some file)]) (.reads file 2)
  | sample (past : Past) (path : Str) (index : Bool) (missing : Step) (i : Nat) (choice : Choice)
      (file : File) (turn : Turn p past path index missing i choice) (regular : file.kind = 1)
      (identity : choice.encoding = none) :
      Looks p (past ++ [opened choice.path (some file)]) (.reads file 1024)
  | errorPage (past : Past) : Looks p past (.opens p.errorName)
  | listing (past : Past) (path : Str) (resolves : p.Resolves path) : Looks p past (.lists path)

inductive Generated (p : Planner) : Reply → Prop
  | refused (status : Int32) (headers : Headers) (bytes : Bytes)
      (policy :
        status = 401 ∧ evaluateSecurityPolicies p.config p.request = some (.unauthorized headers bytes) ∨
        status = 403 ∧ evaluateSecurityPolicies p.config p.request = some (.forbidden headers bytes)) :
      Generated p ⟨status,
        (headers.insert (str "Content-Type") (str "text/plain; charset=UTF-8")).insert
          (str "Content-Length") (ofNat bytes.length), .bytes bytes⟩
  | preflight (headers : Headers)
      (policy : evaluateSecurityPolicies p.config p.request = some (.preflight headers)) :
      Generated p ⟨204, headers.insert (str "Content-Length") (str "0"), .empty⟩
  | text (status : Int32) (bytes : Bytes) (known : status ∈ [(400 : Int32), 403, 404]) :
      Generated p ⟨status, OrderedMap.ofList
        [(str "Content-Type", str "text/plain; charset=UTF-8"),
          (str "Content-Length", ofNat bytes.length)], .bytes bytes⟩
  | robots (bytes : Bytes) : Generated p ⟨200, OrderedMap.ofList
      [(str "Content-Type", str "text/plain"), (str "Content-Length", ofNat bytes.length)],
      .bytes bytes⟩
  | outside : Generated p ⟨403, OrderedMap.ofList [(str "Content-Length", str "0")], .empty⟩
  | redirect (path : Str) (resolves : p.Resolves path)
      (noSlash : hasSuffix p.rawPath (str "/") = false) : Generated p ⟨302, OrderedMap.ofList
      [(str "Location", formatDirRedirect p.rawPath p.query),
        (str "Content-Type", str "text/html; charset=UTF-8"),
        (str "Content-Length", str "0")], .empty⟩

def Planner.errorReply (file : File) : Reply :=
  ⟨404, OrderedMap.ofList
    [(str "Content-Type", str "text/html; charset=UTF-8"),
      (str "Content-Length", ofInt file.size.toInt)], .fileRegion file 0 file.size⟩

def Planner.listingReply (body : Body) : Reply :=
  ⟨200, OrderedMap.ofList [(str "Content-Type", str "text/html; charset=UTF-8")], body⟩

inductive Answers (p : Planner) : Past → Reply → Prop
  | generated (past : Past) (reply : Reply) (generated : Generated p reply) : Answers p past reply
  | errorPage (past : Past) (file : File) (regular : file.kind = 1) :
      Answers p (past ++ [opened p.errorName (some file)]) (Planner.errorReply file)
  | unlisted (past : Past) (head : p.request.meth = .head) :
      Answers p past (Planner.listingReply .empty)
  | listed (past : Past) (stream : ListingStream) :
      Answers p past (Planner.listingReply (.listing stream))
  | file (past : Past) (path : Str) (index : Bool) (missing : Step) (i : Nat) (choice : Choice)
      (file : File) (sample : Option Bytes) (more : Past)
      (turn : Turn p past path index missing i choice) (regular : file.kind = 1)
      (taken : Taken choice file sample more) :
      Answers p (past ++ more) (p.fileReply file choice.represented choice.encoding sample)

def Planner.sent (p : Planner) (reply : Reply) : Response :=
  ⟨reply.status, applySecurityHeaders reply.headers p.config p.request.meth,
    if p.request.meth = .head then .empty else reply.body⟩

inductive Finishes (p : Planner) : Past → Outcome → Prop
  | responds (past : Past) (reply : Reply) (answers : Answers p past reply) :
      Finishes p past (.responds (p.sent reply))
  | changed (past : Past) (path : Str) (index : Bool) (missing : Step) (i : Nat) (choice : Choice)
      (file : File) (bytes : Bytes) (turn : Turn p past path index missing i choice)
      (regular : file.kind = 1) (compressed : choice.encoding = some gzip)
      (noMagic : gzipMagic bytes = false) (insists : p.insists i choice = true) :
      Finishes p (past ++ [opened choice.path (some file), examined file bytes]) .changed
  | next (past : Past) : Finishes p past .next
  | trap (past : Past) : Finishes p past .trap

theorem run_opens {path : Str} {next : Option File → Step} {more : Past} {last : Step}
    (answer : Option File) (rest : Run (next answer) more last) :
    Run (Step.opens path next) (opened path answer :: more) last :=
  @Run.answer Query Query.Answer Outcome (.opens path) next _ _ answer rest

theorem run_reads {file : File} {count : Int32} {next : Bytes → Step} {more : Past} {last : Step}
    (bytes : Bytes) (rest : Run (next bytes) more last) :
    Run (Step.reads file count next) (⟨.reads file count, bytes⟩ :: more) last :=
  @Run.answer Query Query.Answer Outcome (.reads file count) next _ _ bytes rest

section

variable {p : Planner}

theorem Passes.deny {choices : List Choice} {i : Nat} {more : Past} (passes : Passes p choices i more)
    (choice : Choice) {answer : Option File} (notRegular : ¬isRegular answer) :
    Passes p (choices ++ [choice]) i (more ++ [opened choice.path answer]) := by
  induction passes with
  | start i => exact .denied choice [] i answer [] notRegular (.start _)
  | denied first rest i before more refused later ih =>
    exact .denied first _ i before _ refused ih
  | wrong first rest i file bytes more regular compressed noMagic lenient later ih =>
    exact .wrong first _ i file bytes _ regular compressed noMagic lenient ih

theorem Passes.misread {choices : List Choice} {i : Nat} {more : Past}
    (passes : Passes p choices i more) {choice : Choice} {file : File} {bytes : Bytes}
    (regular : file.kind = 1) (compressed : choice.encoding = some gzip)
    (noMagic : gzipMagic bytes = false) (lenient : p.insists (i + choices.length) choice = false) :
    Passes p (choices ++ [choice]) i
      (more ++ [opened choice.path (some file), examined file bytes]) := by
  induction passes with
  | start i => exact .wrong choice [] i file bytes [] regular compressed noMagic lenient (.start _)
  | denied first rest i before more refused later ih =>
    apply Passes.denied first _ i before _ refused (ih _)
    rwa [List.length_cons, Nat.add_comm rest.length, ← Nat.add_assoc] at lenient
  | wrong first rest i other read more regular' compressed' noMagic' lenient' later ih =>
    apply Passes.wrong first _ i other read _ regular' compressed' noMagic' lenient' (ih _)
    rwa [List.length_cons, Nat.add_comm rest.length, ← Nat.add_assoc] at lenient

theorem Passes.run {choices : List Choice} {i : Nat} {more : Past} (passes : Passes p choices i more)
    (missing : Step) (rest : List Choice) :
    Run (p.chooseFrom missing (choices ++ rest) i) more
      (p.chooseFrom missing rest (i + choices.length)) := by
  induction passes with
  | start i => exact .here _
  | denied choice choices i answer more notRegular later ih =>
    rw [List.length_cons, Nat.add_comm choices.length, ← Nat.add_assoc, List.cons_append]
    refine run_opens answer ?_
    cases answer with
    | none => exact ih
    | some file =>
      have other : file.kind ≠ 1 := notRegular
      simpa only [if_neg other] using ih
  | wrong choice choices i file bytes more regular compressed noMagic lenient later ih =>
    rw [List.length_cons, Nat.add_comm choices.length, ← Nat.add_assoc, List.cons_append]
    refine run_opens (some file) ?_
    simp only [regular, compressed, if_true]
    refine run_reads bytes ?_
    rw [Planner.insists] at lenient
    simpa only [noMagic, lenient, Bool.false_eq_true, if_false] using ih

-- From `past` on, `step` asks and ends as the planner does there.
abbrev Exact (p : Planner) (past : Past) (step : Step) : Prop :=
  Holds (Looks p) (Finishes p) past step

theorem exact_opens {path : Str} {past : Past} {next : Option File → Step}
    (looks : Looks p past (.opens path))
    (rest : ∀ answer, Exact p (past ++ [opened path answer]) (next answer)) :
    Exact p past (.opens path next) :=
  ⟨looks, rest⟩

theorem exact_reads {file : File} {count : Int32} {past : Past} {next : Bytes → Step}
    (looks : Looks p past (.reads file count))
    (rest : ∀ bytes, Exact p (past ++ [⟨.reads file count, bytes⟩]) (next bytes)) :
    Exact p past (.reads file count next) :=
  ⟨looks, rest⟩

theorem text_exact (past : Past) {status : Int32} (known : status ∈ [(400 : Int32), 403, 404])
    (text : Str) : Exact p past (p.text status text) :=
  Finishes.responds past _ (.generated past _ (.text status (encode text) known))

theorem notFound_exact (past : Past) : Exact p past p.notFound := by
  apply exact_opens (.errorPage past)
  intro answer
  cases answer with
  | none => exact text_exact _ (by decide) _
  | some file =>
    by_cases regular : file.kind = 1
    · simp only [regular, if_true]
      exact Finishes.responds _ _ (.errorPage past file regular)
    · simp only [regular, if_false]
      exact text_exact _ (by decide) _

theorem serve_exact {past before : Past} {path : Str} {index : Bool} {missing : Step} {i : Nat}
    {choice : Choice} {file : File} (turn : Turn p past path index missing i choice)
    (regular : file.kind = 1) (now : before = past ++ [opened choice.path (some file)])
    (other : choice.encoding ≠ some gzip) :
    Exact p before (p.serve file choice.represented choice.encoding) := by
  subst now
  unfold Planner.serve
  dsimp only
  split_ifs with text
  · have identity : choice.encoding = none := by
      simp only [Bool.and_eq_true, Option.isNone_iff_eq_none] at text
      exact text.1.1
    apply exact_reads (.sample past path index missing i choice file turn regular identity)
    intro bytes
    rw [List.append_assoc]
    exact Finishes.responds _ _ (.file past path index missing i choice file (some bytes) _ turn
      regular (.sniffed bytes identity))
  · exact Finishes.responds _ _ (.file past path index missing i choice file none _ turn regular
      (.plain other))

-- Only a file without an encoding is sampled.
theorem serve_unzipped {past : Past} {path : Str} {index : Bool} {missing : Step} {i : Nat}
    {choice : Choice} {file : File} {bytes : Bytes} (turn : Turn p past path index missing i choice)
    (regular : file.kind = 1) (compressed : choice.encoding = some gzip)
    (magic : gzipMagic bytes = true) :
    Exact p (past ++ [opened choice.path (some file), examined file bytes])
      (p.serve file choice.represented (some gzip)) := by
  have ends := Finishes.responds _ _ (.file past path index missing i choice file none _ turn
    regular (.unzipped bytes compressed magic))
  rw [compressed] at ends
  exact ends

-- Everything before `i` was left when the choices from `i` on are left.
theorem chooseFrom_exact {prior : Past} {path : Str} {index : Bool} {missing : Step}
    (trying : Trying p prior path index missing)
    (otherwise : ∀ more, Passes p (p.representations path index) 0 more →
      Exact p (prior ++ more) missing) (choices : List Choice) (i : Nat) (more : Past)
    (left : (p.representations path index).drop i = choices)
    (passes : Passes p ((p.representations path index).take i) 0 more) :
    Exact p (prior ++ more) (p.chooseFrom missing choices i) := by
  induction choices generalizing i more with
  | nil =>
    apply otherwise
    rwa [List.take_of_length_le (List.drop_eq_nil_iff.mp left)] at passes
  | cons choice rest ih =>
    have chosen : (p.representations path index)[i]? = some choice := by
      have first := congrArg (·[0]?) left
      simpa using first
    have turn : Turn p (prior ++ more) path index missing i choice :=
      ⟨chosen, prior, more, rfl, trying, passes⟩
    have taken : (p.representations path index).take (i + 1) =
        (p.representations path index).take i ++ [choice] := by
      rw [List.take_add_one, chosen]
      rfl
    have inside : i < (p.representations path index).length :=
      (List.getElem?_eq_some_iff.mp chosen).1
    have skip (events : Past) (passed : Passes p ((p.representations path index).take i ++ [choice]) 0
        (more ++ events)) : Exact p (prior ++ more ++ events) (p.chooseFrom missing rest (i + 1)) := by
      rw [List.append_assoc]
      apply ih (i + 1)
      · rw [← List.tail_drop, left, List.tail_cons]
      · rwa [taken]
    apply exact_opens (.candidate _ path index missing i choice turn)
    intro answer
    cases answer with
    | none => exact skip _ (passes.deny choice (by simp [isRegular]))
    | some file =>
      by_cases regular : file.kind = 1
      · by_cases compressed : choice.encoding = some gzip
        · simp only [regular, compressed, if_true]
          apply exact_reads (.magic _ path index missing i choice file turn regular compressed)
          intro bytes
          rw [List.append_assoc]
          split_ifs with magic insists
          · exact serve_unzipped turn regular compressed magic
          · exact Finishes.changed _ path index missing i choice file bytes turn regular compressed
              (by simpa using magic) insists
          · apply skip
            apply passes.misread regular compressed (by simpa using magic)
            rw [List.length_take, Nat.min_eq_left inside.le, Nat.zero_add]
            simpa [Planner.insists] using insists
        · simp only [regular, compressed, if_true, if_false]
          exact serve_exact turn regular rfl compressed
      · simp only [regular, if_false]
        exact skip _ (passes.deny choice (by simpa [isRegular] using regular))

theorem choose_exact {prior : Past} {path : Str} {index : Bool} {missing : Step}
    (trying : Trying p prior path index missing)
    (otherwise : ∀ more, Passes p (p.representations path index) 0 more →
      Exact p (prior ++ more) missing) :
    Exact p prior (p.choose (p.representations path index) missing) := by
  have exact := chooseFrom_exact trying otherwise _ 0 [] rfl (.start 0)
  rwa [List.append_nil] at exact

theorem unanswered_exact (past : Past) : Exact p past p.unanswered := by
  unfold Planner.unanswered
  split_ifs
  · exact Finishes.next past
  · exact notFound_exact past

theorem fileMissing_exact {path : Str} {answer : Option File} {more : Past}
    (resolves : p.Resolves path) (notDirectory : ¬isDirectory answer)
    (passes : Passes p (p.representations path false) 0 more) :
    Exact p (opened path answer :: more) p.fileMissing := by
  unfold Planner.fileMissing
  dsimp only
  split_ifs with fallback
  · exact choose_exact (.fallback path answer more resolves notDirectory passes fallback)
      fun _ _ => text_exact _ (by decide) _
  · exact unanswered_exact _

theorem listing_exact (past : Past) {path : Str} (resolves : p.Resolves path) (rawPath : Str)
    (query : Option Str) : Exact p past (p.listing path rawPath query) := by
  unfold Planner.listing
  dsimp only
  split_ifs with head
  · exact Finishes.responds _ _ (.unlisted past head)
  · exact ⟨.listing past path resolves, fun entries => Finishes.responds _ _ (.listed _ _)⟩

theorem directoryMissing_exact (past : Past) {path : Str} (resolves : p.Resolves path)
    (rawPath : Str) (query : Option Str) : Exact p past (p.directoryMissing path rawPath query) := by
  unfold Planner.directoryMissing
  dsimp only
  split_ifs
  · apply exact_opens (.errorPage past)
    intro answer
    cases answer with
    | none => exact listing_exact _ resolves rawPath query
    | some file =>
      by_cases regular : file.kind = 1
      · simp only [regular, if_true]
        exact notFound_exact _
      · simp only [regular, if_false]
        exact listing_exact _ resolves rawPath query
  · exact listing_exact _ resolves rawPath query
  · exact unanswered_exact _

theorem directory_exact {path : Str} (answer : Option File) (resolves : p.Resolves path)
    (directory : isDirectory answer) :
    Exact p [opened path answer] (p.directory path p.rawPath p.query) := by
  unfold Planner.directory
  dsimp only
  split_ifs with noSlash neither index
  · exact notFound_exact _
  · exact Finishes.responds _ _ (.generated _ _ (.redirect path resolves (by simpa using noSlash)))
  · have slash : hasSuffix p.rawPath (str "/") = true := by simpa using noSlash
    exact choose_exact (.index path answer resolves directory index slash)
      fun _ _ => directoryMissing_exact _ resolves _ _
  · exact directoryMissing_exact _ resolves _ _

theorem resolved_exact {path : Str} (resolves : p.Resolves path) :
    Exact p [] (p.resolved path p.rawPath p.query) := by
  have direct (answer : Option File) (notDirectory : ¬isDirectory answer) :
      Exact p [opened path answer] (p.choose (p.representations path false) p.fileMissing) :=
    choose_exact (.direct path answer resolves notDirectory) fun _ passes =>
      fileMissing_exact resolves notDirectory passes
  apply exact_opens (.resolved path resolves)
  intro answer
  cases answer with
  | none => exact direct none (by simp [isDirectory])
  | some file =>
    by_cases directory : file.kind = 2
    · simp only [directory, if_true]
      exact directory_exact (some file) resolves directory
    · simp only [directory, if_false]
      exact direct (some file) (by simpa [isDirectory] using directory)

theorem files_exact (policy : evaluateSecurityPolicies p.config p.request = some .proceed)
    (method : p.request.meth = .get ∨ p.request.meth = .head) : Exact p [] p.files := by
  unfold Planner.files
  dsimp only
  by_cases robots : (p.config.robots && p.rawPath == str "/robots.txt") = true
  · rw [Planner.rawPath] at robots
    rw [if_pos robots]
    exact Finishes.responds _ _ (.generated _ _ (.robots _))
  · have others := robots
    rw [Planner.rawPath] at others
    rw [if_neg others]
    cases resolved : resolvePath p.config.root p.config.baseUrl p.request.target with
    | ok path => exact resolved_exact ⟨policy, method, by simpa using robots, resolved⟩
    | error e =>
      cases e with
      | malformedUri => exact text_exact _ (by decide) _
      | outsideBaseUrl => exact Finishes.responds _ _ (.generated _ _ .outside)
      | traversalForbidden => exact text_exact _ (by decide) _
      | notFound =>
        dsimp only
        split_ifs
        · exact notFound_exact _
        · exact Finishes.next _

end

theorem start_exact (config : Config) (request : Request) (mime : MimeRegistry) :
    Exact ⟨config, request, mime⟩ [] (start config request mime) := by
  unfold start
  dsimp only
  cases policy : evaluateSecurityPolicies config request with
  | none => exact Finishes.trap []
  | some decision =>
    cases decision with
    | unauthorized headers bytes =>
      exact Finishes.responds [] _ (.generated [] _ (.refused 401 headers bytes (Or.inl ⟨rfl, policy⟩)))
    | forbidden headers bytes =>
      exact Finishes.responds [] _ (.generated [] _ (.refused 403 headers bytes (Or.inr ⟨rfl, policy⟩)))
    | preflight headers => exact Finishes.responds [] _ (.generated [] _ (.preflight headers policy))
    | proceed =>
      cases method : request.meth with
      | get => exact files_exact policy (Or.inl method)
      | head => exact files_exact policy (Or.inr method)
      | other => exact Finishes.next []

theorem run_looks {config : Config} {request : Request} {mime : MimeRegistry} {past : Past}
    {query : Query} {next : query.Answer → Step}
    (run : Run (start config request mime) past (.ask query next)) :
    Looks ⟨config, request, mime⟩ past query :=
  (start_exact config request mime).asked run

theorem run_finishes {config : Config} {request : Request} {mime : MimeRegistry} {past : Past}
    {outcome : Outcome} (run : Run (start config request mime) past (.done outcome)) :
    Finishes ⟨config, request, mime⟩ past outcome :=
  (start_exact config request mime).ended run

theorem run_responds {config : Config} {request : Request} {mime : MimeRegistry} {past : Past}
    {response : Response}
    (run : Run (start config request mime) past (.done (.responds response))) :
    ∃ reply, Answers ⟨config, request, mime⟩ past reply ∧
      response = Planner.sent ⟨config, request, mime⟩ reply := by
  have finishes := run_finishes run
  generalize same : Outcome.responds response = outcome at finishes
  cases finishes with
  | responds _ reply answers => exact ⟨reply, answers, Outcome.responds.inj same⟩
  | changed => cases same
  | next => cases same
  | trap => cases same

section

variable {p : Planner} {path : Str}

theorem start_resolves (resolves : p.Resolves path) :
    start p.config p.request p.mime = p.resolved path p.rawPath p.query := by
  have robots := resolves.robots
  rw [Planner.rawPath] at robots
  have files : p.files = p.resolved path p.rawPath p.query := by
    simp only [Planner.files, robots, Bool.false_eq_true, if_false, resolves.resolved]
    rfl
  unfold start
  rw [resolves.policy]
  rcases resolves.method with method | method
  · rw [method]
    exact files
  · rw [method]
    exact files

theorem run_direct {answer : Option File} (resolves : p.Resolves path)
    (notDirectory : ¬isDirectory answer) :
    Run (start p.config p.request p.mime) [opened path answer]
      (p.choose (p.representations path false) p.fileMissing) := by
  rw [start_resolves resolves]
  refine run_opens answer ?_
  cases answer with
  | none => exact .here _
  | some file =>
    have other : file.kind ≠ 2 := notDirectory
    simpa only [if_neg other] using Run.here _

theorem Trying.run {prior : Past} {index : Bool} {missing : Step}
    (trying : Trying p prior path index missing) :
    Run (start p.config p.request p.mime) prior
      (p.choose (p.representations path index) missing) := by
  cases trying with
  | direct _ answer resolves notDirectory => exact run_direct resolves notDirectory
  | index path answer resolves directory enabled slash =>
    rw [start_resolves resolves]
    refine run_opens answer ?_
    cases answer with
    | none => exact absurd directory id
    | some file =>
      have kind : file.kind = 2 := directory
      simp only [kind, if_true, Planner.directory, slash, enabled, Bool.not_true, Bool.false_eq_true,
        if_false]
      exact .here _
  | fallback path answer more resolves notDirectory passes enabled =>
    have left : Run (p.choose (p.representations path false) p.fileMissing) more p.fileMissing := by
      have run := passes.run p.fileMissing []
      rwa [List.append_nil] at run
    have falls : p.fileMissing = p.choose (p.representations p.fallbackName true) p.terminal := by
      simp only [Planner.fileMissing, enabled, if_true]
      rfl
    rw [← falls]
    exact (run_direct resolves notDirectory).trans left

-- After `prior` and the choices before `i` the run is at the choices from `i` on.
theorem Trying.run_from {prior more : Past} {index : Bool} {missing : Step} {i : Nat}
    (trying : Trying p prior path index missing)
    (passes : Passes p ((p.representations path index).take i) 0 more)
    (inside : i ≤ (p.representations path index).length) :
    Run (start p.config p.request p.mime) (prior ++ more)
      (p.chooseFrom missing ((p.representations path index).drop i) i) := by
  have run := passes.run missing ((p.representations path index).drop i)
  rw [List.take_append_drop, List.length_take, Nat.min_eq_left inside, Nat.zero_add] at run
  exact trying.run.trans run

theorem Turn.run {past : Past} {index : Bool} {missing : Step} {i : Nat} {choice : Choice}
    (turn : Turn p past path index missing i choice) :
    Run (start p.config p.request p.mime) past
      (p.chooseFrom missing (choice :: (p.representations path index).drop (i + 1)) i) := by
  obtain ⟨prior, passed, rfl, trying, passes⟩ := turn.reached
  obtain ⟨inside, first⟩ := List.getElem?_eq_some_iff.mp turn.chosen
  have there := trying.run_from passes inside.le
  rwa [List.drop_eq_getElem_cons inside, first] at there

end

end HttpServer.StaticPlan
