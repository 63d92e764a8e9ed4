import HttpServer.StaticPlan.Positions

set_option autoImplicit false

namespace HttpServer.StaticPlan

open Unicode Text HttpServer.Core Dialogue

/-- What a run is at, and what it has asked, while one choice is on trial. -/
inductive Within (p : Planner) (i : Nat) (choice : Choice) : Past → Step → Prop
  | asking (next : Option File → Step) : Within p i choice [] (.ask (.opens choice.path) next)
  | reading (file : File) (count : Int32) (next : Bytes → Step) (regular : file.kind = 1) :
      Within p i choice [opened choice.path (some file)] (.ask (.reads file count) next)
  | served (file : File) (sample : Option Bytes) (events : Past) (regular : file.kind = 1)
      (taken : Taken choice file sample events) :
      Within p i choice events
        (.done (.responds (p.sent (p.fileReply file choice.represented choice.encoding sample))))
  | changed (file : File) (bytes : Bytes) (regular : file.kind = 1)
      (compressed : choice.encoding = some gzip) (noMagic : gzipMagic bytes = false)
      (insists : p.insists i choice = true) :
      Within p i choice [opened choice.path (some file), examined file bytes] (.done .changed)

inductive Chosen (p : Planner) (missing : Step) : List Choice → Nat → Past → Step → Prop
  | within (before : List Choice) (choice : Choice) (after : List Choice) (i : Nat)
      (tried events : Past) (last : Step) (passes : Passes p before i tried)
      (within : Within p (i + before.length) choice events last) :
      Chosen p missing (before ++ choice :: after) i (tried ++ events) last
  | missed (choices : List Choice) (i : Nat) (tried rest : Past) (last : Step)
      (passes : Passes p choices i tried) (run : Run missing rest last) :
      Chosen p missing choices i (tried ++ rest) last

section

variable {p : Planner} {missing last : Step} {choice : Choice} {choices : List Choice} {i : Nat}

theorem Chosen.pass {more : Past} (chosen : Chosen p missing choices (i + 1) more last)
    (events : Past)
    (pass : ∀ before tried, Passes p before (i + 1) tried →
      Passes p (choice :: before) i (events ++ tried)) :
    Chosen p missing (choice :: choices) i (events ++ more) last := by
  cases chosen with
  | within before other after _ tried rest _ passes within =>
    rw [← List.append_assoc, ← List.cons_append]
    apply Chosen.within (choice :: before) other after i (events ++ tried) rest last
      (pass before tried passes)
    rwa [List.length_cons, Nat.add_comm before.length, ← Nat.add_assoc]
  | missed _ _ tried rest _ passes run =>
    rw [← List.append_assoc]
    exact .missed (choice :: choices) i (events ++ tried) rest last (pass choices tried passes) run

theorem Chosen.first {events : Past} (within : Within p i choice events last) :
    Chosen p missing (choice :: choices) i events last :=
  .within [] choice choices i [] events last (.start i) within

-- Only a file without an encoding is sampled before it is sent.
theorem serve_within {file : File} {more : Past} (regular : file.kind = 1)
    (other : choice.encoding ≠ some gzip)
    (run : Run (p.serve file choice.represented choice.encoding) more last) :
    Within p i choice (opened choice.path (some file) :: more) last := by
  unfold Planner.serve at run
  dsimp only at run
  split_ifs at run with text
  · have identity : choice.encoding = none := by
      simp only [Bool.and_eq_true, Option.isNone_iff_eq_none] at text
      exact text.1.1
    cases run with
    | here => exact .reading file 1024 _ regular
    | answer bytes run =>
      cases run with
      | here => exact .served file (some bytes) _ regular (.sniffed bytes identity)
  · cases run with
    | here => exact .served file none _ regular (.plain other)

theorem unzip_within {file : File} {bytes : Bytes} {more : Past} (regular : file.kind = 1)
    (compressed : choice.encoding = some gzip) (magic : gzipMagic bytes = true)
    (run : Run (p.serve file choice.represented choice.encoding) more last) :
    Within p i choice (opened choice.path (some file) :: examined file bytes :: more) last := by
  simp only [Planner.serve, compressed, Option.isNone_some, Bool.false_and, Bool.false_eq_true,
    if_false] at run
  cases run with
  | here =>
    rw [← compressed]
    exact .served file none _ regular (.unzipped bytes compressed magic)

-- A run through the choices is at one of them, or past them all.
theorem chooseFrom_chosen {more : Past} (run : Run (p.chooseFrom missing choices i) more last) :
    Chosen p missing choices i more last := by
  induction choices generalizing i more with
  | nil => exact .missed [] i [] more last (.start i) run
  | cons choice rest ih =>
    cases run with
    | here => exact .first (.asking _)
    | answer answer run =>
      have denied (notRegular : ¬isRegular answer) {more : Past}
          (run : Run (p.chooseFrom missing rest (i + 1)) more last) :
          Chosen p missing (choice :: rest) i ([opened choice.path answer] ++ more) last :=
        (ih run).pass [_] fun before tried passes =>
          .denied choice before i answer tried notRegular passes
      cases answer with
      | none => exact denied (by simp [isRegular]) run
      | some file =>
        by_cases regular : file.kind = 1
        · by_cases compressed : choice.encoding = some gzip
          · simp only [regular, compressed, if_true] at run
            cases run with
            | here => exact .first (.reading file 2 _ regular)
            | answer bytes run =>
              by_cases magic : gzipMagic bytes = true
              · simp only [magic, if_true] at run
                rw [← compressed] at run
                exact .first (unzip_within regular compressed magic run)
              · have noMagic : gzipMagic bytes = false := by simpa using magic
                cases insists : p.insists i choice with
                | true =>
                  have stops := insists
                  rw [Planner.insists] at stops
                  simp only [noMagic, stops, Bool.false_eq_true, if_false, if_true] at run
                  cases run with
                  | here => exact .first (.changed file bytes regular compressed noMagic insists)
                | false =>
                  have lenient := insists
                  rw [Planner.insists] at lenient
                  simp only [noMagic, lenient, Bool.false_eq_true, if_false] at run
                  exact (ih run).pass [_, _] fun before tried passes =>
                    .wrong choice before i file bytes tried regular compressed noMagic insists passes
          · simp only [regular, compressed, if_true, if_false] at run
            exact .first (serve_within regular compressed run)
        · simp only [regular, if_false] at run
          exact denied (by simpa [isRegular] using regular) run

end

section

variable {p : Planner} {choices : List Choice} {i : Nat}

theorem Passes.split {before after : List Choice} {events : Past}
    (passes : Passes p (before ++ after) i events) :
    ∃ one two, events = one ++ two ∧ Passes p before i one ∧ Passes p after (i + before.length) two := by
  induction before generalizing i events with
  | nil => exact ⟨[], events, rfl, .start i, passes⟩
  | cons choice rest ih =>
    have shift : i + (choice :: rest).length = i + 1 + rest.length := by
      rw [List.length_cons, Nat.add_comm rest.length, ← Nat.add_assoc]
    rw [shift]
    cases passes with
    | denied _ _ _ answer more notRegular later =>
      obtain ⟨one, two, rfl, earlier, others⟩ := ih later
      exact ⟨_, two, rfl, .denied choice rest i answer one notRegular earlier, others⟩
    | wrong _ _ _ file bytes more regular compressed noMagic lenient later =>
      obtain ⟨one, two, rfl, earlier, others⟩ := ih later
      exact ⟨_, two, rfl, .wrong choice rest i file bytes one regular compressed noMagic lenient
        earlier, others⟩

-- Of one history, one part at most leaves the choices.
theorem Passes.unique {one two more more' : Past} (passes : Passes p choices i one)
    (again : Passes p choices i two) (same : one ++ more = two ++ more') : one = two := by
  induction passes generalizing two with
  | start i =>
    cases again
    rfl
  | denied choice rest i answer events notRegular later ih =>
    cases again with
    | denied _ _ _ other others refused again =>
      injection same with first same
      rw [first, ih again same]
    | wrong _ _ _ file bytes others regular compressed noMagic lenient again =>
      injection same with first same
      cases first
      exact absurd regular notRegular
  | wrong choice rest i file bytes events regular compressed noMagic lenient later ih =>
    cases again with
    | denied _ _ _ other others refused again =>
      injection same with first same
      cases first
      exact absurd regular refused
    | wrong _ _ _ file' bytes' others regular' compressed' noMagic' lenient' again =>
      injection same with first same
      injection same with second same
      rw [first, second, ih again same]

end

def Planner.fallbacks (p : Planner) : List Choice := p.representations p.fallbackName true

/-- The request names a path that is no directory, and all that may stand for it is passed over. -/
inductive FallsBack (p : Planner) : Past → Prop
  | fell (path : Str) (answer : Option File) (direct : Past) (resolves : p.Resolves path)
      (notDirectory : ¬isDirectory answer)
      (passes : Passes p (p.representations path false) 0 direct) :
      FallsBack p (opened path answer :: direct)

structure Fallback (p : Planner) (past : Past) (i : Nat) (choice : Choice) : Prop where
  chosen : p.fallbacks[i]? = some choice
  reached : ∃ prior tried, past = prior ++ tried ∧ FallsBack p prior ∧
    Passes p (p.fallbacks.take i) 0 tried

/-- The path is looked for as the one requested, or as a direct or an index file. -/
inductive Own (p : Planner) : Past → Str → Prop
  | requested (path : Str) (resolves : p.Resolves path) : Own p [] path
  | direct (path : Str) (answer : Option File) (tried : Past) (i : Nat) (choice : Choice)
      (resolves : p.Resolves path) (notDirectory : ¬isDirectory answer)
      (chosen : (p.representations path false)[i]? = some choice)
      (passes : Passes p ((p.representations path false).take i) 0 tried) :
      Own p (opened path answer :: tried) choice.path
  | index (path : Str) (answer : Option File) (tried : Past) (i : Nat) (choice : Choice)
      (resolves : p.Resolves path) (directory : isDirectory answer)
      (enabled : p.config.autoIndex = true)
      (chosen : (p.representations (p.indexName path) true)[i]? = some choice)
      (passes : Passes p ((p.representations (p.indexName path) true).take i) 0 tried) :
      Own p (opened path answer :: tried) choice.path

/-- How a run ends that has fallen back: `events` are all it asks from there on. -/
inductive Settled (p : Planner) : Past → Outcome → Prop
  | served (i : Nat) (choice : Choice) (file : File) (sample : Option Bytes) (tried events : Past)
      (chosen : p.fallbacks[i]? = some choice) (passes : Passes p (p.fallbacks.take i) 0 tried)
      (regular : file.kind = 1) (taken : Taken choice file sample events) :
      Settled p (tried ++ events)
        (.responds (p.sent (p.fileReply file choice.represented choice.encoding sample)))
  | changed (events : Past) : Settled p events .changed
  | missing (events : Past) (passes : Passes p p.fallbacks 0 events) :
      Settled p events (.responds (p.sent ⟨404, OrderedMap.ofList
        [(str "Content-Type", str "text/plain; charset=UTF-8"),
          (str "Content-Length", ofNat (encode (str "File not found. :(")).length)],
        .bytes (encode (str "File not found. :("))⟩))

structure PageFallback (p : Planner) : Prop where
  asked : ∀ past path next, Run (start p.config p.request p.mime) past (.ask (.opens path) next) →
    Own p past path ∨
    path = p.errorName ∧ (∀ prior more, past = prior ++ more → ¬FallsBack p prior) ∨
    ∃ i choice, Fallback p past i choice ∧ choice.path = path
  once : ∀ past event more i j choice other, Fallback p past i choice →
    Fallback p (past ++ event :: more) j other → i < j
  ends : ∀ prior events outcome, FallsBack p prior →
    Run (start p.config p.request p.mime) (prior ++ events) (.done outcome) → Settled p events outcome

section

variable {p : Planner}

theorem FallsBack.run {prior : Past} (fell : FallsBack p prior) (enabled : p.config.hasFallback = true) :
    Run (start p.config p.request p.mime) prior (p.chooseFrom p.terminal p.fallbacks 0) := by
  cases fell with
  | fell path answer direct resolves notDirectory passes =>
    exact (Trying.fallback path answer direct resolves notDirectory passes enabled).run

theorem FallsBack.unique {prior other more more' : Past} (fell : FallsBack p prior)
    (again : FallsBack p other) (same : prior ++ more = other ++ more') : prior = other := by
  cases fell with
  | fell path answer direct resolves notDirectory passes =>
    cases again with
    | fell path' answer' direct' resolves' notDirectory' passes' =>
      injection same with first same
      cases first
      rw [passes.unique passes' same]

theorem chosen_at {choices before after : List Choice} {choice : Choice}
    (split : choices = before ++ choice :: after) :
    choices[before.length]? = some choice ∧ choices.take before.length = before := by
  subst split
  simp

theorem asked_after {prior events : Past} {path : Str} {next : Option File → Step}
    (fell : FallsBack p prior) (enabled : p.config.hasFallback = true)
    (run : Run (start p.config p.request p.mime) (prior ++ events) (.ask (.opens path) next)) :
    ∃ i choice, Fallback p (prior ++ events) i choice ∧ choice.path = path := by
  have chosen := chooseFrom_chosen ((fell.run enabled).rest run)
  generalize same : p.fallbacks = choices at chosen
  cases chosen with
  | within before choice after _ tried tail _ passes within =>
    obtain ⟨chosen, taken⟩ := chosen_at same
    cases within with
    | asking =>
      refine ⟨before.length, choice, ⟨chosen, prior, tried, by rw [List.append_nil], fell, ?_⟩, rfl⟩
      rwa [taken]
  | missed _ _ tried rest _ passes run =>
    cases run

theorem once_after {past more : Past} {event : Sigma Query.Answer} {i j : Nat} {choice other : Choice}
    (first : Fallback p past i choice) (second : Fallback p (past ++ event :: more) j other) :
    i < j := by
  obtain ⟨prior, tried, rfl, fell, passes⟩ := first.reached
  obtain ⟨prior', tried', same, fell', passes'⟩ := second.reached
  rw [List.append_assoc] at same
  obtain rfl := fell.unique fell' same
  have later := List.append_cancel_left same
  by_contra before
  -- Otherwise the later history would be a beginning of the earlier one.
  have part : p.fallbacks.take i = p.fallbacks.take j ++ (p.fallbacks.take i).drop j := by
    have shorter : p.fallbacks.take j = (p.fallbacks.take i).take j := by
      rw [List.take_take, Nat.min_eq_left (Nat.le_of_not_lt before)]
    rw [shorter, List.take_append_drop]
  rw [part] at passes
  obtain ⟨one, two, rfl, earlier, _⟩ := passes.split
  rw [List.append_assoc] at later
  have whole : tried' ++ [] = one ++ (two ++ event :: more) := by
    rw [List.append_nil, later]
  have shorter := passes'.unique earlier whole
  rw [← shorter] at later
  have length := congrArg List.length later
  simp at length

theorem ends_after {prior events : Past} {outcome : Outcome} (fell : FallsBack p prior)
    (enabled : p.config.hasFallback = true)
    (run : Run (start p.config p.request p.mime) (prior ++ events) (.done outcome)) :
    Settled p events outcome := by
  have chosen := chooseFrom_chosen ((fell.run enabled).rest run)
  generalize same : p.fallbacks = choices at chosen
  cases chosen with
  | within before choice after _ tried tail _ passes within =>
    obtain ⟨chosen, taken⟩ := chosen_at same
    rw [← taken] at passes
    cases within with
    | served file sample _ regular taken =>
      exact .served before.length choice file sample tried tail chosen passes regular taken
    | changed => exact .changed _
  | missed _ _ tried rest _ passes run =>
    subst same
    cases run with
    | here =>
      rw [List.append_nil]
      exact .missing tried passes

end

/-- A page stands in for a file that is not there, and for nothing else. -/
theorem run_fallback (config : Config) (request : Request) (mime : MimeRegistry)
    (enabled : config.hasFallback = true) : PageFallback ⟨config, request, mime⟩ := by
  constructor
  case once => exact fun past event more i j choice other => once_after
  case ends => exact fun prior events outcome fell => ends_after fell enabled
  case asked =>
    intro past path next run
    by_cases fallen : ∃ prior more, past = prior ++ more ∧ FallsBack ⟨config, request, mime⟩ prior
    · obtain ⟨prior, more, rfl, fell⟩ := fallen
      exact Or.inr (Or.inr (asked_after fell enabled run))
    · have looks := run_looks run
      generalize asked : Query.opens path = query at looks
      cases looks with
      | resolved path resolves =>
        cases asked
        exact Or.inl (.requested path resolves)
      | candidate _ base index missing i choice turn =>
        cases asked
        obtain ⟨prior, tried, rfl, trying, passes⟩ := turn.reached
        cases trying with
        | direct _ answer resolves notDirectory =>
          exact Or.inl (.direct base answer tried i choice resolves notDirectory turn.chosen passes)
        | index path answer resolves directory enabled =>
          exact Or.inl (.index path answer tried i choice resolves directory enabled turn.chosen passes)
        | fallback path answer direct resolves notDirectory left =>
          exact absurd ⟨_, tried, rfl, .fell path answer direct resolves notDirectory left⟩ fallen
      | magic => cases asked
      | sample => cases asked
      | errorPage =>
        cases asked
        exact Or.inr (Or.inl ⟨rfl, fun prior more split fell => fallen ⟨prior, more, split, fell⟩⟩)
      | listing => cases asked

-- The page that stands in for missing files is the custom error page.
def fallbackConfig : Config :=
  { Config.default (str "/site") with
    tryFiles := some (str "404.html"), autoIndex := false, showDir := false }

def docsRequest : Request := ⟨.get, str "/docs", ∅⟩

def docsPast : Past := [opened (str "/site/docs") (some ⟨1, 2, 0, 0⟩)]

theorem run_fallback_page : PageFallback ⟨fallbackConfig, docsRequest, .new⟩ :=
  run_fallback fallbackConfig docsRequest .new rfl

-- The error page is looked for on behalf of a directory.
theorem error_page_falls_back : ¬∀ (config : Config) (request : Request) (mime : MimeRegistry),
    validateConfig config = .ok () → config.hasFallback = true →
    ∀ past path next, Run (start config request mime) past (.ask (.opens path) next) →
    path ∈ (Planner.fallbacks ⟨config, request, mime⟩).map Choice.path →
    Own ⟨config, request, mime⟩ past path ∨
      ∃ prior more, past = prior ++ more ∧ FallsBack ⟨config, request, mime⟩ prior := by
  intro always
  obtain ⟨next, run⟩ : ∃ next, Run (start fallbackConfig docsRequest .new) docsPast
      (.ask (.opens (str "/site/404.html")) next) := run_of_query (by decide +kernel)
  rcases always fallbackConfig docsRequest .new (by decide +kernel) rfl docsPast _ next run
    (by decide +kernel) with own | ⟨prior, more, same, fell⟩
  · generalize asked : str "/site/404.html" = path at own
    generalize before : docsPast = past at own
    cases own with
    | requested => cases before
    | direct path answer tried i choice resolves notDirectory =>
      injection before with first
      cases first
      exact notDirectory rfl
    | index path answer tried i choice resolves directory enabled => cases enabled
  · cases fell with
    | fell path answer direct resolves notDirectory =>
      injection same with first
      cases first
      exact notDirectory rfl

end HttpServer.StaticPlan
