import HttpServer.StaticPlan.Regions
import HttpServer.StaticPlan.Replies
import HttpServer.StaticPlan.Mirror

set_option autoImplicit false

namespace HttpServer.StaticPlan

open Unicode Text HttpServer.Core Dialogue

-- The gzip sibling of a file, as `Accept-Encoding` asks for it.
def sibling (base : Str) : Choice := ⟨base ++ str ".gz", base, some gzip⟩

def Follows (host : Host) (past : Past) : Prop := ∀ event ∈ past, event.2 = host event.1

/-- After `past` the host has a file for the sibling of `base` that does not begin as gzip does. -/
structure Fake (p : Planner) (host : Host) (past : Past) (base : Str) (index : Bool) (missing : Step)
    (i : Nat) (file : File) : Prop where
  turn : Turn p past base index missing i (sibling base)
  follows : Follows host past
  answer : host (.opens (base ++ str ".gz")) = some file
  regular : file.kind = 1
  noMagic : gzipMagic (host (.reads file 2)) = false

/-- A fake sibling is passed over, and only a forced representation ends a run. -/
structure Harmless (p : Planner) (host : Host) : Prop where
  passed : ∀ past base index missing i file, Fake p host past base index missing i file →
    ∀ next, Run (start p.config p.request p.mime) past (.ask (.opens (base ++ str ".gz")) next) →
      play host (next (some file)) =
        (examined file (host (.reads file 2)) :: (play host (next none)).1,
          (play host (next none)).2)
  changed : ending host (start p.config p.request p.mime) = .changed →
    ∃ path, p.Resolves path ∧ hasSuffix path (str ".gz") = true ∧
      p.config.forceContentEncoding = true

-- A fake sibling is the first choice for its file while encodings are forced.
def Tripped (p : Planner) (host : Host) : Prop :=
  p.config.forceContentEncoding = true ∧
    ∃ past base index missing file, Fake p host past base index missing 0 file

section

variable {p : Planner}

theorem sibling_ne (base : Str) : base ≠ base ++ str ".gz" := by
  intro same
  have length := congrArg List.length same
  rw [List.length_append] at length
  have some : (str ".gz").length = 3 := by decide
  omega

-- A gzip choice is the path itself, forced, or the sibling of the path.
theorem gzip_choice {base : Str} {index : Bool} {choice : Choice}
    (member : choice ∈ p.representations base index) (compressed : choice.encoding = some gzip) :
    index = false ∧ hasSuffix base (str ".gz") = true ∨ choice = sibling base := by
  have different : br ≠ gzip := by decide
  simp only [Planner.representations, List.mem_append] at member
  rcases member with (((forced | brotli) | zipped) | plain) | ext
  · unfold forcedChoices at forced
    split_ifs at forced with enabled brotli zipped
    · obtain rfl := List.mem_singleton.mp forced
      exact absurd (Option.some.inj compressed) different
    · simp only [Bool.and_eq_true, Bool.not_eq_true'] at enabled zipped
      exact Or.inl ⟨enabled.1, zipped.1⟩
    · cases forced
    · cases forced
  · split_ifs at brotli
    · obtain rfl := List.mem_singleton.mp brotli
      exact absurd (Option.some.inj compressed) different
    · cases brotli
  · split_ifs at zipped
    · exact Or.inr (List.mem_singleton.mp zipped)
    · cases zipped
  · obtain rfl := List.mem_singleton.mp plain
    cases compressed
  · exact absurd ((defaultChoices_plain choice ext).symm.trans compressed) (by simp)

-- The last choice for a file has no encoding, so something is left behind a sibling.
theorem sibling_followed {base : Str} {index : Bool} {i : Nat}
    (chosen : (p.representations base index)[i]? = some (sibling base)) :
    (p.representations base index).drop (i + 1) ≠ [] := by
  intro none_left
  obtain ⟨inside, _⟩ := List.getElem?_eq_some_iff.mp chosen
  have bound := List.drop_eq_nil_iff.mp none_left
  have last : (p.representations base index).getLast? = some (sibling base) := by
    rw [List.getLast?_eq_getElem?, ← chosen]
    congr 1
    omega
  have tail : ([⟨base, base, none⟩] ++ defaultChoices p.config base index : List Choice) ≠ [] := by
    simp
  rw [Planner.representations, List.append_assoc, List.getLast?_append_of_ne_nil _ tail] at last
  have plain : ∀ choice ∈ ([⟨base, base, none⟩] ++ defaultChoices p.config base index : List Choice),
      choice.encoding = none := by
    simp only [List.mem_append, List.mem_singleton]
    rintro choice (rfl | ext)
    · rfl
    · exact defaultChoices_plain choice ext
  exact absurd (plain _ (List.mem_of_getLast? last)) (by simp [sibling])

theorem Turn.run_sibling {past : Past} {base : Str} {index : Bool} {missing : Step} {i : Nat}
    (turn : Turn p past base index missing i (sibling base)) :
    ∃ next : Option File → Step,
      Run (start p.config p.request p.mime) past (.ask (.opens (base ++ str ".gz")) next) ∧
      next none = p.chooseFrom missing ((p.representations base index).drop (i + 1)) (i + 1) ∧
      ∀ file, file.kind = 1 → ∃ more : Bytes → Step,
        next (some file) = .reads file 2 more ∧ ∀ bytes, gzipMagic bytes = false →
          more bytes = if p.insists i (sibling base) then .done .changed else next none := by
  refine ⟨_, turn.run, rfl, ?_⟩
  intro file regular
  simp only [regular, if_true, sibling]
  refine ⟨_, rfl, ?_⟩
  intro bytes noMagic
  simp only [noMagic, Bool.false_eq_true, if_false]
  rfl

theorem insists_sibling (i : Nat) (base : Str) :
    p.insists i (sibling base) = (decide (i = 0) && p.config.forceContentEncoding) := by
  have suffix : hasSuffix (sibling base).path (str ".gz") = true := hasSuffix_append base (str ".gz")
  have other : ((sibling base).represented != (sibling base).path) = true :=
    bne_iff_ne.mpr (sibling_ne base)
  rw [Planner.insists, suffix, other, Bool.and_true, Bool.and_true]

theorem follows_play (host : Host) (d : Step) : Follows host (play host d).1 := by
  induction d with
  | done result =>
    intro event member
    cases member
  | ask query next ih =>
    intro event member
    rcases List.mem_cons.mp member with rfl | later
    · rfl
    · exact ih (host query) event later

theorem Follows.append {host : Host} {past more : Past} :
    Follows host (past ++ more) ↔ Follows host past ∧ Follows host more := by
  simp only [Follows, List.forall_mem_append]

section

variable {host : Host}

theorem Fake.passed {past : Past} {base : Str} {index : Bool} {missing : Step} {i : Nat} {file : File}
    (fake : Fake p host past base index missing i file)
    (lenient : p.insists i (sibling base) = false) {next : Option File → Step}
    (run : Run (start p.config p.request p.mime) past (.ask (.opens (base ++ str ".gz")) next)) :
    play host (next (some file)) =
      (examined file (host (.reads file 2)) :: (play host (next none)).1,
        (play host (next none)).2) := by
  obtain ⟨other, there, _, found⟩ := fake.turn.run_sibling
  cases run.unique there
  obtain ⟨more, reads, rest⟩ := found file fake.regular
  have left := rest _ fake.noMagic
  rw [lenient, if_neg (by simp)] at left
  rw [reads]
  change (examined file (host (.reads file 2)) :: (play host (more (host (.reads file 2)))).1,
    (play host (more (host (.reads file 2)))).2) = _
  rw [left]

-- Where the choice is insisted on, the run stops short of the next question.
theorem Fake.stopped {past : Past} {base : Str} {index : Bool} {missing : Step} {file : File}
    (fake : Fake p host past base index missing 0 file)
    (forced : p.config.forceContentEncoding = true) : ¬Harmless p host := by
  intro harmless
  obtain ⟨next, there, left, found⟩ := fake.turn.run_sibling
  obtain ⟨more, reads, rest⟩ := found file fake.regular
  have insists : p.insists 0 (sibling base) = true := by simp [insists_sibling, forced]
  have stops := rest _ fake.noMagic
  rw [insists, if_pos rfl] at stops
  have passed := harmless.passed past base index missing 0 file fake next there
  rw [reads] at passed
  change (examined file (host (.reads file 2)) :: (play host (more (host (.reads file 2)))).1,
    (play host (more (host (.reads file 2)))).2) = _ at passed
  rw [stops, left] at passed
  have same := congrArg (List.length ∘ Prod.fst) passed
  cases remaining : (p.representations base index).drop (0 + 1) with
  | nil => exact sibling_followed fake.turn.chosen remaining
  | cons choice choices =>
    rw [remaining] at same
    simp [play, Planner.chooseFrom, Step.opens] at same

theorem changed_forced (untripped : ¬Tripped p host)
    (changed : ending host (start p.config p.request p.mime) = .changed) :
    ∃ path, p.Resolves path ∧ hasSuffix path (str ".gz") = true ∧
      p.config.forceContentEncoding = true := by
  have run := play_run host (start p.config p.request p.mime)
  have follows := follows_play host (start p.config p.request p.mime)
  rw [changed] at run
  have finishes := run_finishes run
  generalize (play host (start p.config p.request p.mime)).1 = past at finishes follows
  generalize same : Outcome.changed = outcome at finishes
  cases finishes with
  | responds => cases same
  | next => cases same
  | trap => cases same
  | changed before path index missing i choice file bytes turn regular compressed noMagic insists =>
    have first : i = 0 ∧ p.config.forceContentEncoding = true := by
      simp only [Planner.insists, Bool.and_eq_true, decide_eq_true_eq] at insists
      exact insists.1.1
    obtain ⟨rfl, forced⟩ := first
    rcases gzip_choice (List.mem_of_getElem? turn.chosen) compressed with ⟨direct, suffix⟩ | sibling
    · obtain ⟨prior, passed, rfl, trying, passes⟩ := turn.reached
      subst direct
      cases trying with
      | direct _ answer resolves => exact ⟨path, resolves, suffix, forced⟩
    · subst sibling
      obtain ⟨earlier, last⟩ := Follows.append.mp follows
      have answered := last (opened (path ++ str ".gz") (some file)) (by simp [HttpServer.StaticPlan.sibling])
      have read := last (examined file bytes) (by simp)
      refine absurd ⟨forced, before, path, index, missing, file, turn, earlier, answered.symm, regular,
        ?_⟩ untripped
      rw [← noMagic]
      exact congrArg gzipMagic read.symm

end

end

/-- A sibling that is not gzip does no harm, unless encodings are forced and it comes first. -/
theorem siblings_harmless (config : Config) (request : Request) (mime : MimeRegistry) (host : Host) :
    Harmless ⟨config, request, mime⟩ host ↔ ¬Tripped ⟨config, request, mime⟩ host := by
  constructor
  · rintro harmless ⟨forced, past, base, index, missing, file, fake⟩
    exact fake.stopped forced harmless
  · intro untripped
    refine ⟨?_, changed_forced untripped⟩
    intro past base index missing i file fake next run
    apply fake.passed _ run
    rw [insists_sibling]
    by_contra insists
    simp only [Bool.not_eq_false, Bool.and_eq_true, decide_eq_true_eq] at insists
    obtain ⟨rfl, forced⟩ := insists
    exact untripped ⟨forced, past, base, index, missing, file, fake⟩

def forcedConfig : Config := { clipConfig with forceContentEncoding := true }

def noteRequest : Request where
  meth := .get
  target := str "/a.txt"
  headers := OrderedMap.ofList [(str "accept-encoding", str "gzip")]

-- A regular file of two bytes, `no`, at `/site/a.txt.gz`, and nothing else.
def fakeHost : Host
  | .opens path => if path = str "/site/a.txt.gz" then some ⟨1, 1, 2, 0⟩ else none
  | .reads _ _ => [0x6E, 0x6F]
  | .lists _ => []

-- The request is aborted, although it names no `.gz` file.
theorem fake_sibling_aborts : ¬∀ (config : Config) (request : Request) (mime : MimeRegistry)
    (host : Host), Harmless ⟨config, request, mime⟩ host := by
  intro always
  have changed : ending fakeHost (start forcedConfig noteRequest .new) = .changed := by
    decide +kernel
  obtain ⟨path, resolves, suffix, _⟩ := (always forcedConfig noteRequest .new fakeHost).changed changed
  have resolved : resolvePath forcedConfig.root forcedConfig.baseUrl noteRequest.target =
      .ok (str "/site/a.txt") := by decide +kernel
  obtain rfl : str "/site/a.txt" = path := by
    have both := resolved.symm.trans resolves.resolved
    cases both
    rfl
  exact absurd suffix (by decide)

end HttpServer.StaticPlan
