import HttpServer.Engine.Handle

set_option autoImplicit false

namespace HttpServer.Engine

open Unicode Text HttpServer.Core Dialogue
open StaticPlan (File ListingEntry Step)

inductive Errno where
  | enoent
  | enotdir
  | eacces
  | eperm
  | eloop
  | exdev
  | other
  deriving DecidableEq

inductive FileMode where
  | directory
  | regular
  | other
  deriving DecidableEq

structure Stat where
  mode : FileMode
  size : Int64
  seconds : Int64
  deriving DecidableEq

/-- What the calls to open a path leave: the code of a failure, or a descriptor that lies beneath
the root or does not, with what `fstat` says about it. -/
inductive Found where
  | noMemory
  | errno (e : Errno)
  | descriptor (beneath : Bool) (stat : Option Stat)
  deriving DecidableEq

def FileMode.kind : FileMode → Int32
  | .directory => 2
  | .regular => 1
  | .other => 0

def hsOpen : Found → Except Int32 Opened
  | .noMemory => throw (-7)
  | .errno e =>
      if e = .enoent ∨ e = .enotdir then throw (-6)
      else if e = .eacces ∨ e = .eperm ∨ e = .eloop ∨ e = .exdev then throw (-5)
      else throw (-4)
  | .descriptor beneath stat =>
      if !beneath then throw (-5)
      else match stat with
        | none => throw (-4)
        | some s => if s.mode.kind = 0 then throw (-5) else pure ⟨s.mode.kind, s.size, s.seconds⟩

def raiseCode (code : Int32) : NativeError :=
  if code = -3 then .fileChanged
  else if code = -5 then .forbidden
  else if code = -6 then .missing
  else if code = -7 then .overloaded
  else if code = -9 then .closed
  else if code = -8 then .unsupported
  else .io

def workerOpen (found : Found) : Except NativeError Opened := (hsOpen found).mapError raiseCode

inductive Inside : Found → Opened → Prop
  | directory (size seconds : Int64) :
      Inside (.descriptor true (some ⟨.directory, size, seconds⟩)) ⟨2, size, seconds⟩
  | regular (size seconds : Int64) :
      Inside (.descriptor true (some ⟨.regular, size, seconds⟩)) ⟨1, size, seconds⟩

def Vanished (found : Found) : Prop := found = .errno .enoent ∨ found = .errno .enotdir

/-- No permission, a loop of links, a place outside the root, or a special file. -/
inductive Barred : Found → Prop
  | permission (e : Errno) (denied : e = .eacces ∨ e = .eperm) : Barred (.errno e)
  | loop : Barred (.errno .eloop)
  | crossing : Barred (.errno .exdev)
  | outside (stat : Option Stat) : Barred (.descriptor false stat)
  | special (size seconds : Int64) : Barred (.descriptor true (some ⟨.other, size, seconds⟩))

inductive Told : Found → Except NativeError Opened → Prop
  | opened (found : Found) (file : Opened) (inside : Inside found file) : Told found (.ok file)
  | vanished (found : Found) (gone : Vanished found) : Told found (.error .missing)
  | barred (found : Found) (barred : Barred found) : Told found (.error .forbidden)
  | memory : Told .noMemory (.error .overloaded)
  | broken : Told (.errno .other) (.error .io)
  | unread : Told (.descriptor true none) (.error .io)

theorem workerOpen_told (found : Found) : Told found (workerOpen found) := by
  cases found with
  | noMemory => exact .memory
  | errno e =>
    cases e with
    | enoent => exact .vanished _ (.inl rfl)
    | enotdir => exact .vanished _ (.inr rfl)
    | eacces => exact .barred _ (.permission _ (.inl rfl))
    | eperm => exact .barred _ (.permission _ (.inr rfl))
    | eloop => exact .barred _ .loop
    | exdev => exact .barred _ .crossing
    | other => exact .broken
  | descriptor beneath stat =>
    cases beneath with
    | false => exact .barred _ (.outside stat)
    | true =>
      cases stat with
      | none => exact .unread
      | some stat =>
        obtain ⟨mode, size, seconds⟩ := stat
        cases mode with
        | directory => exact .opened _ _ (.directory size seconds)
        | regular => exact .opened _ _ (.regular size seconds)
        | other => exact .barred _ (.special size seconds)

def visible (config : Config) (names : List Str) : List Str :=
  names.filter fun name => config.showDotfiles || !hasPrefix name (str ".")

/-- The opening of one name: what was asked for it, and what came of it. -/
structure Look where
  name : Str
  asked : History Ask Ask.Answer
  outcome : Except Raised Opened

def entryOf (name : Str) (file : Opened) : ListingEntry :=
  { name
    isDir := file.kind = 2
    size := if file.kind = 2 then 0 else file.size
    mtimeSec := file.mtime
    isCompanion := false
    hasBr := false
    hasGz := false }

def Look.entry? (look : Look) : Option ListingEntry :=
  look.outcome.toOption.map (entryOf look.name)

def Look.Real (config : Config) (path : Str) (look : Look) : Prop :=
  Run (openFile config (path ++ str "/" ++ look.name)).run look.asked (.done look.outcome)

def missing : Except Raised Opened := .error (.native .missing)

def Look.Tolerated (look : Look) : Prop := look.outcome.isOk = true ∨ look.outcome = missing

def caught : Except Raised Opened → Except Raised (Option Opened)
  | .ok file => .ok (some file)
  | .error (.native .missing) => .ok none
  | .error e => .error e

theorem openExisting_eq (config : Config) (path : Str) :
    (openExisting config path).run = (openFile config path).run >>= fun outcome =>
      .done (caught outcome) := by
  unfold openExisting openFile
  cases relative config path with
  | none => rfl
  | some relative =>
    dsimp only
    split_ifs
    · refine congrArg (Dialogue.ask (Ask.opens relative)) (funext fun answer => ?_)
      cases answer with
      | ok file => rfl
      | error e => cases e <;> rfl
    · rfl

section

variable {config : Config} {path : Str}

-- What a listing does once it knows how the opening of `name` went.
def listAfter (config : Config) (path name : Str) (rest : List Str) :
    Except Raised Opened → Talk (Except Raised (List ListingEntry))
  | .ok file => (listEntries config path rest).run >>= fun later =>
      .done (later.map (entryOf name file :: ·))
  | .error (.native .missing) => (listEntries config path rest).run
  | .error e => .done (.error e)

theorem listAfter_error (name : Str) (rest : List Str) {e : Raised}
    (notMissing : e ≠ .native .missing) :
    listAfter config path name rest (.error e) = .done (.error e) := by
  cases e with
  | native e =>
    cases e with
    | missing => exact absurd rfl notMissing
    | fileChanged | forbidden | io | overloaded | closed | busy | unsupported => rfl
  | server | changed => rfl

theorem listEntries_hidden {name : Str} (rest : List Str)
    (hidden : (!config.showDotfiles && hasPrefix name (str ".")) = true) :
    listEntries config path (name :: rest) = listEntries config path rest := by
  rw [listEntries, if_pos hidden]

theorem listEntries_shown {name : Str} (rest : List Str)
    (shown : ¬(!config.showDotfiles && hasPrefix name (str ".")) = true) :
    (listEntries config path (name :: rest)).run =
      (openFile config (path ++ str "/" ++ name)).run >>= listAfter config path name rest := by
  rw [listEntries, if_neg shown]
  change (openExisting config (path ++ str "/" ++ name)).run >>= _ = _
  rw [openExisting_eq, bind_assoc]
  refine Dialogue.bind_congr fun outcome => ?_
  cases outcome with
  | ok file =>
    change (listEntries config path rest).run >>= _ = (listEntries config path rest).run >>= _
    refine Dialogue.bind_congr fun later => ?_
    cases later <;> rfl
  | error e =>
    cases e with
    | native e => cases e <;> rfl
    | server | changed => rfl

end

/-- How a listing of visible names ends: with an entry for every name that opens, where the others
are missing, or with the error of the first name that is refused. -/
inductive Listed (config : Config) (path : Str) (names : List Str) :
    History Ask Ask.Answer → Except Raised (List ListingEntry) → Prop
  | complete (looks : List Look) (real : ∀ look ∈ looks, look.Real config path)
      (all : looks.map Look.name = names) (tolerated : ∀ look ∈ looks, look.Tolerated) :
      Listed config path names (looks.flatMap Look.asked) (.ok (looks.filterMap Look.entry?))
  | refused (looks : List Look) (last : Look) (e : Raised)
      (real : ∀ look ∈ looks ++ [last], look.Real config path)
      (first : (looks ++ [last]).map Look.name <+: names)
      (tolerated : ∀ look ∈ looks, look.Tolerated)
      (failed : last.outcome = .error e) (notMissing : e ≠ .native .missing) :
      Listed config path names ((looks ++ [last]).flatMap Look.asked) (.error e)

section

variable {config : Config} {path : Str} {names : List Str} {past : History Ask Ask.Answer}
  {result : Except Raised (List ListingEntry)}

theorem Listed.opened (listed : Listed config path names past result) {look : Look} {file : Opened}
    (real : look.Real config path) (ok : look.outcome = .ok file) :
    Listed config path (look.name :: names) (look.asked ++ past)
      (result.map (entryOf look.name file :: ·)) := by
  have here : look.Tolerated := .inl (by rw [ok]; rfl)
  have entry : look.entry? = some (entryOf look.name file) := by rw [Look.entry?, ok]; rfl
  cases listed with
  | complete looks reals all tolerated =>
    have whole := Listed.complete (look :: looks) (List.forall_mem_cons.mpr ⟨real, reals⟩)
      (by rw [List.map_cons, all]) (List.forall_mem_cons.mpr ⟨here, tolerated⟩)
    rwa [List.filterMap_cons_some entry] at whole
  | refused looks last e reals first tolerated failed notMissing =>
    exact .refused (look :: looks) last e (List.forall_mem_cons.mpr ⟨real, reals⟩)
      (List.cons_prefix_cons.mpr ⟨rfl, first⟩) (List.forall_mem_cons.mpr ⟨here, tolerated⟩) failed
      notMissing

theorem Listed.skipped (listed : Listed config path names past result) {look : Look}
    (real : look.Real config path) (gone : look.outcome = missing) :
    Listed config path (look.name :: names) (look.asked ++ past) result := by
  have here : look.Tolerated := .inr gone
  have entry : look.entry? = none := by rw [Look.entry?, gone]; rfl
  cases listed with
  | complete looks reals all tolerated =>
    have whole := Listed.complete (look :: looks) (List.forall_mem_cons.mpr ⟨real, reals⟩)
      (by rw [List.map_cons, all]) (List.forall_mem_cons.mpr ⟨here, tolerated⟩)
    rwa [List.filterMap_cons_none entry] at whole
  | refused looks last e reals first tolerated failed notMissing =>
    exact .refused (look :: looks) last e (List.forall_mem_cons.mpr ⟨real, reals⟩)
      (List.cons_prefix_cons.mpr ⟨rfl, first⟩) (List.forall_mem_cons.mpr ⟨here, tolerated⟩) failed
      notMissing

theorem listed_refused {look : Look} (real : look.Real config path) {e : Raised}
    (failed : look.outcome = .error e) (notMissing : e ≠ .native .missing) (rest : List Str) :
    Listed config path (look.name :: rest) look.asked (.error e) := by
  have whole := Listed.refused [] look e (by simpa using real)
    (List.cons_prefix_cons.mpr ⟨rfl, List.nil_prefix⟩ : [look.name] <+: look.name :: rest) (by simp)
    failed notMissing
  rwa [List.nil_append, List.flatMap_singleton] at whole

theorem listEntries_listed (run : Run (listEntries config path names).run past (.done result)) :
    Listed config path (visible config names) past result := by
  induction names generalizing past result with
  | nil =>
    cases run
    exact .complete [] (by simp) rfl (by simp)
  | cons name rest ih =>
    have skips : (!config.showDotfiles && hasPrefix name (str ".")) =
        !(config.showDotfiles || !hasPrefix name (str ".")) := by
      rw [Bool.not_or, Bool.not_not]
    by_cases shown : (config.showDotfiles || !hasPrefix name (str ".")) = true
    · rw [listEntries_shown rest (by rw [skips, shown]; decide)] at run
      have more : visible config (name :: rest) = name :: visible config rest :=
        List.filter_cons_of_pos shown
      rw [more]
      obtain ⟨asked, outcome, later, real, continues, rfl⟩ := run.of_bind
      cases outcome with
      | ok file =>
        obtain ⟨front, entries, back, listing, ends, rfl⟩ := continues.of_bind
        cases ends
        have look : Look.Real config path ⟨name, asked, .ok file⟩ := real
        rw [List.append_nil]
        exact (ih listing).opened look rfl
      | error e =>
        have look : Look.Real config path ⟨name, asked, .error e⟩ := real
        by_cases gone : e = .native .missing
        · subst gone
          exact (ih continues).skipped look rfl
        · rw [listAfter_error name rest gone] at continues
          cases continues
          rw [List.append_nil]
          exact listed_refused look rfl gone _
    · rw [listEntries_hidden rest (by rw [skips]; simpa using shown)] at run
      have same : visible config (name :: rest) = visible config rest :=
        List.filter_cons_of_neg shown
      rw [same]
      exact ih run

end

def namesRead (config : Config) (names : List Str) : Sigma Ask.Answer :=
  ⟨.names config.limits.directoryMetadataBytes.toInt64, .ok names⟩

def Unread (config : Config) (past : History Ask Ask.Answer) : Prop :=
  ∀ names, namesRead config names ∉ past

theorem Unread.append {config : Config} {past more : History Ask Ask.Answer}
    (front : Unread config past) (back : Unread config more) : Unread config (past ++ more) := by
  intro names member
  exact (List.mem_append.mp member).elim (front names) (back names)

/-- How the listing of a directory goes in a plan that goes on with `complete`. -/
inductive ListStep (config : Config) (request : Request) (path : Str)
    (complete : List ListingEntry → Step) (files : List File) :
    History Ask Ask.Answer → Except Raised PlanResult → Prop
  | unread (past : History Ask Ask.Answer) (e : Raised) (unread : Unread config past) :
      ListStep config request path complete files past (.error e)
  | completed (front : History Ask Ask.Answer) (names : List Str)
      (asked : History Ask Ask.Answer) (entries : List ListingEntry)
      (later : History Ask Ask.Answer) (result : Except Raised PlanResult)
      (listed : Listed config path (visible config names) asked (.ok entries))
      (goes : Run (planSteps config request (complete entries) files).run later (.done result)) :
      ListStep config request path complete files
        (front ++ namesRead config names :: (asked ++ later)) result
  | failed (front : History Ask Ask.Answer) (names : List Str) (asked : History Ask Ask.Answer)
      (e : Raised) (listed : Listed config path (visible config names) asked (.error e)) :
      ListStep config request path complete files (front ++ namesRead config names :: asked)
        (.error e)

section

variable {config : Config} {request : Request} {path : Str} {past : History Ask Ask.Answer}

-- One question of the engine, and what is made of its answer.
theorem run_put {α : Type} {ask : Ask} {make : ask.Answer → Except Raised α}
    {result : Except Raised α} (run : Run (make <$> put ask : Talk _) past (.done result)) :
    ∃ answer, past = [⟨ask, answer⟩] ∧ result = make answer := by
  cases run with
  | answer answer rest =>
    cases rest
    exact ⟨answer, rfl, rfl⟩

theorem openFile_unread {result : Except Raised Opened}
    (run : Run (openFile config path).run past (.done result)) : Unread config past := by
  unfold openFile at run
  cases known : relative config path with
  | none =>
    rw [known] at run
    cases run
    simp [Unread]
  | some relative =>
    rw [known] at run
    dsimp only at run
    split_ifs at run
    · obtain ⟨answer, rfl, -⟩ := run_put run
      intro names member
      cases List.mem_singleton.mp member
    · cases run
      simp [Unread]

theorem listDirectory_run {result : Except Raised (List ListingEntry)}
    (run : Run (listDirectory config request path).run past (.done result)) :
    (Unread config past ∧ ∃ e, result = .error e) ∨
      ∃ front names asked, past = front ++ namesRead config names :: asked ∧
        Listed config path (visible config names) asked result := by
  obtain ⟨reserved, answer, rest, reserving, run, rfl⟩ := run.of_bind
  obtain ⟨charged, rfl, rfl⟩ := run_put reserving
  have quiet : Unread config [⟨.reserves true (Int32.ofNat request.target.length * 32 + 16384), charged⟩] := by
    intro names member
    cases List.mem_singleton.mp member
  cases charged with
  | error e =>
    cases run
    exact .inl ⟨by simpa using quiet, _, rfl⟩
  | ok =>
    obtain ⟨opening, outcome, rest, opened, run, rfl⟩ := run.of_bind
    have still := quiet.append (openFile_unread opened)
    cases outcome with
    | error e =>
      cases run
      exact .inl ⟨by simpa using still, _, rfl⟩
    | ok file =>
      obtain ⟨reading, outcome, asked, read, run, rfl⟩ := run.of_bind
      obtain ⟨answer, rfl, rfl⟩ := run_put read
      cases answer with
      | error e =>
        cases run
        have last : Unread config [⟨.names config.limits.directoryMetadataBytes.toInt64, .error e⟩] := by
          intro names member
          cases List.mem_singleton.mp member
        refine .inl ⟨?_, _, rfl⟩
        rw [List.append_nil, ← List.append_assoc]
        exact still.append last
      | ok names =>
        exact .inr ⟨_ ++ opening, names, asked, (List.append_assoc _ _ _).symm,
          listEntries_listed run⟩

theorem list_step {complete : List ListingEntry → Step} {files : List File}
    {result : Except Raised PlanResult}
    (run : Run (planSteps config request (.lists path complete) files).run past (.done result)) :
    ListStep config request path complete files past result ∧
      ∀ found, Told found (workerOpen found) := by
  refine ⟨?_, workerOpen_told⟩
  obtain ⟨listing, outcome, later, lists, goes, rfl⟩ := run.of_bind
  obtain ⟨unread, e, rfl⟩ | ⟨front, names, asked, rfl, listed⟩ := listDirectory_run lists
  · cases goes
    rw [List.append_nil]
    exact .unread _ e unread
  · cases outcome with
    | ok entries =>
      rw [List.append_assoc]
      exact .completed front names asked entries later result listed goes
    | error e =>
      cases goes
      rw [List.append_nil]
      exact .failed front names asked e listed

end

deriving instance DecidableEq for PlanResult

def publicRoot : Config := .default (str "public")

def rootRequest : Request := ⟨.get, str "/", ∅⟩

def rootEntry : Opened := ⟨2, 0, 0⟩

def openedAs (relative : String) (found : Found) : Sigma Ask.Answer :=
  ⟨.opens (str relative), workerOpen found⟩

def rootListed (names : List String) : History Ask Ask.Answer :=
  [⟨.reserves true (Int32.ofNat rootRequest.target.length * 32 + 16384), .ok ()⟩,
    ⟨.opens [], .ok rootEntry⟩, namesRead publicRoot (names.map str)]

def rootPlanned : History Ask Ask.Answer :=
  [⟨.opens [], .ok rootEntry⟩, openedAs "index.html" (.errno .enoent),
    openedAs "404.html" (.errno .enoent)]

theorem list_step_notes :
    ListStep publicRoot rootRequest (str "public") (fun _ => .done .next) []
        (rootListed ["notes", "gone"] ++
          [openedAs "notes" (.descriptor true (some ⟨.regular, 7, 0⟩)),
            openedAs "gone" (.errno .enoent)]) (.ok .next) ∧
      ∀ found, Told found (workerOpen found) :=
  list_step (run_of_result (by decide +kernel))

-- A colon in a name, a link that leads out, a special file and a file without permission end the
-- whole request.
theorem refused_name_ends_request :
    (∀ found ∈ [Found.descriptor false none, .descriptor true (some ⟨.other, 0, 0⟩), .errno .eacces],
      Run (planRequest publicRoot .new rootRequest).run
        (rootPlanned ++ rootListed ["notes", "out"] ++
          [openedAs "notes" (.descriptor true (some ⟨.regular, 7, 0⟩)), openedAs "out" found])
        (.done (.error (.native .forbidden)))) ∧
    Run (planRequest publicRoot .new rootRequest).run
      (rootPlanned ++ rootListed ["notes", "a:b"] ++
        [openedAs "notes" (.descriptor true (some ⟨.regular, 7, 0⟩))])
      (.done (.error (.native .forbidden))) := by
  refine ⟨?_, run_of_result (by decide +kernel)⟩
  simp only [List.forall_mem_cons, List.not_mem_nil, false_imp_iff, implies_true, and_true]
  exact ⟨run_of_result (by decide +kernel), run_of_result (by decide +kernel),
    run_of_result (by decide +kernel)⟩

end HttpServer.Engine
