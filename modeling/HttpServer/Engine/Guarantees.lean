import HttpServer.Engine.Lifetimes
import HttpServer.Native.Credits
import Mathlib.Data.Fintype.EquivFin

set_option autoImplicit false

namespace HttpServer.Shared

open HttpServer.Core OrderedMap Dialogue Routines

variable {config : Config} {mime : MimeRegistry} {s s' : EnginePool} {held : Holdings} {k : CallId}
  {h : Held}

abbrev EngineBooks (s : EnginePool) (held : Holdings) : Prop :=
  Books discipline World.truth Leaves Inv s held

def AtRest (s : EnginePool) : Prop :=
  ∀ k task, s.tasks.get k = some task → ∃ outcome, task.rest = .done outcome

theorem EngineBooks.returned {call : Call} {outcome : Outcome} (books : EngineBooks s held)
    (there : s.tasks.get k = some ⟨call, .done outcome⟩) :
    ∃ h known, held.get k = some h ∧ (∀ fact ∈ known, s.world.truth fact) ∧
      Leaves call h known outcome := by
  obtain ⟨h, has⟩ := books.of_task there
  obtain ⟨known, true_, leaves⟩ := books.kept k h _ has there
  exact ⟨h, known, has, true_, leaves⟩

theorem EngineBooks.asking {call : Call} {query : Ask} {next : query.Answer → Talk Outcome}
    (books : EngineBooks s held) (there : s.tasks.get k = some ⟨call, .ask query next⟩) :
    ∃ h known, held.get k = some h ∧ (∀ fact ∈ known, s.world.truth fact) ∧
      h.job = query.job? ∧ h.Asks known query := by
  obtain ⟨h, has⟩ := books.of_task there
  obtain ⟨known, true_, allowed, -⟩ := books.kept k h _ has there
  exact ⟨h, known, has, true_, allowed⟩

-- Who has returned holds nothing.
theorem EngineBooks.fresh (books : EngineBooks s held) (rest : AtRest s)
    (has : held.get k = some h) : h = .fresh h.late := by
  obtain ⟨⟨call, code⟩, there⟩ := books.of_held has
  obtain ⟨outcome, rfl⟩ := rest k _ there
  obtain ⟨known, -, leaves⟩ := books.kept k h _ has there
  exact leaves.rest

section

abbrev siteEngine : Stage World Call CallId Ask Ask.Answer Outcome :=
  engine (Config.default (str "/site")) .new

abbrev EngineLabel := Label Call CallId Ask Ask.Answer

def told (k : CallId) (query : Ask) (answer : query.Answer) : EngineLabel := .turn k ⟨query, answer⟩

def jobRun (k : CallId) (f : FileId) (op : Op) (value : op.Value) : List EngineLabel :=
  [told k (.submits f op) (.ok ()), told k (.finishes f op) (.ok value)]

def closeRun (k : CallId) (f : FileId) : List EngineLabel :=
  [told k (.shutsFile f) (), told k (.awaits (.still f)) (), told k (.freesFile f) ()]

def siteRequest : Request := ⟨.get, str "/a.bin", ∅⟩

-- The path is opened twice, and the second file is sent.
def siteBody : PlanBody := .fileRegion 2 0 5

def siteServes : List EngineLabel :=
  [.calls 0 (.handle siteRequest), told 0 .enters true] ++
    jobRun 0 root (.opens (str "a.bin")) ⟨1, 1, 5, 0⟩ ++
    jobRun 0 root (.opens (str "a.bin")) ⟨2, 1, 5, 0⟩ ++
    jobRun 0 1 .checks () ++ jobRun 0 2 .checks () ++ closeRun 0 1 ++
    [told 0 (.releases true 0) (), told 0 (.creates siteBody) (0 : Nat), told 0 .closing false,
      told 0 (.reserves false 131072) (.ok ()), told 0 (.registers 0 131072) (0 : Int32),
      told 0 .leaves ()]

def responseOf (s : EnginePool) : Response :=
  match s.results with
  | [.handled (.handled r)] => r
  | _ => ⟨0, ∅, 0, 0, 0⟩

def siteReads (r : Response) : List EngineLabel :=
  [.calls 1 (.read r 3), told 1 (.begins 0 true) (.ok ()), .calls 2 (.read r 3),
    told 2 (.begins 0 true) (.error .busy), told 1 (.body 0) siteBody, told 1 (.cursor 0) (0 : Int64)] ++
    jobRun 1 2 .checks () ++ jobRun 1 2 (.reads 0 3) [97, 98, 99] ++ [told 1 (.stopped 0) false]

def siteCloses : List EngineLabel :=
  [told 1 (.advances 0 3) (), told 1 (.ends 0) (), .calls 3 .closeEngine, told 3 .stops (),
    told 3 (.awaits .drained) (), told 3 .responses [(0 : Nat)], told 3 (.shuts 0) (),
    told 3 (.body 0) siteBody] ++ closeRun 3 2 ++
    [told 3 (.awaits (.quiet 0)) (), told 3 (.settles 0) (), told 3 .clears ()] ++ closeRun 3 root ++
    [told 3 .stopsRuntime true, told 3 (.awaits .rested) (), told 3 .freesPool ()]

def siteRefuses : List EngineLabel := [.calls 4 (.handle siteRequest), told 4 .enters false]

abbrev ServedFacts (s : EnginePool) : Prop :=
  s.world.Numbered ∧ (s.tasks.values.all fun task => task.rest.result?.isSome) = true ∧
    Outcome.handled (.handled (responseOf s)) ∈ s.results ∧ s.world.runtime.closed = false ∧
    s.world.runtime.body.owned = 131072

-- One call has read its bytes, and another was told that the body is busy.
abbrev ReadingFacts (s : EnginePool) : Prop :=
  s.world.Numbered ∧ (s.tasks.get 1).bind (·.rest.query?) = some (.advances 0 3)

abbrev ClosedFacts (s : EnginePool) : Prop :=
  s.world.Numbered ∧ s.world.closing = true ∧
    (s.tasks.get 3).map (·.call) = some .closeEngine ∧
    (s.tasks.get 3).bind (·.rest.result?) = some (.done (.ok ())) ∧ (s.tasks.get 4).isNone = true

abbrev RefusedFacts (s : EnginePool) : Prop :=
  s.world.Numbered ∧ (s.tasks.get 4).map (·.call) = some (.handle siteRequest) ∧
    (s.tasks.get 4).bind (·.rest.result?) = some (.handled (.error .closed))

def goesOn (labels : List EngineLabel) (s : EnginePool) (facts : EnginePool → Prop)
    [DecidablePred facts] (rest : EnginePool → Bool) : Bool :=
  (siteEngine.machine.exec labels s).any fun s => decide (facts s) && rest s

def closedGoesOn (s : EnginePool) : Bool := goesOn siteRefuses s RefusedFacts fun _ => true

def readingGoesOn (s : EnginePool) : Bool := goesOn siteCloses s ClosedFacts closedGoesOn

def servedGoesOn (s : EnginePool) : Bool := goesOn (siteReads (responseOf s)) s ReadingFacts readingGoesOn

-- The whole run is evaluated here, once.
theorem site_goesOn : goesOn siteServes siteEngine.machine.init ServedFacts servedGoesOn = true := by
  decide +kernel

section

variable {labels : List EngineLabel} {s : EnginePool} {facts : EnginePool → Prop} [DecidablePred facts]
  {rest : EnginePool → Bool}

@[irreducible] def runTo (goes : goesOn labels s facts rest = true) : EnginePool :=
  (siteEngine.machine.exec labels s).get (Option.isSome_of_any goes)

theorem runTo_path (goes : goesOn labels s facts rest = true) :
    siteEngine.machine.Path s labels (runTo goes) := by
  unfold runTo
  exact Machine.path_of_exec (Option.some_get _).symm

theorem runTo_facts (goes : goesOn labels s facts rest = true) :
    facts (runTo goes) ∧ rest (runTo goes) = true := by
  unfold runTo
  have both := Option.get_of_any_eq_true _ _ goes
  exact (Bool.and_eq_true_iff.mp both).imp_left of_decide_eq_true

end

def siteServed : EnginePool := runTo site_goesOn

theorem siteServed_facts : ServedFacts siteServed ∧ servedGoesOn siteServed = true :=
  runTo_facts site_goesOn

theorem siteServed_reached : siteEngine.machine.Reachable siteServed := ⟨_, runTo_path site_goesOn⟩

def siteResponse : Response := responseOf siteServed

def siteReading : EnginePool := runTo siteServed_facts.2

theorem siteReading_facts : ReadingFacts siteReading ∧ readingGoesOn siteReading = true :=
  runTo_facts siteServed_facts.2

theorem siteReading_reached : siteEngine.machine.Reachable siteReading :=
  siteServed_reached.path (runTo_path siteServed_facts.2)

def siteClosed : EnginePool := runTo siteReading_facts.2

theorem siteClosed_facts : ClosedFacts siteClosed ∧ closedGoesOn siteClosed = true :=
  runTo_facts siteReading_facts.2

theorem siteClosed_reached : siteEngine.machine.Reachable siteClosed :=
  siteReading_reached.path (runTo_path siteReading_facts.2)

def siteRefused : EnginePool := runTo siteClosed_facts.2

theorem siteRefused_path : siteEngine.machine.Path siteClosed siteRefuses siteRefused :=
  runTo_path siteClosed_facts.2

theorem siteRefused_facts : RefusedFacts siteRefused := (runTo_facts siteClosed_facts.2).1

end

theorem atRest_of_all (all : (s.tasks.values.all fun task => task.rest.result?.isSome) = true) :
    AtRest s := by
  rintro k ⟨call, code⟩ there
  have member : (⟨call, code⟩ : Task Call Ask Ask.Answer Outcome) ∈ s.tasks.values :=
    List.mem_map.mpr ⟨(k, ⟨call, code⟩), (get_eq_some _ _ _).mp there, rfl⟩
  have ended := List.all_eq_true.mp all _ member
  cases code with
  | done outcome => exact ⟨outcome, rfl⟩
  | ask query next => cases ended

theorem EngineBooks.no_job (books : EngineBooks s held) {call : Call} {f : FileId} {op : Op}
    {next : Except Failure op.Value → Talk Outcome}
    (there : s.tasks.get k = some ⟨call, .ask (.finishes f op) next⟩) : f ∉ s.world.freed := by
  intro gone
  have inv := books.inv
  obtain ⟨h, known, has, -, job, -⟩ := EngineBooks.asking books there
  obtain ⟨file, found, closed⟩ := (inv.freed.mem f).mp gone
  have none_ := (inv.freed.still f file found closed).2
  have some_ : 0 < held.count fun h => decide (h.job = some f) := count_pos has (decide_eq_true job)
  rw [inv.jobs.file f file found] at none_
  omega

theorem EngineBooks.quiet_body (books : EngineBooks s held) {b : BodyId} {state : BodyState}
    (found : s.world.bodies.get b = some state) (released : state.released = true) :
    state.reading = false ∧ ∀ f, state.body.file? = some f → f ∈ s.world.freed := by
  obtain ⟨-, quiet, gone⟩ := books.inv.kept.settled b state found released
  exact ⟨quiet, fun f source => (books.inv.freed.mem f).mpr (gone f source)⟩

theorem EngineBooks.open_file (books : EngineBooks s held) (rest : AtRest s) {f : FileId} {file : File}
    (found : s.world.files.get f = some file) : f ∈ s.world.freed ∨ f = root ∨
      ∃ id b state, s.world.responses.get id = some b ∧ s.world.bodies.get b = some state ∧
        state.body.file? = some f := by
  have inv := books.inv
  cases closed : file.closed with
  | true => exact .inl ((inv.freed.mem f).mpr ⟨file, found, closed⟩)
  | false =>
    refine .inr ((inv.kept.file f file found closed).imp id ?_)
    rintro (⟨k, h, has, member⟩ | ⟨b, state, there, unreleased, source⟩)
    · rw [EngineBooks.fresh books rest has] at member
      cases member
    · rcases inv.owned.body b state there unreleased with ⟨id, present⟩ | ⟨k, h, has, own⟩
      · exact ⟨id, b, state, present, there, source⟩
      · rw [EngineBooks.fresh books rest has] at own
        cases own

/-- A file is freed once and for all, no job of it runs any more, and nobody reads a body that is
released. Between calls only the root and what registered responses send are open. -/
theorem files_freed (reached : (engine config mime).machine.Reachable s)
    (numbered : s.world.Numbered) :
    s.world.freed.Nodup ∧
      (∀ k call f op next, s.tasks.get k = some ⟨call, .ask (.finishes f op) next⟩ →
        f ∉ s.world.freed) ∧
      (∀ b state, s.world.bodies.get b = some state → state.released = true →
        state.reading = false ∧ ∀ f, state.body.file? = some f → f ∈ s.world.freed) ∧
      (AtRest s → ∀ f file, s.world.files.get f = some file → f ∈ s.world.freed ∨ f = root ∨
        ∃ id b state, s.world.responses.get id = some b ∧ s.world.bodies.get b = some state ∧
          state.body.file? = some f) := by
  obtain ⟨held, books⟩ := engine_books reached numbered
  exact ⟨books.inv.freed.nodup, fun _ _ _ _ _ there => EngineBooks.no_job books there,
    fun _ _ found released => EngineBooks.quiet_body books found released,
    fun rest _ _ found => EngineBooks.open_file books rest found⟩

theorem files_freed_site : siteServed.world.freed.Nodup ∧
    ∀ f file, siteServed.world.files.get f = some file → f ∈ siteServed.world.freed ∨ f = root ∨
      ∃ id b state, siteServed.world.responses.get id = some b ∧
        siteServed.world.bodies.get b = some state ∧ state.body.file? = some f := by
  obtain ⟨⟨numbered, rest, -⟩, -⟩ := siteServed_facts
  obtain ⟨once, -, -, open_⟩ := files_freed siteServed_reached numbered
  exact ⟨once, open_ (atRest_of_all rest)⟩

theorem EngineBooks.owed (books : EngineBooks s held) (rest : AtRest s)
    (live : s.world.runtime.closed = false) (directory : Bool) :
    (s.world.runtime.credits directory).owned =
      s.world.bodies.sum fun _ state => state.owes directory := by
  have nothing : (held.sum fun _ h => h.credits directory) = 0 := by
    refine sum_eq_zero fun k h has => ?_
    rw [EngineBooks.fresh books rest has]
    cases directory <;> rfl
  rw [books.inv.charged.owned live directory, nothing, zero_add]

theorem EngineBooks.owing (books : EngineBooks s held) (rest : AtRest s) {b : BodyId}
    {state : BodyState} {directory : Bool} (found : s.world.bodies.get b = some state)
    (owes : state.owes directory ≠ 0) :
    0 < state.owes directory ∧ ∃ id, s.world.responses.get id = some b := by
  have inv := books.inv
  have nonneg := inv.charged.bodies b state directory found
  refine ⟨by omega, ?_⟩
  have unreleased : state.released = false := by
    by_contra released
    exact owes (by simp [BodyState.owes, released])
  rcases inv.owned.body b state found unreleased with present | ⟨k, h, has, own⟩
  · exact present
  · rw [EngineBooks.fresh books rest has] at own
    cases own

/-- Between calls the pool owns what the registered responses owe, and nothing else; and it is freed
at most once. -/
theorem charges_owned (reached : (engine config mime).machine.Reachable s)
    (numbered : s.world.Numbered) (rest : AtRest s) :
    s.world.poolsFreed = s.world.runtime.closed.toNat ∧
      (s.world.runtime.closed = false → ∀ directory,
        (s.world.runtime.credits directory).owned =
          s.world.bodies.sum fun _ state => state.owes directory) ∧
      ∀ b state directory, s.world.bodies.get b = some state → state.owes directory ≠ 0 →
        0 < state.owes directory ∧ ∃ id, s.world.responses.get id = some b := by
  obtain ⟨held, books⟩ := engine_books reached numbered
  exact ⟨books.inv.closing.pool, fun live directory => EngineBooks.owed books rest live directory,
    fun _ _ _ found owes => EngineBooks.owing books rest found owes⟩

theorem charges_owned_site : siteServed.world.poolsFreed = 0 ∧
    siteServed.world.runtime.body.owned = 131072 ∧
    siteServed.world.bodies.sum (fun _ state => state.owes false) = 131072 := by
  obtain ⟨⟨numbered, rest, -, live, body⟩, -⟩ := siteServed_facts
  obtain ⟨pools, owned, -⟩ := charges_owned siteServed_reached numbered (atRest_of_all rest)
  have bodies : siteServed.world.runtime.credits false = siteServed.world.runtime.body :=
    if_neg Bool.false_ne_true
  refine ⟨by rw [pools, live]; rfl, body, ?_⟩
  rw [← owned live false, bodies]
  exact body

/-- What `handle` has returned is released or still registered, under its own key, which is nobody
else's. -/
theorem responses_registered (reached : (engine config mime).machine.Reachable s)
    (numbered : s.world.Numbered) {r : Response}
    (handled : Outcome.handled (.handled r) ∈ s.results) :
    (∃ state, s.world.bodies.get r.state = some state ∧
      (state.released = true ∨ s.world.responses.get r.id = some r.state)) ∧
      ∀ r', Outcome.handled (.handled r') ∈ s.results → (r'.id = r.id ↔ r'.state = r.state) := by
  obtain ⟨held, books⟩ := engine_books reached numbered
  have inv := books.inv
  have given (r : Response) (handled : Outcome.handled (.handled r) ∈ s.results) :
      (∃ state, s.world.bodies.get r.state = some state) ∧
        ∃ n, s.world.made[n]? = some r.state ∧ r.id = Int32.ofNat n := by
    obtain ⟨k, call, there⟩ := mem_results handled
    obtain ⟨h, known, -, true_, leaves⟩ := EngineBooks.returned books there
    obtain ⟨present, -, named⟩ := leaves.given r rfl
    obtain ⟨state, found, -⟩ := true_ _ present
    exact ⟨⟨state, found⟩, true_ _ named⟩
  have place {m n : Nat} {b : BodyId} (one : s.world.made[m]? = some b)
      (other : s.world.made[n]? = some b) : m = n := by
    obtain ⟨short, same⟩ := List.getElem?_eq_some_iff.mp one
    obtain ⟨short', same'⟩ := List.getElem?_eq_some_iff.mp other
    exact (List.Nodup.getElem_inj_iff inv.owned.nodup).mp (same.trans same'.symm)
  obtain ⟨⟨state, found⟩, n, there, id⟩ := given r handled
  refine ⟨⟨state, found, ?_⟩, fun r' handled' => ?_⟩
  · cases released : state.released with
    | true => exact .inl rfl
    | false =>
      rcases inv.owned.body r.state state found released with ⟨key, present⟩ | ⟨k, h, has, own⟩
      · obtain ⟨m, here, same⟩ := inv.owned.numbered key r.state present
        rw [id, ← place here there, ← same]
        exact .inr present
      · exact absurd (List.mem_of_getElem? there) (inv.owned.fresh k h r.state has own).1
  · obtain ⟨-, m, there', id'⟩ := given r' handled'
    have short {i : Nat} {b : BodyId} (found : s.world.made[i]? = some b) : i < 4294967296 := by
      obtain ⟨bound, -⟩ := List.getElem?_eq_some_iff.mp found
      have few : s.world.made.length ≤ 4294967296 := numbered
      omega
    constructor
    · intro same
      obtain rfl := key_inj (short there') (short there) (id'.symm.trans (same.trans id))
      rw [there] at there'
      exact (Option.some.inj there').symm
    · intro same
      rw [same] at there'
      rw [id, id', place there' there]

theorem responses_registered_site :
    ∃ state, siteServed.world.bodies.get siteResponse.state = some state ∧
      (state.released = true ∨
        siteServed.world.responses.get siteResponse.id = some siteResponse.state) :=
  (responses_registered siteServed_reached siteServed_facts.1.1 siteServed_facts.1.2.2.1).1

def Ask.moves? : Ask → Option BodyId
  | .takes b _ => some b
  | .advances b _ => some b
  | _ => none

theorem moves_reads {query : Ask} {known : Set Fact} {b : BodyId} (asks : h.Asks known query)
    (moves : query.moves? = some b) : h.reads = some b := by
  cases query with
  | takes b' count =>
    cases moves
    exact asks.1
  | advances b' count =>
    cases moves
    exact asks
  | _ => cases moves

/-- Only one call at a time moves a body on, and never one that is released. -/
theorem reads_exclusive (reached : (engine config mime).machine.Reachable s)
    (numbered : s.world.Numbered) {call : Call} {query : Ask} {next : query.Answer → Talk Outcome}
    {b : BodyId} (there : s.tasks.get k = some ⟨call, .ask query next⟩)
    (moves : query.moves? = some b) :
    (∃ state, s.world.bodies.get b = some state ∧ state.reading = true ∧ state.released = false) ∧
      ∀ k' call' query' next', s.tasks.get k' = some ⟨call', .ask query' next'⟩ →
        query'.moves? = some b → k' = k := by
  obtain ⟨held, books⟩ := engine_books reached numbered
  have inv := books.inv
  obtain ⟨h, known, has, -, -, asks⟩ := EngineBooks.asking books there
  have mine := moves_reads asks moves
  obtain ⟨state, found⟩ := inv.readers.known k h b has mine
  have count := inv.readers.reading b state found
  have some_ : 0 < held.count fun h => decide (h.reads = some b) := count_pos has (decide_eq_true mine)
  have few : (held.count fun h => decide (h.reads = some b)) ≤ 1 := by
    rw [← count]
    exact Bool.toNat_le _
  have reading : state.reading = true := by
    by_contra quiet
    have quiet : state.reading = false := by simpa using quiet
    rw [quiet] at count
    change 0 = _ at count
    omega
  refine ⟨⟨state, found, reading, ?_⟩, fun k' call' query' next' there' moves' => ?_⟩
  · by_contra released
    have quiet := (inv.kept.settled b state found (by simpa using released)).2.1
    rw [reading] at quiet
    cases quiet
  · obtain ⟨h', known', has', -, -, asks'⟩ := EngineBooks.asking books there'
    exact count_le_one few has (decide_eq_true mine) has' (decide_eq_true (moves_reads asks' moves'))

theorem reads_exclusive_site : ∃ state, siteReading.world.bodies.get 0 = some state ∧
    state.reading = true ∧ state.released = false := by
  obtain ⟨⟨numbered, asked⟩, -⟩ := siteReading_facts
  obtain ⟨call, next, there⟩ := asking_of asked
  exact (reads_exclusive siteReading_reached numbered there rfl).1

theorem EngineBooks.shut_down (books : EngineBooks s held) {outcome : Outcome}
    (returned : s.tasks.get k = some ⟨.closeEngine, .done outcome⟩) :
    s.world.planning = 0 ∧ s.world.responses = ∅ ∧ s.world.runtime.active = 0 ∧
      s.world.poolsFreed = 1 ∧ s.world.freed.Nodup ∧
      (∀ f, f ∈ s.world.freed ↔ ∃ file, s.world.files.get f = some file) ∧
      ∀ b state, s.world.bodies.get b = some state → state.released = true := by
  have inv := books.inv
  obtain ⟨h, known, -, true_, leaves⟩ := EngineBooks.returned books returned
  obtain ⟨⟨drained, empty, released⟩, rested, gone, closed⟩ := true_ _ (leaves.ended rfl)
  refine ⟨drained.2, empty, rested.2, ?_, inv.freed.nodup, fun f => ?_, released⟩
  · rw [inv.closing.pool, closed]
    rfl
  · rw [inv.freed.mem]
    refine ⟨fun ⟨file, found, _⟩ => ⟨file, found⟩, fun ⟨file, found⟩ => ⟨file, found, ?_⟩⟩
    by_contra opened
    rcases inv.kept.file f file found (by simpa using opened) with
      rfl | ⟨k, h, has, member⟩ | ⟨b, state, there, unreleased, -⟩
    · obtain ⟨other, same, isClosed⟩ := gone
      rw [found] at same
      cases same
      exact opened isClosed
    · by_cases planning : h.planning = true
      · exact inv.closing.not_drained has planning drained
      · rw [(inv.closing.planner k h has (by simpa using planning)).1] at member
        cases member
    · rw [released b state there] at unreleased
      cases unreleased

/-- When `close` has returned, everything is given back: each file is freed, once, and so is the
pool. -/
theorem closed_engine (reached : (engine config mime).machine.Reachable s)
    (numbered : s.world.Numbered) {outcome : Outcome}
    (returned : s.tasks.get k = some ⟨.closeEngine, .done outcome⟩) :
    s.world.planning = 0 ∧ s.world.responses = ∅ ∧ s.world.runtime.active = 0 ∧
      s.world.poolsFreed = 1 ∧ s.world.freed.Nodup ∧
      (∀ f, f ∈ s.world.freed ↔ ∃ file, s.world.files.get f = some file) ∧
      ∀ b state, s.world.bodies.get b = some state → state.released = true := by
  obtain ⟨held, books⟩ := engine_books reached numbered
  exact EngineBooks.shut_down books returned

theorem closed_engine_site : siteClosed.world.responses = ∅ ∧ siteClosed.world.poolsFreed = 1 := by
  obtain ⟨⟨numbered, -, called, ended, -⟩, -⟩ := siteClosed_facts
  obtain ⟨-, empty, -, once, -⟩ :=
    closed_engine siteClosed_reached numbered (returned_of called ended)
  exact ⟨empty, once⟩

theorem after_late {query : Ask} (answer : query.Answer) : (h.after query answer).late = h.late := by
  cases query with
  | submits f op => cases answer <;> rfl
  | finishes f op => cases op <;> cases answer <;> rfl
  | reserves directory bytes =>
    cases answer with
    | error e => rfl
    | ok _ => exact (add_rest h directory bytes.toInt).2.2.2.2.2
  | releases directory bytes => exact (add_rest h directory (-bytes.toInt)).2.2.2.2.2
  | begins b positive => cases answer <;> rfl
  | _ => rfl

theorem keeps_late (old : CallId → Prop) : Keeps (engine config mime) discipline World.truth
    World.Numbered (fun w _ => .fresh w.closing) Leaves fun w held =>
      Inv w held ∧ w.closing = true ∧ ∀ k h, ¬old k → held.get k = some h → h.late = true where
  turn := by
    rintro w w' held k h known query answer ⟨inv, closing, late⟩ has true_ allowed answered within
    obtain ⟨fits, kept, learnt, stays⟩ := engine_keeps.turn inv has true_ allowed answered within
    have stopping : w'.Stopping := stays .stopping ⟨closing, inv.closing.both ▸ closing⟩
    refine ⟨fits, ⟨kept, stopping.1, fun key other new there => ?_⟩, learnt, stays⟩
    rcases get_insert_eq_some.mp there with ⟨rfl, rfl⟩ | ⟨-, before⟩
    · exact (after_late answer).trans (late key h new has)
    · exact late key other new before
  waits := by
    rintro w w' held k h known query ⟨inv, closing, late⟩ has true_ allowed asleep
    obtain ⟨kept, stays⟩ := engine_keeps.waits inv has true_ allowed asleep
    have stopping : w'.Stopping := stays .stopping ⟨closing, inv.closing.both ▸ closing⟩
    exact ⟨⟨kept, stopping.1, late⟩, stays⟩
  calls := by
    rintro w held k results call ⟨inv, closing, late⟩ free returned admitted
    obtain ⟨kept, code⟩ := engine_keeps.calls inv free returned admitted
    refine ⟨⟨kept, closing, fun key h new there => ?_⟩, code⟩
    rcases get_insert_eq_some.mp there with ⟨rfl, rfl⟩ | ⟨-, before⟩
    · exact closing
    · exact late key h new before
  turn_bound := engine_keeps.turn_bound
  waits_bound := engine_keeps.waits_bound

-- After the engine was told to stop, a call that begins is a late one.
theorem late_books (reached : (engine config mime).machine.Reachable s)
    (closing : s.world.closing = true)
    {labels : List (Label Call CallId Ask Ask.Answer)}
    (path : (engine config mime).machine.Path s labels s') (numbered : s'.world.Numbered) :
    ∃ held, EngineBooks s' held ∧
      ∀ k h, s.tasks.get k = none → held.get k = some h → h.late = true := by
  obtain ⟨held, books⟩ := engine_books reached (engine_keeps.path_bound path numbered)
  have started : Books discipline World.truth Leaves
      (fun w held => Inv w held ∧ w.closing = true ∧
        ∀ key h, ¬s.tasks.get key ≠ none → held.get key = some h → h.late = true) s held := by
    refine ⟨⟨books.inv, closing, fun key h new has => ?_⟩, books.names, books.kept⟩
    rw [(books.names key).mpr (not_not.mp new)] at has
    cases has
  obtain ⟨held', books'⟩ := (keeps_late fun key => s.tasks.get key ≠ none).path path ⟨held, started⟩
    numbered
  exact ⟨held', ⟨books'.inv.1, books'.names, books'.kept⟩,
    fun k h later has => books'.inv.2.2 k h (not_not.mpr later) has⟩

/-- No call that begins after `close` has is given anything. -/
theorem refused_after_close (reached : (engine config mime).machine.Reachable s)
    (closing : s.world.closing = true)
    {labels : List (Label Call CallId Ask Ask.Answer)}
    (path : (engine config mime).machine.Path s labels s') (numbered : s'.world.Numbered)
    {call : Call} {outcome : Outcome} (later : s.tasks.get k = none)
    (returned : s'.tasks.get k = some ⟨call, .done outcome⟩) : call.refuses outcome := by
  obtain ⟨held, books, late⟩ := late_books reached closing path numbered
  obtain ⟨h, known, has, -, leaves⟩ := EngineBooks.returned books returned
  exact leaves.late (late k h later has)

theorem refused_after_close_site : siteEngine.machine.Path siteClosed siteRefuses siteRefused ∧
    (Call.handle siteRequest).refuses (.handled (.error .closed)) := by
  obtain ⟨⟨-, closing, -, -, later⟩, -⟩ := siteClosed_facts
  obtain ⟨numbered, called, ended⟩ := siteRefused_facts
  exact ⟨siteRefused_path, refused_after_close siteClosed_reached closing siteRefused_path numbered
    (Option.isNone_iff_eq_none.mp later) (returned_of called ended)⟩

section

variable {w : World} {known : Set Fact} {query : Ask}

theorem told_right {α : Type} [DecidableEq α] (right : α) (after : World) :
    World.told right right after = some after := told_some.mpr ⟨rfl, rfl⟩

theorem fresh_body (bodies : OrderedMap BodyId BodyState) : ∃ b, bodies.get b = none := by
  obtain ⟨b, absent⟩ := Infinite.exists_notMem_finset bodies.keys.toFinset
  exact ⟨b, (get_eq_none _ _).mpr (by simpa using absent)⟩

theorem submit_answered {f : FileId} {op : Op} {file : File} (found : w.files.get f = some file) :
    ∃ answer w', w.submit f op answer = some w' := by
  unfold World.submit
  rw [found]
  dsimp only
  cases w.refusesJob file op with
  | some e => exact ⟨.error e, w, told_right _ _⟩
  | none => exact ⟨.ok (), _, rfl⟩

theorem begin_answered {b : BodyId} {state : BodyState} {positive : Bool}
    (found : w.bodies.get b = some state) : ∃ answer w', w.beginRead b positive answer = some w' := by
  unfold World.beginRead
  rw [found]
  dsimp only
  cases w.refusesReader state positive with
  | some e => exact ⟨.error e, w, told_right _ _⟩
  | none => exact ⟨.ok (), _, rfl⟩

theorem take_answered {b : BodyId} {state : BodyState} {count : Int32}
    (found : w.bodies.get b = some state) (memory : state.body.file? = none) :
    ∃ bytes w', w.take b count bytes = some w' := by
  have some_ : ∃ result, World.chunk state count = some result := by
    unfold World.chunk
    split
    · exact ⟨_, rfl⟩
    · exact ⟨_, rfl⟩
    · next same =>
      rw [same] at memory
      cases memory
    · exact ⟨_, rfl⟩
  obtain ⟨⟨piece, body⟩, chunk⟩ := some_
  refine ⟨piece, w.onBody b fun state => { state with body }, ?_⟩
  simp only [World.take, found, Option.bind_some, chunk]
  exact told_right _ _

-- Only a wait can keep a call waiting.
theorem Inv.answered (inv : Inv w held)
    (true_ : ∀ fact ∈ known, w.truth fact) (asks : h.Asks known query)
    (ready : ∀ wait, query = .awaits wait → w.waits wait = false) (followed : query ≠ .hangs) :
    ∃ answer w', w.answer k query answer = some w' := by
  have onBody {b : BodyId} (here : .present b ∈ known) : ∃ state, w.bodies.get b = some state := by
    obtain ⟨state, found, -⟩ := true_ _ here
    exact ⟨state, found⟩
  cases query with
  | enters => exact ⟨_, _, told_right _ _⟩
  | closing => exact ⟨_, _, told_right _ _⟩
  | submits f op =>
    obtain ⟨file, found, -⟩ := true_ _ asks.1
    exact submit_answered found
  | finishes f op => exact ⟨.error .other, _, rfl⟩
  | awaits wait =>
    have free := ready wait rfl
    have awake : (k, wait) ∉ w.asleep := by
      intro asleep
      have waits := inv.sleepers _ asleep
      rw [free] at waits
      cases waits
    exact ⟨(), w, answering_some.mpr ⟨by simp [free, awake], rfl⟩⟩
  | freesFile f =>
    obtain ⟨file, found, -⟩ := true_ _ asks
    exact ⟨(), _, Option.map_eq_some_iff.mpr ⟨file, found, rfl⟩⟩
  | reserves directory bytes => exact ⟨.error _, _, told_right _ _⟩
  | creates body =>
    obtain ⟨b, fresh⟩ := fresh_body w.bodies
    exact ⟨b, _, answering_some.mpr ⟨by simp [fresh], rfl⟩⟩
  | registers b charge => exact ⟨_, _, told_right _ _⟩
  | body b =>
    obtain ⟨state, found⟩ := onBody asks
    exact ⟨state.body, w, Option.bind_eq_some_iff.mpr ⟨state, found, told_right _ _⟩⟩
  | cursor b =>
    obtain ⟨state, found⟩ := onBody asks
    exact ⟨state.cursor, w, Option.bind_eq_some_iff.mpr ⟨state, found, told_right _ _⟩⟩
  | stopped b =>
    obtain ⟨state, found⟩ := onBody asks
    exact ⟨_, w, Option.bind_eq_some_iff.mpr ⟨state, found, told_right _ _⟩⟩
  | begins b positive =>
    obtain ⟨state, found⟩ := onBody asks.1
    exact begin_answered found
  | takes b count =>
    obtain ⟨state, found, memory⟩ := true_ _ asks.2
    exact take_answered found memory
  | responses => exact ⟨_, _, told_right _ _⟩
  | stopsRuntime => exact ⟨_, _, told_right _ _⟩
  | writes bytes => exact ⟨.ok (), w, rfl⟩
  | pauses => exact ⟨.ok (), w, rfl⟩
  | hangs => exact absurd rfl followed
  | leaves | shutsFile f | releases directory bytes | forgets id | ends b | fails b | advances b count
  | shuts b | settles b | stops | clears | freesPool => exact ⟨(), _, rfl⟩

end

/-- Whatever the calls wait for: as long as one has not returned, one of them can go on, unless one
is stuck in a loop that was not followed to its end. -/
theorem progress (reached : (engine config mime).machine.Reachable s)
    (numbered : s.world.Numbered) (unfinished : ¬AtRest s) :
    (∃ k event s', (engine config mime).step (.turn k event) s = some s') ∨
      ∃ k call next, s.tasks.get k = some ⟨call, .ask .hangs next⟩ := by
  obtain ⟨held, books⟩ := engine_books reached numbered
  have inv := books.inv
  by_contra stuck
  obtain ⟨still, followed⟩ := not_or.mp stuck
  have blocked {k : CallId} {call : Call} {query : Ask} {next : query.Answer → Talk Outcome}
      (there : s.tasks.get k = some ⟨call, .ask query next⟩) :
      ∃ wait, query = .awaits wait ∧ s.world.waits wait = true := by
    obtain ⟨h, known, has, true_, -, asks⟩ := EngineBooks.asking books there
    by_contra free
    have ready (wait : Wait) (same : query = .awaits wait) : s.world.waits wait = false := by
      by_contra waits
      exact free ⟨wait, same, by simpa using waits⟩
    obtain ⟨answer, w', answered⟩ := inv.answered true_ asks ready fun same => by
      subst same
      exact followed ⟨k, call, next, there⟩
    exact still ⟨k, ⟨query, answer⟩, _, turn_of there answered⟩
  -- A call that holds anything has not returned, so it waits.
  have waiting {k : CallId} {h : Held} (has : held.get k = some h) (busy : h ≠ .fresh h.late) :
      ∃ wait known, h.job = none ∧ h.reads = none ∧ h.Waits known wait ∧
        s.world.waits wait = true := by
    obtain ⟨⟨call, code⟩, there⟩ := books.of_held has
    obtain ⟨known, true_, kept⟩ := books.kept k h _ has there
    cases code with
    | done outcome => exact absurd kept.rest busy
    | ask query next =>
      obtain ⟨wait, rfl, waits⟩ := blocked there
      obtain ⟨job, reads, ready⟩ := kept.1
      exact ⟨wait, known, job, reads, ready, waits⟩
  have idle {k : CallId} {h : Held} (has : held.get k = some h) : h.job = none := by
    by_contra job
    obtain ⟨wait, known, none_, -⟩ := waiting has fun same => job (by rw [same]; rfl)
    exact job none_
  have quiet {k : CallId} {h : Held} (has : held.get k = some h) : h.reads = none := by
    by_contra reads
    obtain ⟨wait, known, -, none_, -⟩ := waiting has fun same => reads (by rw [same]; rfl)
    exact reads none_
  have noJob {f : FileId} (waits : s.world.waits (.still f) = true) : False := by
    simp only [World.waits, Option.any_eq_true, decide_eq_true_eq] at waits
    obtain ⟨file, found, some_⟩ := waits
    rw [inv.jobs.file f file found] at some_
    obtain ⟨k, h, has, job⟩ := exists_of_count some_
    simp [idle has] at job
  have noReader {b : BodyId} (waits : s.world.waits (.quiet b) = true) : False := by
    simp only [World.waits, Option.any_eq_true] at waits
    obtain ⟨state, found, reading⟩ := waits
    have count := inv.readers.reading b state found
    rw [reading] at count
    have some_ : 0 < held.count fun h => decide (h.reads = some b) := by
      rw [← count]
      exact Nat.one_pos
    obtain ⟨k, h, has, reads⟩ := exists_of_count some_
    simp [quiet has] at reads
  have noRest (waits : s.world.waits .rested = true) : False := by
    simp only [World.waits, decide_eq_true_eq] at waits
    rw [inv.jobs.runtime] at waits
    obtain ⟨k, h, has, job⟩ := exists_of_count waits
    simp [idle has] at job
  have noPlan (waits : s.world.waits .drained = true) : False := by
    simp only [World.waits, decide_eq_true_eq] at waits
    rw [inv.closing.planning] at waits
    obtain ⟨k, h, has, planning⟩ := exists_of_count waits
    obtain ⟨wait, known, -, -, ready, waits⟩ := waiting has fun same => by
      rw [same] at planning
      cases planning
    cases wait with
    | still f => exact noJob waits
    | quiet b => exact noReader waits
    | drained => exact absurd ready.2 (by simp [planning])
    | rested => exact absurd ready.2 (by simp [planning])
  obtain ⟨k, more⟩ := not_forall.mp unfinished
  obtain ⟨⟨call, code⟩, more⟩ := not_forall.mp more
  obtain ⟨there, more⟩ := Classical.not_imp.mp more
  cases code with
  | done outcome => exact more ⟨outcome, rfl⟩
  | ask query next =>
    obtain ⟨wait, -, waits⟩ := blocked there
    cases wait with
    | still f => exact noJob waits
    | quiet b => exact noReader waits
    | drained => exact noPlan waits
    | rested => exact noRest waits

theorem progress_site : (∃ k event s', siteEngine.step (.turn k event) siteReading = some s') ∨
    ∃ k call next, siteReading.tasks.get k = some ⟨call, .ask .hangs next⟩ := by
  obtain ⟨⟨numbered, asked⟩, -⟩ := siteReading_facts
  obtain ⟨call, next, there⟩ := asking_of asked
  refine progress siteReading_reached numbered fun rest => ?_
  obtain ⟨outcome, ended⟩ := rest 1 _ there
  cases ended

/-- The credits of the engine are those of its pool in the budget that it shares with others. -/
structure Credits.Of (c : Credits) (q : Native.Pool) (directory : Bool) : Prop where
  owned : c.owned = q.owned directory
  limit : c.limit.toInt = q.limit directory

section

variable {c : Credits} {b b' : Native.Budget} {p : Native.PoolId} {q : Native.Pool} {directory : Bool}
  {bytes : Int32} {outstanding : Int}

-- What the budget grants, the credits of the pool do not refuse.
theorem Credits.Of.reserve (of : c.Of q directory) (balance : Native.Balance b outstanding)
    (positive : 0 ≤ outstanding) (present : b.pools.get p = some q)
    (granted : Native.hsIoReserve b p directory bytes.toInt = some b') :
    ∃ c' q', c.reserve bytes = some c' ∧ b'.pools.get p = some q' ∧ c'.Of q' directory := by
  obtain ⟨rfl, nonneg, room⟩ := Native.reserve_some granted
  have mine : q.owned directory ≤ b.pools.sum fun _ q => q.owned directory :=
    le_sum present fun key other there => balance.owned directory key other there
  have used := balance.used directory
  have most := room p q present
  have allowed : ¬(bytes.toInt < 0 ∨ c.limit.toInt - bytes.toInt < c.owned) := by
    have owned := of.owned
    have limit := of.limit
    split_ifs at used <;> omega
  refine ⟨{ c with owned := c.owned + bytes.toInt }, q.own directory bytes.toInt,
    by rw [Credits.reserve, if_neg allowed], get_modify_some _ present |>.trans (by simp), ?_, ?_⟩
  · rw [Native.owned_own, if_pos rfl, of.owned]
  · rw [Native.limit_own]
    exact of.limit

theorem Credits.Of.release (of : c.Of q directory) (present : b.pools.get p = some q) :
    ∃ q', (Native.hsIoRelease b p directory bytes.toInt).pools.get p = some q' ∧
      (c.release bytes).Of q' directory := by
  unfold Native.hsIoRelease Credits.release
  rw [present, of.owned]
  dsimp only
  split_ifs with enough
  · refine ⟨q.own directory (-bytes.toInt), get_modify_some _ present |>.trans (by simp), ?_, ?_⟩
    · rw [Native.owned_own, if_pos rfl]
      rfl
    · rw [Native.limit_own]
      exact of.limit
  · exact ⟨q, present, of⟩

end

end HttpServer.Shared
