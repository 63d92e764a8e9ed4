import HttpServer.Engine.Guarantees

set_option autoImplicit false

/-!
# An engine from its first response to its end

Everything that the calls of an engine take is given back once, as long as no key of a response is
used again. The keys are counted up and begin anew after 2^32 responses.
-/

namespace HttpServer.Shared

open HttpServer.Core OrderedMap Dialogue Routines Text

/-- In every interleaving of the calls: files, charges and readers, the state in which `close` has
returned, and what begins after it. -/
theorem engine_lifecycle {config : Config} {mime : MimeRegistry} {s : EnginePool}
    (reached : (engine config mime).machine.Reachable s) (numbered : s.world.Numbered) :
    (s.world.freed.Nodup ∧ (AtRest s → ∀ f file, s.world.files.get f = some file →
        f ∈ s.world.freed ∨ f = root ∨ ∃ id b state, s.world.responses.get id = some b ∧
          s.world.bodies.get b = some state ∧ state.body.file? = some f)) ∧
      (s.world.poolsFreed = s.world.runtime.closed.toNat ∧
        (AtRest s → s.world.runtime.closed = false → ∀ directory,
          (s.world.runtime.credits directory).owned =
            s.world.bodies.sum fun _ state => state.owes directory) ∧
        (AtRest s → ∀ b state directory, s.world.bodies.get b = some state →
          state.owes directory ≠ 0 →
            0 < state.owes directory ∧ ∃ id, s.world.responses.get id = some b)) ∧
      ((∀ k call f op next, s.tasks.get k = some ⟨call, .ask (.finishes f op) next⟩ →
          f ∉ s.world.freed) ∧
        ∀ b state, s.world.bodies.get b = some state → state.released = true →
          state.reading = false ∧ ∀ f, state.body.file? = some f → f ∈ s.world.freed) ∧
      (∀ k outcome, s.tasks.get k = some ⟨.closeEngine, .done outcome⟩ →
        s.world.planning = 0 ∧ s.world.responses = ∅ ∧
          (∀ f, f ∈ s.world.freed ↔ ∃ file, s.world.files.get f = some file) ∧
          ∀ b state, s.world.bodies.get b = some state →
            state.released = true ∧ ∀ directory, state.owes directory = 0) ∧
      ∀ labels s', s.world.closing = true → (engine config mime).machine.Path s labels s' →
        s'.world.Numbered → ∀ k call outcome, s.tasks.get k = none →
          s'.tasks.get k = some ⟨call, .done outcome⟩ → call.refuses outcome := by
  obtain ⟨held, books⟩ := engine_books reached numbered
  refine ⟨⟨books.inv.freed.nodup, fun rest _ _ found => EngineBooks.open_file books rest found⟩,
    ⟨books.inv.closing.pool, fun rest live directory => EngineBooks.owed books rest live directory,
      fun rest _ _ _ found owes => EngineBooks.owing books rest found owes⟩,
    ⟨fun _ _ _ _ _ there => EngineBooks.no_job books there,
      fun _ _ found released => EngineBooks.quiet_body books found released⟩,
    fun k outcome returned => ?_, fun labels s' closing path within k call outcome later returned => ?_⟩
  · obtain ⟨planning, empty, -, -, -, freed, released⟩ := EngineBooks.shut_down books returned
    refine ⟨planning, empty, freed, fun b state found => ⟨released b state found, fun directory => ?_⟩⟩
    simp [BodyState.owes, released b state found]
  · obtain ⟨held', books', late⟩ := late_books reached closing path within
    obtain ⟨h, known, has, -, leaves⟩ := EngineBooks.returned books' returned
    exact leaves.late (late k h later has)

theorem engine_lifecycle_site : siteClosed.world.freed.Nodup ∧ siteClosed.world.responses = ∅ ∧
    (∀ f, f ∈ siteClosed.world.freed ↔ ∃ file, siteClosed.world.files.get f = some file) ∧
    siteEngine.machine.Path siteClosed siteRefuses siteRefused ∧
    (Call.handle siteRequest).refuses (.handled (.error .closed)) := by
  obtain ⟨⟨numbered, closing, called, ended, later⟩, -⟩ := siteClosed_facts
  obtain ⟨numbered', called', ended'⟩ := siteRefused_facts
  obtain ⟨⟨once, -⟩, -, -, shut, refuses⟩ := engine_lifecycle siteClosed_reached numbered
  obtain ⟨-, empty, freed, -⟩ := shut _ _ (returned_of called ended)
  exact ⟨once, empty, freed, siteRefused_path, refuses _ _ closing siteRefused_path numbered' _ _ _
    (Option.isNone_iff_eq_none.mp later) (returned_of called' ended')⟩

def idleRequest : Request := ⟨.head, str "/%", ∅⟩

def idleResponse (b : BodyId) (id : Int32) : Response where
  status := 400
  headers := applySecurityHeaders (OrderedMap.ofList
      [(str "Content-Type", str "text/plain; charset=UTF-8"), (str "Content-Length", str "11")])
    (Config.default (str "/site")) .head
  state := b
  id
  blockSize := (Config.default (str "/site")).limits.bodyBlockBytes

def idlePast (b : BodyId) (id : Int32) : History Ask Ask.Answer :=
  [⟨.enters, true⟩, ⟨.releases true 0, ()⟩, ⟨.creates .empty, b⟩, ⟨.closing, false⟩,
    ⟨.reserves false 0, .ok ()⟩, ⟨.registers b 0, id⟩, ⟨.leaves, ()⟩]

theorem idle_runs (b : BodyId) (id : Int32) : Run (siteEngine.code (.handle idleRequest)) (idlePast b id)
    (.done (.handled (.handled (idleResponse b id)))) := by
  refine .of_ask rfl ?_
  refine .of_ask rfl ?_
  refine .of_ask rfl ?_
  refine .of_ask rfl ?_
  refine .of_ask rfl ?_
  refine .of_ask rfl ?_
  refine .of_ask rfl ?_
  exact .here _

def closePast (r : Response) : History Ask Ask.Answer :=
  [⟨.shuts r.state, ()⟩, ⟨.body r.state, PlanBody.empty⟩, ⟨.awaits (.quiet r.state), ()⟩,
    ⟨.settles r.state, ()⟩, ⟨.forgets r.id, ()⟩]

theorem close_runs (r : Response) :
    Run (siteEngine.code (.close r)) (closePast r) (.done (.done (.ok ()))) := by
  refine .of_ask rfl ?_
  refine .of_ask rfl ?_
  refine .of_ask rfl ?_
  refine .of_ask rfl ?_
  refine .of_ask rfl ?_
  exact .here _

def endPast : History Ask Ask.Answer :=
  [⟨.stops, ()⟩, ⟨.awaits .drained, ()⟩, ⟨.responses, ([] : List BodyId)⟩, ⟨.clears, ()⟩,
    ⟨.shutsFile root, ()⟩, ⟨.awaits (.still root), ()⟩, ⟨.freesFile root, ()⟩, ⟨.stopsRuntime, true⟩,
    ⟨.awaits .rested, ()⟩, ⟨.freesPool, ()⟩]

theorem closeEngine_runs : Run (siteEngine.code .closeEngine) endPast (.done (.done (.ok ()))) := by
  refine .of_ask rfl ?_
  refine .of_ask rfl ?_
  refine .of_ask rfl ?_
  refine .of_ask rfl ?_
  refine .of_ask rfl ?_
  refine .of_ask rfl ?_
  refine .of_ask rfl ?_
  refine .of_ask rfl ?_
  refine .of_ask rfl ?_
  refine .of_ask rfl ?_
  exact .here _

theorem Credits.release_zero (c : Credits) : c.release 0 = c := by
  unfold Credits.release
  split_ifs
  · simp
  · rfl

theorem Credits.reserve_zero {c : Credits} (room : c.owned ≤ c.limit.toInt) : c.reserve 0 = some c := by
  have here : ¬((0 : Int32).toInt < 0 ∨ c.limit.toInt - (0 : Int32).toInt < c.owned) := by
    have zero : (0 : Int32).toInt = 0 := rfl
    omega
  rw [Credits.reserve, if_neg here]
  simp

theorem Runtime.setCredits_self (r : Runtime) (directory : Bool) :
    r.setCredits directory (r.credits directory) = r := by
  cases directory <;> rfl

theorem World.release_zero (w : World) (directory : Bool) : w.release directory 0 = w := by
  unfold World.release
  split_ifs
  · rfl
  · rw [Credits.release_zero, Runtime.setCredits_self]

/-- Nobody is being served, and the budget is not overdrawn. -/
structure World.Idle (w : World) : Prop where
  closing : w.closing = false
  planning : w.planning = 0
  live : w.runtime.closing = false
  opened : w.runtime.closed = false
  active : w.runtime.active = 0
  room : w.runtime.body.owned ≤ w.runtime.body.limit.toInt
  awake : w.asleep = []

variable {w : World} {b : BodyId}

theorem World.Idle.idle_answered (idle : w.Idle) (k : CallId) (fresh : w.bodies.get b = none) :
    ∃ bodies, bodies.get b = some ⟨.empty, 0, false, false, 0, false⟩ ∧
      (idlePast b (Int32.ofNat w.made.length)).foldlM (fun w event => w.answer k event.1 event.2) w =
        some { w with
          bodies
          made := w.made ++ [b]
          responses := w.responses.insert (Int32.ofNat w.made.length) b } := by
  refine ⟨(w.bodies.insert b ⟨.empty, 0, false, false, 0, false⟩).modify b
    fun state => { state with bodyCharge := 0 }, by simp, ?_⟩
  have reserve : w.runtime.body.reserve 0 = some w.runtime.body := Credits.reserve_zero idle.room
  have credits : w.runtime.credits false = w.runtime.body := rfl
  have same : w.runtime.setCredits false w.runtime.body = w.runtime := rfl
  simp [idlePast, World.answer, World.told, World.answering, World.release_zero, fresh, idle.closing,
    idle.live, idle.awake, World.reserve, World.register, World.onBody, World.broadcast, credits,
    reserve, same]

theorem World.Idle.close_answered (idle : w.Idle) (k : CallId) (r : Response)
    (found : w.bodies.get r.state = some ⟨.empty, 0, false, false, 0, false⟩) :
    ∃ bodies, (closePast r).foldlM (fun w event => w.answer k event.1 event.2) w =
      some { w with bodies, responses := w.responses.erase r.id } := by
  refine ⟨(w.bodies.modify r.state fun state => { state with closed := true }).modify r.state
    fun state => { state with body := World.closeStream state.body, released := true }, ?_⟩
  simp [closePast, World.answer, World.told, World.answering, World.release_zero, World.waits,
    World.onBody, World.settle, World.metadataCharge, found, idle.awake]

theorem World.Idle.end_answered (idle : w.Idle) (k : CallId) (none : w.responses = ∅)
    (found : w.files.get root = some ⟨false, false, 0⟩) :
    ∃ w', endPast.foldlM (fun w event => w.answer k event.1 event.2) w = some w' ∧
      w'.freed = w.freed ++ [root] ∧ ∀ f, f ≠ root → w'.files.get f = w.files.get f := by
  refine ⟨{ w with
    files := (w.files.modify root fun file => { file with closing := true }).modify root
      fun file => { file with closed := true }
    freed := w.freed ++ [root]
    responses := ∅
    closing := true
    runtime := { w.runtime with closing := true, closed := true }
    poolsFreed := w.poolsFreed + 1 }, ?_, rfl, fun f other => ?_⟩
  · have values : (∅ : OrderedMap Int32 BodyId).values = [] := rfl
    simp [endPast, World.answer, World.told, World.answering, World.waits, World.onFile,
      World.freeFile, found, none, values, idle.planning, idle.active, idle.opened, idle.awake]
  · change ((w.files.modify root _).modify root _).get f = w.files.get f
    rw [get_modify, if_neg other, get_modify, if_neg other]

theorem fresh_call (s : EnginePool) : ∃ k, s.tasks.get k = none := by
  obtain ⟨k, absent⟩ := Infinite.exists_notMem_finset s.tasks.keys.toFinset
  exact ⟨k, (get_eq_none _ _).mpr (by simpa using absent)⟩

theorem calls_of {s : EnginePool} {k : CallId} {call : Call} (free : s.tasks.get k = none)
    (admitted : call.admitted s.results = true) :
    siteEngine.machine.step (.calls k call) s =
      some ⟨s.world, s.tasks.insert k ⟨call, siteEngine.code call⟩⟩ := by
  have admits : siteEngine.admits s.results call = true := admitted
  have move : siteEngine.step (.calls k call) s =
      some ⟨s.world, s.tasks.insert k ⟨call, siteEngine.code call⟩⟩ := by
    simp [Stage.step, free, admits]
  exact move

-- A call that nobody interrupts.
theorem call_alone {s : EnginePool} {k : CallId} {call : Call} {outcome : Outcome} {w : World}
    {past : History Ask Ask.Answer} (free : s.tasks.get k = none)
    (admitted : call.admitted s.results = true)
    (run : Run (siteEngine.code call) past (.done outcome))
    (answered : past.foldlM (fun w event => w.answer k event.1 event.2) s.world = some w) :
    ∃ labels s', siteEngine.machine.Path s labels s' ∧ s'.world = w ∧
      s'.tasks.get k = some ⟨call, .done outcome⟩ := by
  obtain ⟨labels, tasks, path, ended⟩ :=
    path_of_run siteEngine run (get_insert_self s.tasks k ⟨call, siteEngine.code call⟩) answered
  exact ⟨_, ⟨w, tasks⟩, .step (calls_of free admitted) path, rfl, ended⟩

-- A request is answered at once, and the answer is dropped.
theorem idle_round {s : EnginePool} (idle : s.world.Idle) :
    ∃ labels s', siteEngine.machine.Path s labels s' ∧ s'.world.Idle ∧
      s'.world.made.length = s.world.made.length + 1 ∧
      s'.world.responses = s.world.responses.erase (Int32.ofNat s.world.made.length) ∧
      s'.world.files = s.world.files ∧ s'.world.freed = s.world.freed := by
  obtain ⟨b, fresh⟩ := fresh_body s.world.bodies
  obtain ⟨k, free⟩ := fresh_call s
  obtain ⟨bodies, found, answered⟩ := idle.idle_answered k fresh
  obtain ⟨first, s₁, path, handled, ended⟩ := call_alone free rfl (idle_runs b _) answered
  have given := results_mem ended
  have idle₁ : s₁.world.Idle := by
    rw [handled]
    exact { idle with }
  obtain ⟨k', free'⟩ := fresh_call s₁
  obtain ⟨bodies', answered'⟩ := idle₁.close_answered k'
    (idleResponse b (Int32.ofNat s.world.made.length)) (by rw [handled]; exact found)
  obtain ⟨second, s₂, path', dropped, -⟩ := call_alone free'
    (by simpa [Call.admitted, Call.response?] using given) (close_runs _) answered'
  refine ⟨_, s₂, path.append path', ?_⟩
  rw [dropped, handled]
  refine ⟨{ idle with }, ?_, ?_, rfl, rfl⟩
  · simp
  · simp [idleResponse]

theorem key_pos {n : Nat} (few : n + 1 < 4294967296) : Int32.ofNat (n + 1) ≠ 0 := fun same =>
  absurd (key_inj few (by decide) same) (Nat.succ_ne_zero n)

-- As long as the keys do not begin anew the first response stays where it is.
theorem idle_rounds {s : EnginePool} {b : BodyId} (idle : s.world.Idle)
    (count : s.world.made.length = 1) (one : s.world.responses = OrderedMap.ofList [(0, b)]) {n : Nat}
    (few : n < 4294967296) :
    ∃ labels s', siteEngine.machine.Path s labels s' ∧ s'.world.Idle ∧
      s'.world.made.length = n + 1 ∧ s'.world.responses = OrderedMap.ofList [(0, b)] ∧
      s'.world.files = s.world.files ∧ s'.world.freed = s.world.freed := by
  induction n with
  | zero => exact ⟨[], s, .here s, idle, count, one, rfl, rfl⟩
  | succ n ih =>
    obtain ⟨labels, s₁, path, idle₁, count₁, one₁, files, freed⟩ := ih (by omega)
    obtain ⟨more, s₂, path', idle₂, count₂, two, files', freed'⟩ := idle_round idle₁
    refine ⟨_, s₂, path.append path', idle₂, by omega, ?_, files'.trans files, freed'.trans freed⟩
    rw [two, count₁, one₁]
    apply erase_absent
    exact get_insert_ne ∅ b (key_pos few)

abbrev IdleFacts (s : EnginePool) : Prop :=
  (s.world.closing = false ∧ s.world.planning = 0 ∧ s.world.runtime.closing = false ∧
    s.world.runtime.closed = false ∧ s.world.runtime.active = 0 ∧
    s.world.runtime.body.owned ≤ s.world.runtime.body.limit.toInt ∧ s.world.asleep = []) ∧
  s.world.made.length = 1 ∧ s.world.responses = OrderedMap.ofList [((0 : Int32), (0 : BodyId))] ∧
  s.world.files.get root = some ⟨false, false, 0⟩ ∧ (s.world.files.get 2).isSome = true ∧
  2 ∉ s.world.freed

theorem siteServes_idle :
    goesOn siteServes siteEngine.machine.init IdleFacts (fun _ => true) = true := by
  decide +kernel

theorem file_forgotten : ∃ s : EnginePool, siteEngine.machine.Reachable s ∧
    (∃ k, s.tasks.get k = some ⟨.closeEngine, .done (.done (.ok ()))⟩) ∧
    ∃ f file, s.world.files.get f = some file ∧ f ∉ s.world.freed := by
  have start := runTo_path siteServes_idle
  obtain ⟨⟨⟨closing, planning, live, opened, active, room, awake⟩, count, one, found, file, kept⟩, -⟩ :=
    runTo_facts siteServes_idle
  have idle : (runTo siteServes_idle).world.Idle :=
    ⟨closing, planning, live, opened, active, room, awake⟩
  obtain ⟨labels, s₁, path, idle₁, count₁, one₁, files₁, freed₁⟩ :=
    @idle_rounds _ _ idle count one 4294967295 (by decide)
  obtain ⟨more, s₂, path', idle₂, -, two, files₂, freed₂⟩ := idle_round idle₁
  have again : Int32.ofNat s₁.world.made.length = 0 := by
    rw [count₁]
    rfl
  have none : s₂.world.responses = ∅ := by
    rw [two, one₁, again]
    rfl
  obtain ⟨k, free⟩ := fresh_call s₂
  obtain ⟨w, answered, freed, others⟩ :=
    idle₂.end_answered k none (by rw [files₂, files₁]; exact found)
  obtain ⟨last, s₃, path'', ended, returned⟩ := call_alone free rfl closeEngine_runs answered
  have reached : siteEngine.machine.Reachable s₃ := ⟨_, start.append (path.append (path'.append path''))⟩
  obtain ⟨file, there⟩ := Option.isSome_iff_exists.mp file
  refine ⟨s₃, reached, ⟨k, returned⟩, 2, file, ?_, ?_⟩
  · rw [ended, others 2 (by decide), files₂, files₁, there]
  · rw [ended, freed, freed₂, freed₁]
    simp [kept, root]

end HttpServer.Shared
