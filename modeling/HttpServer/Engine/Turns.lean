import HttpServer.Engine.Registry

set_option autoImplicit false

namespace HttpServer.Shared

open OrderedMap Routines
open Engine (NativeError ServerError)

theorem told_some {α : Type} [DecidableEq α] {right answer : α} {after w' : World} :
    World.told right answer after = some w' ↔ answer = right ∧ after = w' := by
  unfold World.told World.answering
  by_cases same : answer = right
  · simp [same]
  · simp [same]

theorem answering_some {right : Bool} {after w' : World} :
    World.answering right after = some w' ↔ right = true ∧ after = w' := by
  cases right <;> simp [World.answering]

variable {w w' : World} {held : Holdings} {k : CallId} {h : Held} {known : Set Fact} {f : FileId}
  {b : BodyId} {op : Op}

/-- What a question is answered with, and what comes of it. -/
structure Turn (w w' : World) (held : Holdings) (k : CallId) (h : Held) (query : Ask)
    (answer : query.Answer) : Prop where
  fits : h.Fits query answer
  inv : Inv w' (held.insert k (h.after query answer))
  learnt : ∀ fact ∈ learns query answer, w'.truth fact
  later : Later w w'

theorem Turn.same {query : Ask} {answer : query.Answer} (inv : Inv w held)
    (has : held.get k = some h) (fits : h.Fits query answer) (after : h.after query answer = h)
    (learnt : ∀ fact ∈ learns query answer, w.truth fact) : Turn w w held k h query answer where
  fits := fits
  inv := by
    rw [after, insert_same has]
    exact inv
  learnt := learnt
  later := .refl w

theorem Turn.of {query : Ask} {answer : query.Answer} {h' : Held}
    (step : Inv w' (held.insert k h') ∧ Later w w') (fits : h.Fits query answer)
    (after : h.after query answer = h') (learnt : ∀ fact ∈ learns query answer, w'.truth fact) :
    Turn w w' held k h query answer where
  fits := fits
  inv := after ▸ step.1
  learnt := learnt
  later := step.2

theorem Turn.rest {query : Ask} {answer : query.Answer} (has : held.get k = some h)
    (step : Inv w' held ∧ Later w w') (fits : h.Fits query answer)
    (after : h.after query answer = h) (learnt : ∀ fact ∈ learns query answer, w'.truth fact) :
    Turn w w' held k h query answer :=
  .of ⟨(insert_same has).symm ▸ step.1, step.2⟩ fits after learnt

theorem refusesJob_none {file : File} (free : w.refusesJob file op = none) :
    file.closing = false ∧ w.runtime.closing = false := by
  have running (free : (if file.closing || w.runtime.closing then some NativeError.closed else none) =
      none) : file.closing = false ∧ w.runtime.closing = false := by
    simpa using free
  cases op with
  | names budget =>
    simp only [World.refusesJob] at free
    split_ifs at free with busy closing
    simpa using closing
  | opens relative => exact running free
  | reads offset length => exact running free
  | checks => exact running free
  | sends offset length => exact running free

theorem Turn.submits {answer : Except NativeError Unit} (inv : Inv w held)
    (has : held.get k = some h) (idle : h.job = none) (answered : w.submit f op answer = some w') :
    Turn w w' held k h (.submits f op) answer := by
  have unchanged (e : NativeError) : Turn w w held k h (.submits f op) (.error e) :=
    .same inv has trivial rfl fun _ none_ => none_.elim
  unfold World.submit at answered
  split at answered
  · cases answered
  · next file found =>
    split at answered
    · next e raised _ =>
      obtain ⟨-, rfl⟩ := told_some.mp answered
      exact unchanged raised
    · next raised _ =>
      obtain ⟨-, rfl⟩ := told_some.mp answered
      exact unchanged raised
    · next free =>
      cases answered
      obtain ⟨opened, running⟩ := refusesJob_none free
      exact .of (inv.submitted has idle found opened running) trivial rfl fun _ none_ => none_.elim
    · cases answered

theorem learnsJob_error (e : Failure) : learnsJob op (.error e) = ∅ := by
  cases op <;> rfl

theorem Turn.finishes {answer : Except Failure op.Value} (inv : Inv w held)
    (has : held.get k = some h) (busy : h.job = some f) (gives : op.gives = true → h.planning = true)
    (answered : w.finish f op answer = some w') : Turn w w' held k h (.finishes f op) answer := by
  obtain ⟨ended, later⟩ := inv.ended has busy
  have now : (held.insert k { h with job := none }).get k = some { h with job := none } :=
    get_insert_self _ _ _
  have quiet {answer : Except Failure op.Value} (fits : h.FitsJob op answer)
      (after : h.afterJob op answer = { h with job := none }) (nothing : learnsJob op answer = ∅) :
      Turn w (w.jobEnded f) held k h (.finishes f op) answer :=
    .of ⟨ended, later⟩ fits after fun fact new => by
      change fact ∈ learnsJob op answer at new
      rw [nothing] at new
      cases new
  cases answer with
  | error e =>
    cases answered
    exact quiet (by cases op <;> trivial) (by cases op <;> rfl) (learnsJob_error e)
  | ok value =>
    cases op with
    | opens relative =>
      obtain ⟨fresh, rfl⟩ := answering_some.mp answered
      obtain ⟨opened, more⟩ := ended.opened (f := value.file) now (gives rfl)
        (Option.isNone_iff_eq_none.mp fresh)
      rw [insert_insert] at opened
      refine .of ⟨opened, later.trans more⟩ trivial rfl ?_
      rintro fact rfl
      exact ⟨_, get_insert_self _ _ _, trivial⟩
    | names budget =>
      obtain ⟨names, charge⟩ := value
      have live : w.runtime.closed = false := by
        by_contra dead
        have rested := (inv.closing.ended (by simpa using dead)).2.1.2
        have some_ : 0 < held.count fun h => h.job.isSome := count_pos has (by simp [busy])
        rw [inv.jobs.runtime] at rested
        omega
      obtain ⟨fits, granted, more⟩ := ended.reserves now (fun _ => gives rfl) live answered
      rw [insert_insert] at granted
      exact .of ⟨granted, later.trans more⟩ fits rfl fun _ none_ => none_.elim
    | reads offset length =>
      cases answered
      exact quiet trivial rfl rfl
    | checks =>
      cases answered
      exact quiet trivial rfl rfl
    | sends offset length =>
      cases answered
      exact quiet trivial rfl rfl

theorem Turn.awaits {wait : Wait} (inv : Inv w held) (has : held.get k = some h)
    (true_ : ∀ fact ∈ known, w.truth fact) (ready : h.Waits known wait)
    (free : w.waits wait = false) : Turn w w held k h (.awaits wait) () := by
  refine .same inv has trivial rfl ?_
  rintro fact new
  cases wait with
  | still f =>
    obtain rfl : fact = .stillFile f := new
    obtain ⟨file, found, closing⟩ := true_ _ ready
    refine ⟨file, found, closing, ?_⟩
    simpa [World.waits, found] using free
  | quiet b =>
    obtain rfl : fact = .quiet b := new
    obtain ⟨state, found, closed⟩ := true_ _ ready
    refine ⟨state, found, closed, ?_⟩
    simpa [World.waits, found] using free
  | drained =>
    obtain rfl : fact = .drained := new
    exact ⟨true_ _ ready.1, by simpa [World.waits] using free⟩
  | rested =>
    obtain rfl : fact = .rested := new
    exact ⟨true_ _ ready.1, by simpa [World.waits] using free⟩

theorem Turn.reserves {directory : Bool} {bytes : Int32} {answer : Except NativeError Unit}
    (inv : Inv w held) (has : held.get k = some h)
    (planner : directory = true → h.planning = true)
    (answered : w.answer k (.reserves directory bytes) answer = some w') :
    Turn w w' held k h (.reserves directory bytes) answer := by
  cases answer with
  | error e =>
    obtain ⟨-, rfl⟩ := told_some.mp answered
    exact .same inv has trivial rfl fun _ none_ => none_.elim
  | ok _ =>
    simp only [World.answer] at answered
    split_ifs at answered with closing
    have live : w.runtime.closed = false := by
      by_contra dead
      exact closing (inv.closing.ended (by simpa using dead)).1.1.1.2
    obtain ⟨fits, granted, later⟩ := inv.reserves has planner live answered
    exact .of ⟨granted, later⟩ fits rfl fun _ none_ => none_.elim

theorem Turn.begins {positive : Bool} {answer : Except ServerError Unit} (inv : Inv w held)
    (has : held.get k = some h) (idle : h.reads = none)
    (answered : w.beginRead b positive answer = some w') :
    Turn w w' held k h (.begins b positive) answer := by
  unfold World.beginRead at answered
  split at answered
  · cases answered
  · next state found =>
    split at answered
    · next e raised refused =>
      obtain ⟨rfl, rfl⟩ := told_some.mp answered
      refine .same inv has (fun late => ?_) rfl fun _ none_ => none_.elim
      have closing := inv.closing.late k h has late
      simp only [World.refusesReader, closing, Bool.or_true, if_true, Option.some.injEq] at refused
      rw [refused]
    · next free =>
      cases answered
      simp only [World.refusesReader] at free
      split_ifs at free with closed reading positive
      simp only [Bool.or_eq_true, not_or, Bool.not_eq_true] at closed
      refine .of (inv.begins has idle found closed.1 (by simpa using reading)) (fun late => ?_) rfl
        fun _ none_ => none_.elim
      have closing := inv.closing.late k h has late
      rw [closed.2] at closing
      cases closing
    · cases answered

theorem learns_source {body : PlanBody} {state : BodyState} (found : w.bodies.get b = some state)
    (source : state.body.file? = body.file?) (files : ∀ f, body.file? = some f → w.truth (.known f)) :
    ∀ fact ∈ sourceFacts b body, w.truth fact := by
  rintro fact (rfl | rfl | ⟨f, mine, rfl⟩)
  · exact ⟨state, found, trivial⟩
  · exact ⟨state, found, source⟩
  · exact files f mine

theorem Turn.body {answer : PlanBody} (inv : Inv w held) (has : held.get k = some h)
    (answered : w.answer k (.body b) answer = some w') : Turn w w' held k h (.body b) answer := by
  obtain ⟨state, found, told⟩ := Option.bind_eq_some_iff.mp answered
  obtain ⟨rfl, rfl⟩ := told_some.mp told
  refine .same inv has trivial rfl (learns_source found rfl fun f source => ?_)
  obtain ⟨file, known⟩ := inv.kept.source b state f found source
  exact ⟨file, known, trivial⟩

theorem Turn.creates {body : PlanBody} (inv : Inv w held) (has : held.get k = some h)
    (true_ : ∀ fact ∈ known, w.truth fact) (asks : h.Asks known (.creates body))
    (answered : w.answer k (.creates body) b = some w') :
    Turn w w' held k h (.creates body) b := by
  obtain ⟨planning, idle, positive, enough, files⟩ := asks
  obtain ⟨fresh, rfl⟩ := answering_some.mp answered
  have known_ (f : FileId) (source : body.file? = some f) : w.truth (.known f) :=
    true_ _ (files f source)
  have step := inv.creates has planning idle (Option.isNone_iff_eq_none.mp fresh) positive enough
    fun f source => by
      obtain ⟨file, found, -⟩ := known_ f source
      exact ⟨file, found⟩
  exact .of step trivial rfl (learns_source (get_insert_self _ _ _) rfl fun f source => known_ f source)

theorem Turn.registers {charge : Int32} {id : Int32} (inv : Inv w held)
    (has : held.get k = some h) (own : h.owns = some b) (positive : 0 ≤ charge.toInt)
    (enough : charge.toInt ≤ h.body) (within : w'.Numbered)
    (answered : w.answer k (.registers b charge) id = some w') :
    Turn w w' held k h (.registers b charge) id := by
  obtain ⟨rfl, rfl⟩ := told_some.mp answered
  have few : w.made.length < 4294967296 := by
    simp only [World.Numbered, World.register, List.length_append, List.length_singleton] at within
    omega
  refine .of (inv.registers has own positive enough few) trivial rfl ?_
  rintro fact (rfl | rfl)
  · exact List.mem_append_right _ (List.mem_singleton_self b)
  · exact ⟨w.made.length, by simp [World.register], rfl⟩

-- Shut, read and moved on: nothing that is owed changes.
theorem calm_of {change : BodyState → BodyState} (inv : Inv w held)
    (source : ∀ state, w.bodies.get b = some state →
      (change state).body.file? = state.body.file? ∧
        World.metadataCharge (change state).body = World.metadataCharge state.body)
    (closed : ∀ state, state.closed = true → (change state).closed = true)
    (reading : ∀ state, (change state).reading = state.reading)
    (released : ∀ state, (change state).released = state.released)
    (charge : ∀ state, (change state).bodyCharge = state.bodyCharge) :
    Inv (w.onBody b change) held ∧ Later w (w.onBody b change) := by
  refine inv.calm (fun state found => ?_) fun state _ => reading state
  obtain ⟨same, metadata⟩ := source state found
  refine ⟨⟨⟨same, closed state, fun _ quiet => (reading state).trans quiet,
    fun was => (released state).trans was⟩, released state, fun was => ?_⟩, charge state,
    fun directory => by simp only [BodyState.owes, released, charge, metadata]⟩
  exact (reading state).trans (inv.kept.settled b state found was).2.1

theorem chunk_source {state : BodyState} {count : Int32} {piece : Unicode.Bytes} {body : PlanBody}
    (chunk : World.chunk state count = some (piece, body)) :
    body.file? = state.body.file? ∧ World.metadataCharge body = World.metadataCharge state.body := by
  unfold World.chunk at chunk
  split at chunk <;> cases chunk <;> simp_all [PlanBody.file?, World.metadataCharge]

theorem Turn.takes {count : Int32} {bytes : Unicode.Bytes} (inv : Inv w held)
    (has : held.get k = some h) (answered : w.take b count bytes = some w') :
    Turn w w' held k h (.takes b count) bytes := by
  obtain ⟨⟨piece, body⟩, took, told⟩ := Option.bind_eq_some_iff.mp answered
  obtain ⟨state, found, chunk⟩ := Option.bind_eq_some_iff.mp took
  obtain ⟨-, rfl⟩ := told_some.mp told
  refine .rest has (calm_of inv (fun other there => ?_) (fun _ => id) (fun _ => rfl) (fun _ => rfl)
    fun _ => rfl) trivial rfl fun _ none_ => none_.elim
  rw [found] at there
  cases there
  exact chunk_source chunk

theorem Turn.settles (inv : Inv w held) (has : held.get k = some h)
    (true_ : ∀ fact ∈ known, w.truth fact) (asks : h.Asks known (.settles b)) :
    Turn w (w.settle b) held k h (.settles b) () := by
  obtain ⟨quiet, owner, source, learnt, freed⟩ := asks
  obtain ⟨state, found, closed, reading⟩ := true_ _ quiet
  obtain ⟨other, there, same⟩ := true_ _ learnt
  rw [found] at there
  cases there
  have mine : h.owns = some b ∨ b ∈ w.made := owner.imp id fun made => true_ (.made b) made
  have gone (f : FileId) (mine : state.body.file? = some f) :
      ∃ file, w.files.get f = some file ∧ file.closed = true :=
    true_ _ (freed f (same.symm.trans mine))
  obtain ⟨settled, later⟩ := inv.settles has found closed reading mine gone
  refine .of ⟨settled, later⟩ trivial rfl ?_
  rintro fact rfl
  exact ⟨state.settle, settle_body found, rfl⟩

theorem mem_values {responses : OrderedMap Int32 BodyId} :
    b ∈ responses.values ↔ ∃ id, responses.get id = some b := by
  simp only [OrderedMap.values, List.mem_map, Prod.exists, exists_eq_right, get_eq_some]

theorem Turn.ends {change : BodyState → BodyState} {query : Ask} {answer : query.Answer}
    (inv : Inv w held) (has : held.get k = some h) (true_ : ∀ fact ∈ known, w.truth fact)
    (reads : h.reads = some b ∨ h.reads = none ∧ .quiet b ∈ known)
    (quiet : ∀ state, (change state).reading = false)
    (source : ∀ state, (change state).body = state.body)
    (closed : ∀ state, state.closed = true → (change state).closed = true)
    (released : ∀ state, (change state).released = state.released)
    (charge : ∀ state, (change state).bodyCharge = state.bodyCharge) (fits : h.Fits query answer)
    (after : h.after query answer = { h with reads := none })
    (learnt : ∀ fact ∈ learns query answer, (∃ state, w.bodies.get b = some state) →
      ((w.onBody b change).broadcast (.quiet b)).truth fact) :
    Turn w ((w.onBody b change).broadcast (.quiet b)) held k h query answer := by
  have there : ∃ state, w.bodies.get b = some state ∧
      (h.reads = some b ∨ h.reads = none ∧ state.reading = false) := by
    rcases reads with mine | ⟨idle, known⟩
    · obtain ⟨state, found⟩ := inv.readers.known k h b has mine
      exact ⟨state, found, .inl mine⟩
    · obtain ⟨state, found, -, was⟩ := true_ _ known
      exact ⟨state, found, .inr ⟨idle, was⟩⟩
  obtain ⟨state, found, was⟩ := there
  exact .of (inv.stopsReading has found was (quiet state) (source state) (closed state)
    (released state) (charge state)) fits after fun fact new => learnt fact new ⟨state, found⟩

theorem freeFile_closed (answered : w.freeFile f = some w') : w'.OnFile f (·.closed = true) := by
  obtain ⟨file, found, rfl⟩ := Option.map_eq_some_iff.mp answered
  split_ifs with closed
  · exact ⟨file, found, closed⟩
  · exact ⟨_, get_modify_some _ found, by simp⟩

theorem Inv.turn {query : Ask} {answer : query.Answer} (inv : Inv w held)
    (has : held.get k = some h) (true_ : ∀ fact ∈ known, w.truth fact)
    (allowed : discipline.allows h known query) (answered : w.answer k query answer = some w')
    (within : w'.Numbered) : Turn w w' held k h query answer := by
  obtain ⟨job, asks⟩ := allowed
  have nothing {P : Fact → Prop} : ∀ fact ∈ (∅ : Set Fact), P fact := fun _ none_ => none_.elim
  cases query with
  | enters =>
    obtain ⟨rfl, same⟩ := told_some.mp answered
    have idle : h.planning = false := asks
    split_ifs at same with closing
    · subst same
      refine .same inv has (fun _ => by rw [closing]; rfl) ?_ nothing
      change { h with planning := !w.closing } = h
      rw [closing]
      change { h with planning := false } = h
      rw [← idle]
    · subst same
      have opened : w.closing = false := by simpa using closing
      refine .of (inv.enters has idle opened) (fun late => ?_) ?_ nothing
      · have closing := inv.closing.late k h has late
        rw [opened] at closing
        cases closing
      · change { h with planning := !w.closing } = _
        rw [opened]
        rfl
  | leaves =>
    cases answered
    obtain ⟨planning, files, owns, directory⟩ := asks
    exact .of (inv.leaves has planning files owns directory) trivial rfl nothing
  | closing =>
    obtain ⟨-, rfl⟩ := told_some.mp answered
    exact .same inv has trivial rfl nothing
  | submits f op => exact .submits inv has job answered
  | finishes f op => exact .finishes inv has job asks answered
  | shutsFile f =>
    cases answered
    obtain ⟨file, found, -⟩ := true_ _ asks
    refine .rest has inv.shutsFile trivial rfl ?_
    rintro fact rfl
    exact ⟨_, get_modify_some _ found, by simp⟩
  | awaits wait =>
    obtain ⟨free, rfl⟩ := answering_some.mp answered
    simp only [Bool.and_eq_true, Bool.not_eq_true'] at free
    exact .awaits inv has true_ asks.2 free.1
  | freesFile f =>
    obtain ⟨file, found, closing, still⟩ := true_ _ asks
    refine .of (inv.freesFile has found closing still answered) trivial rfl ?_
    rintro fact rfl
    exact freeFile_closed answered
  | reserves directory bytes => exact .reserves inv has asks answered
  | releases directory bytes =>
    cases answered
    exact .of (inv.releases has asks.1 asks.2) trivial rfl nothing
  | creates body => exact .creates inv has true_ asks answered
  | registers b charge => exact .registers inv has asks.1 asks.2.1 asks.2.2 within answered
  | forgets id =>
    cases answered
    obtain ⟨b, numbered, settled⟩ := asks
    obtain ⟨n, there, same⟩ := true_ _ numbered
    exact .rest has (inv.forgets within there same (true_ _ settled)) trivial rfl nothing
  | body b => exact .body inv has answered
  | cursor b =>
    obtain ⟨state, -, told⟩ := Option.bind_eq_some_iff.mp answered
    obtain ⟨-, rfl⟩ := told_some.mp told
    exact .same inv has trivial rfl nothing
  | stopped b =>
    obtain ⟨state, -, told⟩ := Option.bind_eq_some_iff.mp answered
    obtain ⟨-, rfl⟩ := told_some.mp told
    exact .same inv has trivial rfl nothing
  | begins b positive => exact .begins inv has asks.2 answered
  | ends b =>
    cases answered
    exact .ends inv has true_ asks (fun _ => rfl) (fun _ => rfl) (fun _ => id) (fun _ => rfl)
      (fun _ => rfl) trivial rfl fun _ none_ => none_.elim
  | fails b =>
    cases answered
    refine .ends inv has true_ (.inl asks) (fun _ => rfl) (fun _ => rfl) (fun _ _ => rfl) (fun _ => rfl)
      (fun _ => rfl) trivial rfl ?_
    rintro fact new ⟨state, found⟩
    rcases new with rfl | rfl
    · exact ⟨_, get_modify_some _ found, by simp⟩
    · exact ⟨_, get_modify_some _ found, by simp⟩
  | takes b count => exact .takes inv has answered
  | advances b count =>
    cases answered
    exact .rest has (calm_of inv (fun _ _ => ⟨rfl, rfl⟩) (fun _ => id) (fun _ => rfl) (fun _ => rfl)
      fun _ => rfl) trivial rfl nothing
  | shuts b =>
    cases answered
    obtain ⟨state, found, -⟩ := true_ _ asks
    refine .rest has (calm_of inv (fun _ _ => ⟨rfl, rfl⟩) (fun _ _ => rfl) (fun _ => rfl)
      (fun _ => rfl) fun _ => rfl) trivial rfl ?_
    rintro fact rfl
    exact ⟨_, get_modify_some _ found, by simp⟩
  | settles b =>
    cases answered
    exact .settles inv has true_ asks
  | stops =>
    cases answered
    refine .rest has inv.stops trivial rfl ?_
    rintro fact rfl
    exact ⟨rfl, rfl⟩
  | responses =>
    obtain ⟨rfl, rfl⟩ := told_some.mp answered
    refine .same inv has trivial rfl ?_
    rintro fact (rfl | ⟨b, member, new⟩)
    · exact ⟨true_ _ asks, fun id b present => mem_values.mpr ⟨id, present⟩⟩
    · obtain ⟨id, present⟩ := mem_values.mp member
      obtain ⟨n, there, -⟩ := inv.owned.numbered id b present
      have made : b ∈ w.made := List.mem_of_getElem? there
      rcases new with rfl | rfl
      · obtain ⟨state, found⟩ := inv.owned.present b made
        exact ⟨state, found, trivial⟩
      · exact made
  | clears =>
    cases answered
    obtain ⟨bodies, listed, settled⟩ := asks
    obtain ⟨drained, all⟩ := true_ _ listed
    obtain ⟨kept, later, cleared⟩ := inv.clears drained fun id b present =>
      true_ _ (settled b (all id b present))
    refine .rest has ⟨kept, later⟩ trivial rfl ?_
    rintro fact rfl
    exact cleared
  | stopsRuntime =>
    obtain ⟨rfl, same⟩ := told_some.mp answered
    have stopping : w.Stopping := true_ _ asks
    have unchanged : { w with runtime := { w.runtime with closing := true } } = w := by
      rw [← stopping.2]
    rw [unchanged, ite_self] at same
    subst same
    refine .same inv has trivial rfl ?_
    rintro fact ⟨stays, rfl⟩
    have closed : (!w.runtime.closed) = false := stays
    exact inv.closing.ended (by simpa using closed)
  | freesPool =>
    cases answered
    obtain ⟨cleared, rested, gone⟩ := asks
    have ended (closed : w.runtime.closed = true) : w.Ended :=
      ⟨true_ _ cleared, true_ _ rested, true_ _ gone, closed⟩
    split_ifs with closed
    · refine .same inv has trivial rfl ?_
      rintro fact rfl
      exact ended closed
    · obtain ⟨kept, later⟩ := inv.freesPool (true_ _ cleared) (true_ _ rested) (true_ _ gone)
        (by simpa using closed)
      refine .rest has ⟨kept, later⟩ trivial rfl ?_
      rintro fact rfl
      exact ⟨later.cleared (true_ _ cleared), later.rested (true_ _ rested), true_ _ gone, rfl⟩
  | writes bytes =>
    cases answered
    exact .same inv has trivial rfl nothing
  | pauses =>
    cases answered
    exact .same inv has trivial rfl nothing
  | hangs => cases answered

end HttpServer.Shared
