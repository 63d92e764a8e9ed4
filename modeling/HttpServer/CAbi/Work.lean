import HttpServer.CAbi.Calls
import HttpServer.CAbi.Runtime

set_option autoImplicit false

namespace HttpServer.CAbi

namespace Stage

-- What is known of an operation at each stage of its task.
def Fits (t : Ticket) : Stage → Prop
  | spawned => t.event.Blank
  | working => t.kind.closes = false ∧ t.event.Blank
  | configured => t.kind.creates = true ∧ t.event.Blank
  | responding _ _ => t.kind = .submit ∧ t.event.response.isSome
  | chunked _ => t.kind = .read
  | waiting _ => t.kind = .read ∧ t.event.Blank
  | stopping _ | shutting | draining _ => t.kind.closes = true

theorem fits_changed {t : Ticket} {stage : Stage} (fits : stage.Fits t) : stage.changed.Fits t := by
  cases stage <;> exact fits

theorem fits_scopeEnds {t : Ticket} {stage : Stage} (fits : stage.Fits t) :
    stage.scopeEnds.Fits t := by
  cases stage <;> exact fits

end Stage

structure Task.Fits (task : Task) (t : Ticket) : Prop where
  stage : task.stage.Fits t
  marked : task.marked = true → t.kind.closes = false

/-- The threads and their queues are as they were, except for the notices. -/
structure State.Still (s s' : State) : Prop where
  phase : s'.phase = s.phase
  ownerDone : s'.ownerDone = s.ownerDone
  owner : s'.owner = s.owner
  notifier : s'.notifier = s.notifier
  commands : s'.commands = s.commands
  wakePending : s'.wakePending = s.wakePending
  pipe : s'.pipe = s.pipe
  queued : s'.queued = s.queued
  taken : s'.taken = s.taken
  refused : s'.refused = s.refused

/-- The task of `o` goes from one stage to another and leaves the memory `m`. -/
inductive Effort (p : Platform) (s : State) (k : Key) (o : Operation) :
    Stage → Memory → Stage → Prop
  | begins (other : o.kind.closes = false) : Effort p s k o .spawned s.memory .working
  | waits (read : o.kind = .read) (unready : State.readReady s.memory k = false) :
      Effort p s k o .spawned s.memory (.waiting false)
  | limits {capacity budget responses : Int} (creates : o.kind.creates = true) :
      Effort p s k o .working (s.memory.limits o.owner capacity budget responses) .configured
  | responds {count : Nat} {allocated : Bool} {m : Memory} (submit : o.kind = .submit)
      (made : s.memory.makeResponse p.sizes k count allocated = some m) :
      Effort p s k o .working m (.responding count true)
  | header {left : Nat} {valid valid' copied : Bool} {r : Key} {bytes : Nat} :
      Effort p s k o (.responding (left + 1) valid) (s.memory.setHeader r bytes copied).2
        (.responding left valid')
  | unchunked (read : o.kind = .read) : Effort p s k o .working s.memory (.chunked .limit)
  | chunk {length : Nat} {allocated : Bool} {m : Memory} (read : o.kind = .read)
      (made : s.memory.addChunk k length allocated = some m) :
      Effort p s k o .working m (.chunked .ok)
  | wakes : Effort p s k o (.waiting true) s.memory .working
  | waitsAgain (unready : State.readReady s.memory k = false) :
      Effort p s k o (.waiting true) s.memory (.waiting false)
  | stopsAgain (running : (s.scopes.get o.owner).isSome) :
      Effort p s k o (.stopping true) s.memory (.stopping false)
  | drains {stage : Stage} (closing : stage = .stopping true ∧ s.scopes.get o.owner = none ∨
        stage = .shutting ∨ stage = .draining true) (more : 1 < State.active s.memory k) :
      Effort p s k o stage s.memory (.draining false)

inductive Works (p : Platform) (s : State) (k : Key) (task : Task) (o : Operation) : State → Prop
  | worked {m : Memory} {stage : Stage} (effort : Effort p s k o task.stage m stage) :
      Works p s k task o ({ s with memory := m }.setStage k stage)
  | settled {code : Code} {kind : Option ResultKind} (other : o.kind.closes = false) :
      Works p s k task o (s.settle k code kind)
  | ready (server : o.kind = .startServer) : Works p s k task o (s.ready k o.owner)
  | stops {scope : Bool} (closes : o.kind.closes = true) (spawned : task.stage = .spawned)
      (running : s.scopes.get o.owner = some scope) :
      Works p s k task o ({ s.cancelOthers k with
        scopes := s.scopes.insert o.owner true }.setStage k (.stopping false))
  | shuts (closes : o.kind.closes = true) (spawned : task.stage = .spawned)
      (unscoped : s.scopes.get o.owner = none) :
      Works p s k task o ((s.cancelOthers k).setStage k .shutting)
  | drains (closes : o.kind.closes = true) (spawned : task.stage = .spawned)
      (unscoped : s.scopes.get o.owner = none) (more : 1 < State.active s.memory k) :
      Works p s k task o ((s.cancelOthers k).setStage k (.draining false))
  | closed {s₀ : State} (closes : o.kind.closes = true) (few : State.active s.memory k ≤ 1)
      (before : s₀ = s ∨ s₀ = s.cancelOthers k)
      (unscoped : s.scopes.get o.owner = none ∨ task.stage = .shutting ∨
        task.stage = .draining true) :
      Works p s k task o (s₀.settle k .ok (some .done))

namespace State

variable {p : Platform} {s s' : State} {k : Key} {task : Task} {o : Operation}

theorem drain_works {stage : Stage} (closes : o.kind.closes = true) (here : task.stage = stage)
    (closing : stage = .stopping true ∧ s.scopes.get o.owner = none ∨ stage = .shutting ∨
      stage = .draining true) : Works p s k task o (s.drain k) := by
  unfold drain
  split
  · rename_i more
    exact .worked (m := s.memory) (here ▸ .drains closing more)
  · exact .closed closes (by omega) (Or.inl rfl) (here ▸ closing.imp_left And.right)

theorem close_works (closes : o.kind.closes = true) (spawned : task.stage = .spawned) (kind : Kind) :
    Works p s k task o (s.close k o.owner kind) := by
  unfold close
  dsimp only
  split
  · rename_i running
    exact .stops closes spawned running
  · rename_i ended
    split
    · exact .shuts closes spawned ended
    · unfold drain
      split
      · exact .drains closes spawned ended ‹_›
      · refine .closed closes ?_ (Or.inr rfl) (Or.inl ended)
        change ¬1 < State.active s.memory k at *
        omega

theorem begin_works (spawned : task.stage = .spawned) (found : Bool) :
    Works p s k task o (s.begin k o found) := by
  unfold begin
  split
  · rename_i business
    rw [Bool.and_eq_true] at business
    exact .settled (Kind.closes_of_business business.1)
  · have working (other : o.kind.closes = false) : Works p s k task o (s.setStage k .working) :=
      .worked (m := s.memory) (spawned ▸ .begins other)
    cases kind : o.kind with
    | createEngine | startServer | submit | release => exact working (by rw [kind]; rfl)
    | read =>
      dsimp only
      split_ifs with _ ready
      · exact .settled (by rw [kind]; rfl)
      · exact working (by rw [kind]; rfl)
      · exact .worked (m := s.memory) (spawned ▸ .waits kind (by simpa using ready))
    | closeEngine | stopServer => exact close_works (by rw [kind]; rfl) spawned _

theorem check_works (fits : task.stage.Fits o.ticket) :
    Works p s k task o (s.check k o.owner task.stage) ∨
      ¬(task.stage = .waiting true ∨ task.stage = .stopping true ∨ task.stage = .draining true) := by
  cases stage : task.stage with
  | waiting woken =>
    cases woken with
    | false => simp
    | true =>
      left
      rw [stage] at fits
      unfold check
      dsimp only
      split_ifs with ready
      · exact .worked (m := s.memory) (stage ▸ .wakes)
      · exact .worked (m := s.memory) (stage ▸ .waitsAgain (by simpa using ready))
  | stopping woken =>
    cases woken with
    | false => simp
    | true =>
      left
      rw [stage] at fits
      unfold check
      dsimp only
      split
      · rename_i running
        exact .worked (m := s.memory) (stage ▸ .stopsAgain (by rw [running]; rfl))
      · rename_i ended
        exact drain_works fits stage (Or.inl ⟨rfl, ended⟩)
  | draining woken =>
    cases woken with
    | false => simp
    | true =>
      left
      rw [stage] at fits
      exact drain_works fits stage (Or.inr (Or.inr rfl))
  | _ => simp

theorem taskStep_works {move : TaskMove} (fit : task.Fits o.ticket)
    (made : s.taskStep p k task o move = some s') : Works p s k task o s' := by
  have fits := fit.stage
  cases move with
  | begin found =>
    simp only [taskStep, Option.ite_none_right_eq_some, Option.some.injEq] at made
    obtain ⟨stage, rfl⟩ := made
    exact begin_works stage found
  | limits capacity budget responses =>
    simp only [taskStep, Option.ite_none_right_eq_some, Option.some.injEq] at made
    obtain ⟨⟨stage, creates⟩, rfl⟩ := made
    exact .worked (stage ▸ .limits creates)
  | finish code =>
    simp only [taskStep, Option.ite_none_right_eq_some, Option.some.injEq] at made
    obtain ⟨stage, rfl⟩ := made
    have other : o.kind.closes = false := by
      rcases stage with ⟨stage, _⟩ | stage
      · rw [stage] at fits
        exact fits.1
      · rw [stage] at fits
        exact Kind.closes_of_creates fits.1
    unfold finish
    split_ifs with _ server
    · exact .settled other
    · exact .ready server
    · exact .settled other
  | respond count allocated =>
    simp only [taskStep, Option.ite_none_right_eq_some, Option.some.injEq] at made
    obtain ⟨⟨stage, submit⟩, rfl⟩ := made
    unfold respond
    split
    · exact .settled (by rw [submit]; rfl)
    · rename_i m made
      exact .worked (stage ▸ .responds submit made)
  | header bytes copied =>
    simp only [taskStep] at made
    split at made
    · cases made
      rename_i stage _
      exact .worked (stage ▸ .header)
    · cases made
  | responded =>
    simp only [taskStep] at made
    split at made
    · rename_i stage
      cases made
      rw [stage] at fits
      have other : o.kind.closes = false := by
        have submit : o.kind = .submit := fits.1
        rw [submit]
        rfl
      split_ifs
      · exact .settled other
      · exact .settled other
    · cases made
  | chunk length allocated =>
    simp only [taskStep, Option.ite_none_right_eq_some, Option.some.injEq] at made
    obtain ⟨⟨stage, read, _⟩, rfl⟩ := made
    unfold chunk
    split
    · exact .worked (m := s.memory) (stage ▸ .unchunked read)
    · rename_i m made
      exact .worked (stage ▸ .chunk read made)
  | chunked =>
    simp only [taskStep] at made
    split at made
    · rename_i stage
      cases made
      rw [stage] at fits
      have read : o.kind = .read := fits
      exact .settled (by rw [read]; rfl)
    · cases made
  | shut =>
    simp only [taskStep, Option.ite_none_right_eq_some, Option.some.injEq] at made
    obtain ⟨stage, rfl⟩ := made
    rw [stage] at fits
    exact drain_works fits stage (Or.inr (Or.inl rfl))
  | check =>
    have works := check_works (p := p) (s := s) (k := k) fits
    simp only [taskStep] at made
    split at made
    all_goals first
      | cases made
        simp_all
      | cases made
  | interrupt =>
    simp only [taskStep, Option.ite_none_right_eq_some, Option.some.injEq] at made
    obtain ⟨⟨marked, _⟩, rfl⟩ := made
    exact .settled (fit.marked marked)

theorem complete_still (s : State) (k : Key) (code : Code) (kind : Option ResultKind) :
    s.Still (s.complete k code kind) := by
  unfold complete
  split
  · constructor <;> rfl
  · split
    · constructor <;> rfl
    · constructor <;> rfl

theorem settle_still (s : State) (k : Key) (code : Code) (kind : Option ResultKind) :
    s.Still (s.settle k code kind) := { s.complete_still k code kind with }

theorem ready_still (s : State) (k i : Key) : s.Still (s.ready k i) :=
  { s.complete_still k .ok (some .server) with }

theorem Works.still (works : Works p s k task o s') : s.Still s' := by
  cases works with
  | worked | stops | shuts | drains => constructor <;> rfl
  | settled => exact s.settle_still _ _ _
  | ready => exact s.ready_still _ _
  | closed closes few before =>
    rcases before with rfl | rfl
    · exact settle_still _ _ _ _
    · exact { (s.cancelOthers k).settle_still k .ok (some .done) with }

end State

end HttpServer.CAbi
