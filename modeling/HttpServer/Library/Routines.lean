import HttpServer.Library.Dialogue
import HttpServer.Library.OrderedMap
import HttpServer.Library.Transition

set_option autoImplicit false

/-!
# Routines that take turns

Routines are dialogues with one world, which may change when it answers and may keep a routine
waiting. A discipline tells what a routine holds and knows from one question to the next, and what
it may ask with that in hand. What the world keeps in step with the holdings of all routines is kept
in every interleaving of them.
-/

namespace Routines

open Dialogue OrderedMap

variable {W C K Q R H F : Type} {A : Q → Type}

structure Task (C Q : Type) (A : Q → Type) (R : Type) where
  call : C
  rest : Dialogue Q A R

structure Pool (W C K Q : Type) (A : Q → Type) (R : Type) where
  world : W
  tasks : OrderedMap K (Task C Q A R)

/-- `answer` is the world after an answer, if it can be the answer, and `waits` the world in which
the routine that asks waits. A call may depend on what others have returned. -/
structure Stage (W C K Q : Type) (A : Q → Type) (R : Type) where
  init : W
  code : C → Dialogue Q A R
  admits : List R → C → Bool
  answer : W → K → (query : Q) → A query → Option W
  waits : W → K → Q → Option W

inductive Label (C K Q : Type) (A : Q → Type) where
  | calls (k : K) (call : C)
  | turn (k : K) (event : Sigma A)
  | waits (k : K)

def Pool.results (s : Pool W C K Q A R) : List R :=
  s.tasks.values.filterMap fun task => task.rest.result?

def Task.take [DecidableEq Q] (task : Task C Q A R) (event : Sigma A) : Option (Task C Q A R) :=
  match task.rest with
  | .done _ => none
  | .ask query next =>
      if same : event.1 = query then some ⟨task.call, next (same ▸ event.2)⟩ else none

section

variable [DecidableEq K] [DecidableEq Q] (stage : Stage W C K Q A R)

def Stage.step : Label C K Q A → Pool W C K Q A R → Option (Pool W C K Q A R)
  | .calls k call, s =>
      if (s.tasks.get k).isNone && stage.admits s.results call then
        some { s with tasks := s.tasks.insert k ⟨call, stage.code call⟩ }
      else none
  | .turn k event, s => do
      let task ← s.tasks.get k
      let after ← task.take event
      let world ← stage.answer s.world k event.1 event.2
      return ⟨world, s.tasks.insert k after⟩
  | .waits k, s => do
      let task ← s.tasks.get k
      let query ← task.rest.query?
      let world ← stage.waits s.world k query
      return { s with world }

def Stage.machine : Machine (Pool W C K Q A R) (Label C K Q A) where
  init := ⟨stage.init, ∅⟩
  step := stage.step

variable {stage} {s s' : Pool W C K Q A R} {k : K}

theorem calls_some {call : C} (move : stage.step (.calls k call) s = some s') :
    s.tasks.get k = none ∧ stage.admits s.results call = true ∧
      s' = { s with tasks := s.tasks.insert k ⟨call, stage.code call⟩ } := by
  simp only [Stage.step, Bool.and_eq_true, Option.isNone_iff_eq_none] at move
  split_ifs at move with free
  cases move
  exact ⟨free.1, free.2, rfl⟩

theorem turn_some {event : Sigma A} (move : stage.step (.turn k event) s = some s') :
    ∃ call next world, s.tasks.get k = some ⟨call, .ask event.1 next⟩ ∧
      stage.answer s.world k event.1 event.2 = some world ∧
      s' = ⟨world, s.tasks.insert k ⟨call, next event.2⟩⟩ := by
  obtain ⟨query, answer⟩ := event
  simp only [Stage.step, Option.bind_eq_bind, Option.bind_eq_some_iff, Option.pure_def,
    Option.some.injEq] at move
  obtain ⟨⟨call, rest⟩, present, after, taken, world, answered, rfl⟩ := move
  cases rest with
  | done result => cases taken
  | ask asked next =>
    simp only [Task.take] at taken
    split_ifs at taken with same
    subst same
    cases taken
    exact ⟨call, next, world, present, answered, rfl⟩

theorem waits_some (move : stage.step (.waits k) s = some s') :
    ∃ call query next world, s.tasks.get k = some ⟨call, .ask query next⟩ ∧
      stage.waits s.world k query = some world ∧ s' = { s with world } := by
  simp only [Stage.step, Option.bind_eq_bind, Option.bind_eq_some_iff, Option.pure_def,
    Option.some.injEq] at move
  obtain ⟨⟨call, rest⟩, present, query, asked, world, waited, rfl⟩ := move
  cases rest with
  | done result => cases asked
  | ask query next =>
    cases asked
    exact ⟨call, query, next, world, present, waited, rfl⟩

theorem turn_of {call : C} {query : Q} {next : A query → Dialogue Q A R} {answer : A query} {world : W}
    (present : s.tasks.get k = some ⟨call, .ask query next⟩)
    (answered : stage.answer s.world k query answer = some world) :
    stage.step (.turn k ⟨query, answer⟩) s =
      some ⟨world, s.tasks.insert k ⟨call, next answer⟩⟩ := by
  simp [Stage.step, Task.take, present, answered]

-- While one routine moves alone the world gives one answer after another.
theorem path_of_run (stage : Stage W C K Q A R) {call : C} {d last : Dialogue Q A R}
    {past : History Q A} {w w' : W} {tasks : OrderedMap K (Task C Q A R)} (run : Run d past last)
    (present : tasks.get k = some ⟨call, d⟩)
    (answered : past.foldlM (fun w event => stage.answer w k event.1 event.2) w = some w') :
    ∃ labels tasks', stage.machine.Path ⟨w, tasks⟩ labels ⟨w', tasks'⟩ ∧
      tasks'.get k = some ⟨call, last⟩ := by
  induction run generalizing w tasks with
  | here d =>
    cases answered
    exact ⟨[], tasks, .here _, present⟩
  | @answer query next more last answer rest ih =>
    rw [List.foldlM_cons] at answered
    obtain ⟨world, first, later⟩ := Option.bind_eq_some_iff.mp answered
    obtain ⟨labels, tasks', path, ended⟩ := ih (get_insert_self tasks k ⟨call, next answer⟩) later
    have move : stage.step (.turn k ⟨query, answer⟩) ⟨w, tasks⟩ =
        some ⟨world, tasks.insert k ⟨call, next answer⟩⟩ := turn_of present first
    exact ⟨.turn k ⟨query, answer⟩ :: labels, tasks', .step move path, ended⟩

omit [DecidableEq Q] in
theorem results_mem {call : C} {result : R}
    (there : s.tasks.get k = some ⟨call, .done result⟩) : result ∈ s.results := by
  simp only [Pool.results, OrderedMap.values, List.mem_filterMap, List.mem_map]
  exact ⟨⟨call, .done result⟩, ⟨(k, _), (get_eq_some _ _ _).mp there, rfl⟩, rfl⟩

omit [DecidableEq Q] in
theorem mem_results {result : R} (member : result ∈ s.results) :
    ∃ k call, s.tasks.get k = some ⟨call, .done result⟩ := by
  simp only [Pool.results, OrderedMap.values, List.mem_filterMap, List.mem_map] at member
  obtain ⟨⟨call, rest⟩, ⟨⟨k, task⟩, inside, rfl⟩, ended⟩ := member
  cases rest with
  | done last =>
    cases ended
    exact ⟨k, call, (get_eq_some _ _ _).mpr inside⟩
  | ask query next => cases ended

omit [DecidableEq Q] in
theorem asking_of {query : Q}
    (asked : (s.tasks.get k).bind (fun task => task.rest.query?) = some query) :
    ∃ call next, s.tasks.get k = some ⟨call, .ask query next⟩ := by
  obtain ⟨⟨call, rest⟩, present, asked⟩ := Option.bind_eq_some_iff.mp asked
  cases rest with
  | done result => cases asked
  | ask query next =>
    cases asked
    exact ⟨call, next, present⟩

omit [DecidableEq Q] in
theorem returned_of {call : C} {result : R}
    (called : (s.tasks.get k).map (fun task => task.call) = some call)
    (ended : (s.tasks.get k).bind (fun task => task.rest.result?) = some result) :
    s.tasks.get k = some ⟨call, .done result⟩ := by
  obtain ⟨⟨call', rest⟩, present, rfl⟩ := Option.map_eq_some_iff.mp called
  rw [present, Option.bind_some] at ended
  cases rest with
  | done last =>
    cases ended
    exact present
  | ask query next => cases ended

end

/-- What a routine that holds `H` may ask when it knows `F`, what it may rely on in an answer, and
what it holds and knows then. What is known once stays true. -/
structure Discipline (Q : Type) (A : Q → Type) (H F : Type) where
  allows : H → Set F → Q → Prop
  fits : H → (query : Q) → A query → Prop
  after : H → (query : Q) → A query → H
  learns : (query : Q) → A query → Set F

variable {D : Discipline Q A H F}

def Kept (D : Discipline Q A H F) (ends : H → Set F → R → Prop) :
    H → Set F → Dialogue Q A R → Prop
  | h, known, .done result => ends h known result
  | h, known, .ask query next => D.allows h known query ∧
      ∀ answer, D.fits h query answer →
        Kept D ends (D.after h query answer) (known ∪ D.learns query answer) (next answer)

theorem Kept.mono {ends ends' : H → Set F → R → Prop} {h : H} {known : Set F} {d : Dialogue Q A R}
    (kept : Kept D ends h known d)
    (weaker : ∀ h known result, ends h known result → ends' h known result) :
    Kept D ends' h known d := by
  induction d generalizing h known with
  | done result => exact weaker _ _ _ kept
  | ask query next ih => exact ⟨kept.1, fun answer fits => ih answer (kept.2 answer fits)⟩

theorem Kept.grows {ends : H → Set F → R → Prop} {h : H} {known : Set F} {d : Dialogue Q A R}
    (kept : Kept D ends h known d) :
    Kept D (fun h' known' result => known ⊆ known' ∧ ends h' known' result) h known d := by
  induction d generalizing h known with
  | done result => exact ⟨subset_rfl, kept⟩
  | ask query next ih =>
    refine ⟨kept.1, fun answer fits => (ih answer (kept.2 answer fits)).mono ?_⟩
    exact fun h' known' result ⟨grows, holds⟩ => ⟨Set.subset_union_left.trans grows, holds⟩

theorem Kept.put_bind {query : Q} {ends : H → Set F → R → Prop} {h : H} {known : Set F}
    {rest : A query → Dialogue Q A R} (allowed : D.allows h known query)
    (later : ∀ answer, D.fits h query answer →
      Kept D ends (D.after h query answer) (known ∪ D.learns query answer) (rest answer)) :
    Kept D ends h known (put query >>= rest) := ⟨allowed, later⟩

theorem Kept.put {query : Q} {ends : H → Set F → A query → Prop} {h : H} {known : Set F}
    (allowed : D.allows h known query)
    (later : ∀ answer, D.fits h query answer →
      ends (D.after h query answer) (known ∪ D.learns query answer) answer) :
    Kept D ends h known (put query) := ⟨allowed, later⟩

theorem Kept.bind {S : Type} {middle : H → Set F → S → Prop} {ends : H → Set F → R → Prop} {h : H}
    {known : Set F} {d : Dialogue Q A S} {rest : S → Dialogue Q A R} (kept : Kept D middle h known d)
    (later : ∀ h' known' result, known ⊆ known' → middle h' known' result →
      Kept D ends h' known' (rest result)) :
    Kept D ends h known (d >>= rest) := by
  induction d generalizing h known with
  | done result => exact later _ _ _ subset_rfl kept
  | ask query next ih =>
    exact ⟨kept.1, fun answer fits => ih answer (kept.2 answer fits) fun h' known' result grows =>
      later h' known' result (Set.subset_union_left.trans grows)⟩

theorem Kept.map {S : Type} {middle : H → Set F → S → Prop} {ends : H → Set F → R → Prop} {h : H}
    {known : Set F} {d : Dialogue Q A S} {f : S → R} (kept : Kept D middle h known d)
    (last : ∀ h' known' result, known ⊆ known' → middle h' known' result →
      ends h' known' (f result)) : Kept D ends h known (f <$> d) := by
  have joined : Kept D ends h known (d >>= fun result => .done (f result)) := kept.bind last
  exact joined

theorem Kept.try_bind {E S : Type} {middle : H → Set F → Except E S → Prop}
    {ends : H → Set F → Except E R → Prop} {h : H} {known : Set F}
    {act : ExceptT E (Dialogue Q A) S} {rest : S → ExceptT E (Dialogue Q A) R}
    (kept : Kept D middle h known act.run)
    (fails : ∀ h' known' e, known ⊆ known' → middle h' known' (.error e) → ends h' known' (.error e))
    (goes : ∀ h' known' a, known ⊆ known' → middle h' known' (.ok a) →
      Kept D ends h' known' (rest a).run) :
    Kept D ends h known (act >>= rest).run := by
  refine Kept.bind kept fun h' known' result grows => ?_
  cases result with
  | error e => exact fails h' known' e grows
  | ok a => exact goes h' known' a grows

theorem Kept.lift_bind {E S : Type} {middle : H → Set F → S → Prop}
    {ends : H → Set F → Except E R → Prop} {h : H} {known : Set F} {d : Dialogue Q A S}
    {rest : S → ExceptT E (Dialogue Q A) R} (kept : Kept D middle h known d)
    (later : ∀ h' known' result, known ⊆ known' → middle h' known' result →
      Kept D ends h' known' (rest result).run) :
    Kept D ends h known ((liftM d : ExceptT E (Dialogue Q A) S) >>= rest).run := by
  induction d generalizing h known with
  | done result => exact later _ _ _ subset_rfl kept
  | ask query next ih =>
    exact ⟨kept.1, fun answer fits => ih answer (kept.2 answer fits) fun h' known' result grows =>
      later h' known' result (Set.subset_union_left.trans grows)⟩

theorem Kept.try_map {E S : Type} {middle : H → Set F → Except E S → Prop}
    {ends : H → Set F → Except E R → Prop} {h : H} {known : Set F}
    {act : ExceptT E (Dialogue Q A) S} {f : S → R} (kept : Kept D middle h known act.run)
    (last : ∀ h' known' result, known ⊆ known' → middle h' known' result →
      ends h' known' (result.map f)) : Kept D ends h known (f <$> act).run := by
  refine Kept.bind kept fun h' known' result grows holds => ?_
  cases result with
  | error e => exact last h' known' _ grows holds
  | ok a => exact last h' known' _ grows holds

theorem Kept.try_catch {E S : Type} {middle ends : H → Set F → Except E S → Prop} {h : H}
    {known : Set F} {act : ExceptT E (Dialogue Q A) S} {handler : E → ExceptT E (Dialogue Q A) S}
    (kept : Kept D middle h known act.run)
    (catches : ∀ h' known' e, known ⊆ known' → middle h' known' (.error e) →
      Kept D ends h' known' (handler e).run)
    (goes : ∀ h' known' a, known ⊆ known' → middle h' known' (.ok a) → ends h' known' (.ok a)) :
    Kept D ends h known (tryCatch act handler).run := by
  refine Kept.bind kept fun h' known' result grows => ?_
  cases result with
  | error e => exact catches h' known' e grows
  | ok a => exact goes h' known' a grows

variable [DecidableEq K] [DecidableEq Q]

/-- The part of the world: `inv` holds between it and what everybody holds. Only worlds within
`bound` count, which nothing leads back to. -/
structure Keeps (stage : Stage W C K Q A R) (D : Discipline Q A H F) (truth : W → F → Prop)
    (bound : W → Prop) (start : W → C → H) (ends : C → H → Set F → R → Prop)
    (inv : W → OrderedMap K H → Prop) : Prop where
  turn : ∀ {w w' held k h known query answer}, inv w held → held.get k = some h →
    (∀ fact ∈ known, truth w fact) → D.allows h known query →
    stage.answer w k query answer = some w' → bound w' →
    D.fits h query answer ∧ inv w' (held.insert k (D.after h query answer)) ∧
      (∀ fact ∈ D.learns query answer, truth w' fact) ∧ ∀ fact, truth w fact → truth w' fact
  waits : ∀ {w w' held k h known query}, inv w held → held.get k = some h →
    (∀ fact ∈ known, truth w fact) → D.allows h known query →
    stage.waits w k query = some w' → inv w' held ∧ ∀ fact, truth w fact → truth w' fact
  calls : ∀ {w held k results call}, inv w held → held.get k = none →
    (∀ result ∈ results, ∃ call h known, (∀ fact ∈ known, truth w fact) ∧ ends call h known result) →
    stage.admits results call = true → inv w (held.insert k (start w call)) ∧
      ∃ known, (∀ fact ∈ known, truth w fact) ∧
        Kept D (ends call) (start w call) known (stage.code call)
  turn_bound : ∀ {w w' k query answer}, stage.answer w k query answer = some w' → bound w' → bound w
  waits_bound : ∀ {w w' k query}, stage.waits w k query = some w' → bound w' → bound w

structure Books (D : Discipline Q A H F) (truth : W → F → Prop) (ends : C → H → Set F → R → Prop)
    (inv : W → OrderedMap K H → Prop) (s : Pool W C K Q A R) (held : OrderedMap K H) : Prop where
  inv : inv s.world held
  names : ∀ k, held.get k = none ↔ s.tasks.get k = none
  kept : ∀ k h task, held.get k = some h → s.tasks.get k = some task →
    ∃ known, (∀ fact ∈ known, truth s.world fact) ∧ Kept D (ends task.call) h known task.rest

variable {stage : Stage W C K Q A R} {truth : W → F → Prop} {bound : W → Prop} {start : W → C → H}
  {ends : C → H → Set F → R → Prop} {inv : W → OrderedMap K H → Prop} {s s' : Pool W C K Q A R}
  {held : OrderedMap K H}

omit [DecidableEq Q] in
theorem Books.of_task {k : K} {task : Task C Q A R} (books : Books D truth ends inv s held)
    (present : s.tasks.get k = some task) : ∃ h, held.get k = some h := by
  cases found : held.get k with
  | none =>
    rw [books.names, present] at found
    cases found
  | some h => exact ⟨h, rfl⟩

omit [DecidableEq Q] in
theorem Books.of_held {k : K} {h : H} (books : Books D truth ends inv s held)
    (present : held.get k = some h) : ∃ task, s.tasks.get k = some task := by
  cases found : s.tasks.get k with
  | none =>
    rw [← books.names, present] at found
    cases found
  | some task => exact ⟨task, rfl⟩

omit [DecidableEq Q] in
-- Both maps get an entry of the same name.
theorem names_insert {tasks : OrderedMap K (Task C Q A R)}
    (names : ∀ k, held.get k = none ↔ tasks.get k = none) (k : K) (h : H) (task : Task C Q A R)
    (key : K) : (held.insert k h).get key = none ↔ (tasks.insert k task).get key = none := by
  rw [get_insert, get_insert]
  split_ifs
  · simp
  · exact names key

theorem Books.turn (keeps : Keeps stage D truth bound start ends inv)
    (books : Books D truth ends inv s held) {k : K} {event : Sigma A}
    (move : stage.step (.turn k event) s = some s') (within : bound s'.world) :
    ∃ held', Books D truth ends inv s' held' := by
  obtain ⟨call, next, world, present, answered, rfl⟩ := turn_some move
  obtain ⟨h, has⟩ := books.of_task present
  obtain ⟨known, true_, allowed, later⟩ := books.kept k h _ has present
  obtain ⟨fits, kept, learnt, stays⟩ := keeps.turn books.inv has true_ allowed answered within
  refine ⟨held.insert k (D.after h event.1 event.2), kept, names_insert books.names k _ _, ?_⟩
  intro key other task holds there
  dsimp only at there
  rw [get_insert] at holds there
  split_ifs at holds there with same
  · cases holds
    cases there
    refine ⟨_, ?_, later event.2 fits⟩
    rintro fact (old | new)
    · exact stays fact (true_ fact old)
    · exact learnt fact new
  · obtain ⟨known, true_, kept⟩ := books.kept key other task holds there
    exact ⟨known, fun fact member => stays fact (true_ fact member), kept⟩

theorem Books.waits (keeps : Keeps stage D truth bound start ends inv)
    (books : Books D truth ends inv s held) {k : K}
    (move : stage.step (.waits k) s = some s') : Books D truth ends inv s' held := by
  obtain ⟨call, query, next, world, present, waited, rfl⟩ := waits_some move
  obtain ⟨h, has⟩ := books.of_task present
  obtain ⟨known, true_, allowed, -⟩ := books.kept k h _ has present
  obtain ⟨kept, stays⟩ := keeps.waits books.inv has true_ allowed waited
  refine ⟨kept, books.names, ?_⟩
  intro key other task holds there
  obtain ⟨known, true_, kept⟩ := books.kept key other task holds there
  exact ⟨known, fun fact member => stays fact (true_ fact member), kept⟩

theorem Books.calls (keeps : Keeps stage D truth bound start ends inv)
    (books : Books D truth ends inv s held) {k : K} {call : C}
    (move : stage.step (.calls k call) s = some s') :
    Books D truth ends inv s' (held.insert k (start s.world call)) := by
  obtain ⟨free, admitted, rfl⟩ := calls_some move
  have returned : ∀ result ∈ s.results, ∃ call h known, (∀ fact ∈ known, truth s.world fact) ∧
      ends call h known result := by
    intro result member
    obtain ⟨other, call, present⟩ := mem_results member
    obtain ⟨h, has⟩ := books.of_task present
    obtain ⟨known, true_, ended⟩ := books.kept other h _ has present
    exact ⟨call, h, known, true_, ended⟩
  obtain ⟨kept, known, true_, code⟩ :=
    keeps.calls books.inv ((books.names k).mpr free) returned admitted
  refine ⟨kept, names_insert books.names k _ _, ?_⟩
  intro key other task holds there
  dsimp only at there
  rw [get_insert] at holds there
  split_ifs at holds there with same
  · cases holds
    cases there
    exact ⟨known, true_, code⟩
  · exact books.kept key other task holds there

theorem Keeps.step_bound (keeps : Keeps stage D truth bound start ends inv)
    {label : Label C K Q A} (move : stage.step label s = some s') (within : bound s'.world) :
    bound s.world := by
  cases label with
  | calls k call =>
    obtain ⟨-, -, rfl⟩ := calls_some move
    exact within
  | turn k event =>
    obtain ⟨call, next, world, -, answered, rfl⟩ := turn_some move
    exact keeps.turn_bound answered within
  | waits k =>
    obtain ⟨call, query, next, world, -, waited, rfl⟩ := waits_some move
    exact keeps.waits_bound waited within

theorem Keeps.path_bound (keeps : Keeps stage D truth bound start ends inv)
    {labels : List (Label C K Q A)} (path : stage.machine.Path s labels s')
    (within : bound s'.world) : bound s.world := by
  refine path.preserves (P := fun after => bound after.world → bound s.world) ?_ id within
  exact fun before label after back move within => back (keeps.step_bound move within)

theorem Keeps.path (keeps : Keeps stage D truth bound start ends inv) {labels : List (Label C K Q A)}
    (path : stage.machine.Path s labels s') (books : ∃ held, Books D truth ends inv s held)
    (within : bound s'.world) : ∃ held, Books D truth ends inv s' held := by
  have run : bound s'.world → ∃ held, Books D truth ends inv s' held := by
    refine path.preserves (P := fun s => bound s.world → ∃ held, Books D truth ends inv s held) ?_
      fun _ => books
    intro s label next before move within
    obtain ⟨held, books⟩ := before (keeps.step_bound move within)
    cases label with
    | calls k call => exact ⟨_, books.calls keeps move⟩
    | turn k event => exact books.turn keeps move within
    | waits k => exact ⟨held, books.waits keeps move⟩
  exact run within

theorem Keeps.reachable (keeps : Keeps stage D truth bound start ends inv)
    (initial : inv stage.init ∅) (reached : stage.machine.Reachable s) (within : bound s.world) :
    ∃ held, Books D truth ends inv s held := by
  obtain ⟨labels, path⟩ := reached
  refine keeps.path path ⟨∅, initial, fun k => by simp [Stage.machine], ?_⟩ within
  intro k h task present
  cases present

section

variable {α : Type} {m : OrderedMap K α} {k : K} {old new : α} {P : α → Bool}

omit [DecidableEq Q] in
theorem insert_same (present : m.get k = some old) : m.insert k old = m := by
  apply eq_of_get
  · rw [keys_insert, if_pos]
    by_contra absent
    rw [(get_eq_none m k).mpr absent] at present
    cases present
  · intro key
    rw [get_insert]
    split_ifs with same
    · rw [same, present]
    · rfl

omit [DecidableEq Q] in
theorem insert_insert (m : OrderedMap K α) (k : K) (old new : α) :
    (m.insert k old).insert k new = m.insert k new := by
  apply eq_of_get
  · have member : k ∈ (m.insert k old).keys := (mem_keys_insert m k old k).mpr (.inl rfl)
    rw [keys_insert, if_pos member, keys_insert, keys_insert]
  · intro key
    rw [get_insert, get_insert, get_insert]
    split_ifs <;> rfl

omit [DecidableEq Q] in
theorem count_insert (present : m.get k = some old) :
    (m.insert k new).count P + (P old).toNat = m.count P + (P new).toNat := by
  have change : ((m.insert k new).sum fun _ v => if P v then (1 : Int) else 0) =
      (m.sum fun _ v => if P v then (1 : Int) else 0) - (if P old then 1 else 0) +
        if P new then 1 else 0 := sum_insert present new
  rw [sum_count, sum_count] at change
  generalize P old = before, P new = after at change ⊢
  cases before <;> cases after <;> simp at change ⊢ <;> omega

omit [DecidableEq Q] in
theorem count_insert_same (present : m.get k = some old) (same : P new = P old) :
    (m.insert k new).count P = m.count P := by
  have change : (m.insert k new).count P + (P old).toNat = m.count P + (P new).toNat :=
    count_insert present
  rw [same] at change
  omega

omit [DecidableEq Q] in
theorem count_insert_absent (absent : m.get k = none) :
    (m.insert k new).count P = m.count P + (P new).toNat := by
  have change : ((m.insert k new).sum fun _ v => if P v then (1 : Int) else 0) =
      (m.sum fun _ v => if P v then (1 : Int) else 0) + if P new then 1 else 0 :=
    sum_insert_absent absent new
  rw [sum_count, sum_count] at change
  generalize P new = after at change ⊢
  cases after <;> simp at change ⊢ <;> omega

omit [DecidableEq Q] in
theorem modify_cases {change : α → α} {key : K} {v : α}
    (found : (m.modify k change).get key = some v) :
    (key = k ∧ ∃ old, m.get k = some old ∧ v = change old) ∨ (key ≠ k ∧ m.get key = some v) := by
  rw [get_modify] at found
  split_ifs at found with same
  · obtain ⟨old, present, rfl⟩ := Option.map_eq_some_iff.mp found
    exact .inl ⟨same, old, present, rfl⟩
  · exact .inr ⟨same, found⟩

omit [DecidableEq Q] in
theorem get_modify_some (change : α → α) {key : K} {v : α} (present : m.get key = some v) :
    (m.modify k change).get key = some (if key = k then change v else v) := by
  rw [get_modify]
  split_ifs with same
  · rw [← same, present, Option.map_some]
  · exact present

omit [DecidableEq Q] in
theorem exists_insert {P : α → Prop} (some_ : ∃ k v, m.get k = some v ∧ P v)
    (here : ∀ old, m.get k = some old → P old → P new) :
    ∃ key v, (m.insert k new).get key = some v ∧ P v := by
  obtain ⟨key, v, present, holds⟩ := some_
  by_cases same : key = k
  · subst same
    exact ⟨key, new, get_insert_self _ _ _, here v present holds⟩
  · exact ⟨key, v, by rwa [get_insert_ne _ _ same], holds⟩

end

end Routines
