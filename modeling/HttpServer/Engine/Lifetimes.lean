import HttpServer.Engine.Usage

set_option autoImplicit false

namespace HttpServer.Shared

open HttpServer.Core OrderedMap Dialogue Routines

def Call.refuses : Call → Outcome → Prop
  | .handle _, outcome => outcome = .handled (.error .closed)
  | .check _, outcome => outcome = .done (.error (raises .closed))
  | .read _ _, outcome => outcome = .bytes (.error (raises .closed))
  | .toBytes _ _ _, outcome =>
      outcome = .bytes (.error (raises .closed)) ∨ outcome = .bytes (.error (raises .overloaded))
  | .writeTo _ _ _, outcome => outcome = .done (.error (raises .closed))
  | .sendTo _ _, outcome => outcome = .done (.error (raises .closed))
  | .close _, _ => True
  | .closeEngine, _ => True

structure Leaves (call : Call) (h : Held) (known : Set Fact) (outcome : Outcome) : Prop where
  rest : h = .fresh h.late
  given : ∀ r, outcome = .handled (.handled r) → Given known r
  late : h.late = true → call.refuses outcome
  ended : call = .closeEngine → .ended ∈ known

theorem bare_fresh (late : Bool) : (Held.fresh late).Bare := ⟨rfl, rfl, rfl⟩

variable {config : Config} {mime : MimeRegistry}

theorem code_does (call : Call) (late : Bool) {known : Set Fact} (here : .known root ∈ known)
    (given : ∀ r, call.response? = some r → Given known r) :
    Does (.fresh late) known (call.code config mime) (Leaves call) := by
  have leaves {call : Call} {h : Held} {known : Set Fact} {outcome : Outcome}
      (other : call ≠ .closeEngine) (unhandled : ∀ r, outcome ≠ .handled (.handled r))
      (refused : h = .fresh late ∧ (late = true → call.refuses outcome)) :
      Leaves call h known outcome := by
    obtain ⟨rfl, refused⟩ := refused
    exact ⟨rfl, fun r same => absurd same (unhandled r), refused, fun same => absurd same other⟩
  cases call with
  | handle request =>
    refine (handle_does mime request late here).map fun h' known' result _ => ?_
    rintro ⟨rfl, given, refused⟩
    refine ⟨rfl, ?_, fun isLate => congrArg Outcome.handled (refused isLate), fun same => by cases same⟩
    rintro r ⟨⟩
    exact given r rfl
  | check r =>
    refine (check_does (bare_fresh late) rfl (given r rfl)).map fun h' known' result _ after => ?_
    exact leaves (by simp) (by simp) ⟨after.1, fun isLate => congrArg Outcome.done (after.2 isLate)⟩
  | read r maxLen =>
    refine (read_does maxLen (bare_fresh late) rfl (given r rfl)).map fun h' known' result _ after => ?_
    exact leaves (by simp) (by simp) ⟨after.1, fun isLate => congrArg Outcome.bytes (after.2 isLate)⟩
  | toBytes r maxBytes fuel =>
    refine (toBytes_does maxBytes fuel (bare_fresh late) rfl (given r rfl) rfl).map
      fun h' known' result _ after => ?_
    exact leaves (by simp) (by simp) ⟨after.1, fun isLate =>
      (after.2 isLate).imp (congrArg Outcome.bytes) (congrArg Outcome.bytes)⟩
  | writeTo r chunked fuel =>
    refine (writeTo_does chunked fuel (bare_fresh late) rfl (given r rfl)).map
      fun h' known' result _ after => ?_
    exact leaves (by simp) (by simp) ⟨after.1, fun isLate => congrArg Outcome.done (after.2 isLate)⟩
  | sendTo r fuel =>
    refine (sendTo_does fuel (bare_fresh late) rfl (given r rfl)).map fun h' known' result _ after => ?_
    exact leaves (by simp) (by simp) ⟨after.1, fun isLate => congrArg Outcome.done (after.2 isLate)⟩
  | close r =>
    refine (close_stays (bare_fresh late) rfl (given r rfl)).map fun h' known' result _ same => ?_
    exact leaves (by simp) (by simp) ⟨same, fun _ => trivial⟩
  | closeEngine =>
    refine (closeEngine_does (bare_fresh late) rfl rfl here).map fun h' known' result _ => ?_
    rintro ⟨rfl, ended⟩
    exact ⟨rfl, fun r same => (by cases same), fun _ => trivial, fun _ => ended⟩

variable {w w' : World} {held : Holdings} {k : CallId}

theorem Inv.calls (inv : Inv w held) (free : held.get k = none) :
    Inv w (held.insert k (.fresh w.closing)) := by
  have stays {P : Held → Prop} (some_ : ∃ k h, held.get k = some h ∧ P h) :
      ∃ key h, (held.insert k (.fresh w.closing)).get key = some h ∧ P h :=
    exists_insert some_ fun old before => by
      rw [free] at before
      cases before
  have old {key : CallId} {h : Held} (there : (held.insert k (.fresh w.closing)).get key = some h)
      (other : h ≠ .fresh w.closing) : held.get key = some h := by
    rcases get_insert_eq_some.mp there with ⟨rfl, rfl⟩ | ⟨-, before⟩
    · exact absurd rfl other
    · exact before
  exact {
    jobs := {
      file := fun f file found => by
        rw [inv.jobs.file f file found, count_insert_absent free]
        rfl
      runtime := by
        rw [inv.jobs.runtime, count_insert_absent free]
        rfl
      known := fun key h f there job => by
        refine inv.jobs.known key h f (old there ?_) job
        rintro rfl
        cases job }
    freed := inv.freed
    kept := {
      inv.kept with
      file := fun f file found opened => (inv.kept.file f file found opened).imp id (.imp stays id) }
    owned := {
      inv.owned with
      body := fun b state found unreleased =>
        (inv.owned.body b state found unreleased).imp id stays
      fresh := fun key h b there own => by
        refine inv.owned.fresh key h b (old there ?_) own
        rintro rfl
        cases own
      single := fun key h key' h' b there there' own own' => by
        refine inv.owned.single key h key' h' b (old there ?_) (old there' ?_) own own'
        · rintro rfl
          cases own
        · rintro rfl
          cases own' }
    readers := {
      reading := fun b state found => by
        rw [inv.readers.reading b state found, count_insert_absent free]
        rfl
      known := fun key h b there reads => by
        refine inv.readers.known key h b (old there ?_) reads
        rintro rfl
        cases reads }
    charged := {
      inv.charged with
      owned := fun live directory => by
        have nothing : (Held.fresh w.closing).credits directory = 0 := by cases directory <;> rfl
        rw [inv.charged.owned live directory, sum_insert_absent free, nothing, add_zero]
      held := fun key h directory there => by
        rcases get_insert_eq_some.mp there with ⟨rfl, rfl⟩ | ⟨-, before⟩
        · cases directory <;> exact le_rfl
        · exact inv.charged.held key h directory before }
    closing := {
      inv.closing with
      planning := by
        rw [inv.closing.planning, count_insert_absent free]
        rfl
      planner := fun key h there idle => by
        rcases get_insert_eq_some.mp there with ⟨rfl, rfl⟩ | ⟨-, before⟩
        · exact ⟨rfl, rfl, rfl⟩
        · exact inv.closing.planner key h before idle
      late := fun key h there late => by
        rcases get_insert_eq_some.mp there with ⟨rfl, rfl⟩ | ⟨-, before⟩
        · exact late
        · exact inv.closing.late key h before late }
    sleepers := inv.sleepers }

theorem reserve_made {directory : Bool} {bytes : Int32} (answered : w.reserve directory bytes = some w') :
    w'.made = w.made := by
  obtain ⟨c, -, rfl⟩ := Option.map_eq_some_iff.mp answered
  rfl

theorem release_made (directory : Bool) (bytes : Int32) : (w.release directory bytes).made = w.made := by
  unfold World.release
  split_ifs <;> rfl

theorem settle_made (b : BodyId) : (w.settle b).made = w.made := by
  unfold World.settle
  split
  · rfl
  · dsimp only
    split_ifs
    · rfl
    · rw [release_made, release_made]
      rfl

theorem finish_made {f : FileId} {op : Op} {answer : Except Failure op.Value}
    (answered : w.finish f op answer = some w') : w'.made = w.made := by
  cases answer with
  | error e =>
    cases answered
    rfl
  | ok value =>
    cases op with
    | opens relative =>
      obtain ⟨-, rfl⟩ := answering_some.mp answered
      rfl
    | names budget =>
      obtain ⟨names, charge⟩ := value
      have granted : (w.jobEnded f).reserve true charge = some w' := answered
      exact (reserve_made granted).trans rfl
    | reads offset length => cases answered; rfl
    | checks => cases answered; rfl
    | sends offset length => cases answered; rfl

theorem submit_made {f : FileId} {op : Op} {answer : Except Engine.NativeError Unit}
    (answered : w.submit f op answer = some w') : w'.made = w.made := by
  unfold World.submit at answered
  split at answered
  · cases answered
  · split at answered
    · obtain ⟨-, rfl⟩ := told_some.mp answered
      rfl
    · obtain ⟨-, rfl⟩ := told_some.mp answered
      rfl
    · cases answered
      rfl
    · cases answered

theorem beginRead_made {b : BodyId} {positive : Bool} {answer : Except Engine.ServerError Unit}
    (answered : w.beginRead b positive answer = some w') : w'.made = w.made := by
  unfold World.beginRead at answered
  split at answered
  · cases answered
  · split at answered
    · obtain ⟨-, rfl⟩ := told_some.mp answered
      rfl
    · cases answered
      rfl
    · cases answered

theorem freeFile_made {f : FileId} (answered : w.freeFile f = some w') : w'.made = w.made := by
  obtain ⟨file, -, rfl⟩ := Option.map_eq_some_iff.mp answered
  split_ifs <;> rfl

-- Only `registers` adds one.
theorem answer_made {query : Ask} {answer : query.Answer}
    (answered : w.answer k query answer = some w') : w.made.length ≤ w'.made.length := by
  have same (equal : w'.made = w.made) : w.made.length ≤ w'.made.length := by rw [equal]
  cases query with
  | registers b charge =>
    obtain ⟨-, rfl⟩ := told_some.mp answered
    simp [World.register]
  | submits f op => exact same (submit_made answered)
  | finishes f op => exact same (finish_made answered)
  | freesFile f => exact same (freeFile_made answered)
  | begins b positive => exact same (beginRead_made answered)
  | reserves directory bytes =>
    cases answer with
    | error e =>
      obtain ⟨-, rfl⟩ := told_some.mp answered
      exact le_rfl
    | ok _ =>
      simp only [World.answer] at answered
      split_ifs at answered
      exact same (reserve_made answered)
  | releases directory bytes =>
    cases answered
    exact same (release_made directory bytes)
  | settles b =>
    cases answered
    exact same (settle_made b)
  | takes b count =>
    obtain ⟨_, -, told⟩ := Option.bind_eq_some_iff.mp answered
    obtain ⟨-, rfl⟩ := told_some.mp told
    exact le_rfl
  | enters =>
    obtain ⟨-, rfl⟩ := told_some.mp answered
    split_ifs <;> exact le_rfl
  | freesPool =>
    cases answered
    split_ifs <;> exact le_rfl
  | stopsRuntime =>
    obtain ⟨-, rfl⟩ := told_some.mp answered
    split_ifs <;> exact le_rfl
  | body b | cursor b | stopped b =>
    obtain ⟨_, -, told⟩ := Option.bind_eq_some_iff.mp answered
    obtain ⟨-, rfl⟩ := told_some.mp told
    exact le_rfl
  | closing | responses =>
    obtain ⟨-, rfl⟩ := told_some.mp answered
    exact le_rfl
  | awaits wait | creates body =>
    obtain ⟨-, rfl⟩ := answering_some.mp answered
    exact le_rfl
  | leaves | shutsFile f | forgets id | ends b | fails b | advances b count | shuts b | stops | clears
  | writes bytes | pauses =>
    cases answered
    exact le_rfl
  | hangs => cases answered

theorem sleep_some {query : Ask} (asleep : w.sleep k query = some w') :
    ∃ wait, query = .awaits wait ∧ w.waits wait = true ∧ (k, wait) ∉ w.asleep ∧
      w' = { w with asleep := (k, wait) :: w.asleep } := by
  unfold World.sleep at asleep
  split at asleep
  · next wait =>
    obtain ⟨waits, rfl⟩ := answering_some.mp asleep
    simp only [Bool.and_eq_true, decide_eq_true_eq] at waits
    exact ⟨wait, rfl, waits.1, waits.2, rfl⟩
  · cases asleep

theorem engine_keeps : Keeps (engine config mime) discipline World.truth World.Numbered
    (fun w _ => .fresh w.closing) Leaves Inv where
  turn := by
    intro w w' held k h known query answer inv has true_ allowed answered within
    have turn := inv.turn has true_ allowed answered within
    exact ⟨turn.fits, turn.inv, turn.learnt, turn.later.truth⟩
  waits := by
    intro w w' held k h known query inv has true_ allowed asleep
    obtain ⟨wait, rfl, waits, -, rfl⟩ := sleep_some asleep
    obtain ⟨kept, later⟩ := inv.sleeps waits
    exact ⟨kept, later.truth⟩
  calls := by
    intro w held k results call inv free returned admitted
    refine ⟨inv.calls free, {fact | w.truth fact}, fun fact holds => holds, ?_⟩
    have base : Fact.known root ∈ {fact | w.truth fact} := by
      obtain ⟨file, found⟩ := inv.kept.base
      exact ⟨file, found, trivial⟩
    refine code_does call w.closing base fun r uses => ?_
    simp only [engine, Call.admitted, uses, Option.all_some, List.contains_iff_mem] at admitted
    obtain ⟨call, h, known, holds, leaves⟩ := returned _ admitted
    obtain ⟨here, made, numbered⟩ := leaves.given r rfl
    exact ⟨holds _ here, holds _ made, holds _ numbered⟩
  turn_bound := fun answered within => (answer_made answered).trans within
  waits_bound := by
    intro w w' k query asleep within
    obtain ⟨wait, -, -, -, rfl⟩ := sleep_some asleep
    exact within

theorem inv_opened (directoryLimit bodyLimit : Int32) : Inv (.opened directoryLimit bodyLimit) ∅ where
  jobs := {
    file := fun f file found => by
      rcases get_insert_eq_some.mp found with ⟨-, rfl⟩ | ⟨-, none_⟩
      · rfl
      · cases none_
    runtime := rfl
    known := fun _ _ _ none_ => by cases none_ }
  freed := {
    nodup := List.nodup_nil
    mem := fun f => by
      refine ⟨fun none_ => (by cases none_), ?_⟩
      rintro ⟨file, found, closed⟩
      rcases get_insert_eq_some.mp found with ⟨-, rfl⟩ | ⟨-, none_⟩
      · cases closed
      · cases none_
    still := fun f file found closed => by
      rcases get_insert_eq_some.mp found with ⟨-, rfl⟩ | ⟨-, none_⟩
      · cases closed
      · cases none_ }
  kept := {
    base := ⟨_, get_insert_self _ _ _⟩
    file := fun f file found opened => by
      rcases get_insert_eq_some.mp found with ⟨rfl, -⟩ | ⟨-, none_⟩
      · exact .inl rfl
      · cases none_
    source := fun _ _ _ none_ => by cases none_
    settled := fun _ _ none_ => by cases none_ }
  owned := {
    body := fun _ _ none_ => by cases none_
    fresh := fun _ _ _ none_ => by cases none_
    single := fun _ _ _ _ _ none_ => by cases none_
    present := fun _ none_ => by cases none_
    nodup := List.nodup_nil
    numbered := fun _ _ none_ => by cases none_ }
  readers := {
    reading := fun _ _ none_ => by cases none_
    known := fun _ _ _ none_ => by cases none_ }
  charged := {
    owned := fun _ directory => by cases directory <;> rfl
    limit := fun directory => by cases directory <;> exact Int.le.intro_sub _ rfl
    held := fun _ _ _ none_ => by cases none_
    bodies := fun _ _ _ none_ => by cases none_ }
  closing := {
    planning := rfl
    planner := fun _ _ none_ => by cases none_
    both := rfl
    late := fun _ _ none_ => by cases none_
    ended := fun closed => by cases closed
    pool := rfl }
  sleepers := fun _ none_ => by cases none_

abbrev EnginePool := Pool World Call CallId Ask Ask.Answer Outcome

theorem engine_books {s : EnginePool}
    (reached : (engine config mime).machine.Reachable s) (numbered : s.world.Numbered) :
    ∃ held, Books discipline World.truth Leaves Inv s held :=
  engine_keeps.reachable (inv_opened _ _) reached numbered

end HttpServer.Shared
