import HttpServer.Engine.Ledgers

set_option autoImplicit false

namespace HttpServer.Shared

open OrderedMap Routines
open Engine (NativeError ServerError)

structure File.Later (file file' : File) : Prop where
  closing : file.closing = true → file'.closing = true
  still : file.closing = true → file.active = 0 → file'.active = 0
  closed : file.closed = true → file'.closed = true

structure BodyState.Later (state state' : BodyState) : Prop where
  source : state'.body.file? = state.body.file?
  closed : state.closed = true → state'.closed = true
  quiet : state.closed = true → state.reading = false → state'.reading = false
  released : state.released = true → state'.released = true

/-- Nothing is planned after the last request, and nothing submitted after the last job. -/
structure Later (w w' : World) : Prop where
  file : ∀ f file, w.files.get f = some file → ∃ file', w'.files.get f = some file' ∧ file.Later file'
  body : ∀ b state, w.bodies.get b = some state →
    ∃ state', w'.bodies.get b = some state' ∧ state.Later state'
  made : ∀ (n : Nat) (b : BodyId), w.made[n]? = some b → w'.made[n]? = some b
  stopping : w.Stopping → w'.Stopping
  planning : w.Drained → w'.planning = 0
  responses : w.Drained → ∀ id b, w'.responses.get id = some b → w.responses.get id = some b
  bodies : w.Drained → ∀ b state', w'.bodies.get b = some state' → ∃ state, w.bodies.get b = some state
  active : w.Rested → w'.runtime.active = 0
  closed : w.runtime.closed = true → w'.runtime.closed = true

theorem File.Later.refl (file : File) : file.Later file := ⟨id, fun _ => id, id⟩

theorem BodyState.Later.refl (state : BodyState) : state.Later state := ⟨rfl, id, fun _ => id, id⟩

theorem Later.refl (w : World) : Later w w where
  file _ file found := ⟨file, found, .refl file⟩
  body _ state found := ⟨state, found, .refl state⟩
  made _ _ := id
  stopping := id
  planning drained := drained.2
  responses _ _ _ := id
  bodies _ _ state found := ⟨state, found⟩
  active rested := rested.2
  closed := id

section

variable {w w' w'' : World}

theorem Later.drained (later : Later w w') (drained : w.Drained) : w'.Drained :=
  ⟨later.stopping drained.1, later.planning drained⟩

theorem Later.rested (later : Later w w') (rested : w.Rested) : w'.Rested :=
  ⟨later.stopping rested.1, later.active rested⟩

theorem Later.trans (first : Later w w') (second : Later w' w'') : Later w w'' where
  file f file found := by
    obtain ⟨file', found', one⟩ := first.file f file found
    obtain ⟨file'', found'', two⟩ := second.file f file' found'
    exact ⟨file'', found'', fun c => two.closing (one.closing c),
      fun c still => two.still (one.closing c) (one.still c still), fun c => two.closed (one.closed c)⟩
  body b state found := by
    obtain ⟨state', found', one⟩ := first.body b state found
    obtain ⟨state'', found'', two⟩ := second.body b state' found'
    exact ⟨state'', found'', two.source.trans one.source, fun c => two.closed (one.closed c),
      fun c quiet => two.quiet (one.closed c) (one.quiet c quiet),
      fun r => two.released (one.released r)⟩
  made n b found := second.made n b (first.made n b found)
  stopping stopping := second.stopping (first.stopping stopping)
  planning drained := second.planning (first.drained drained)
  responses drained id b found :=
    first.responses drained id b (second.responses (first.drained drained) id b found)
  bodies drained b state found := by
    obtain ⟨state', found'⟩ := second.bodies (first.drained drained) b state found
    exact first.bodies drained b state' found'
  active rested := second.active (first.rested rested)
  closed closed := second.closed (first.closed closed)

theorem Later.onFile (later : Later w w') {f : FileId} {P : File → Prop} (on : w.OnFile f P)
    (stays : ∀ file file', File.Later file file' → P file → P file') : w'.OnFile f P := by
  obtain ⟨file, found, holds⟩ := on
  obtain ⟨file', found', more⟩ := later.file f file found
  exact ⟨file', found', stays file file' more holds⟩

theorem Later.onBody (later : Later w w') {b : BodyId} {P : BodyState → Prop} (on : w.OnBody b P)
    (stays : ∀ state state', BodyState.Later state state' → P state → P state') : w'.OnBody b P := by
  obtain ⟨state, found, holds⟩ := on
  obtain ⟨state', found', more⟩ := later.body b state found
  exact ⟨state', found', stays state state' more holds⟩

theorem Later.cleared (later : Later w w') (cleared : w.Cleared) : w'.Cleared := by
  obtain ⟨drained, empty, released⟩ := cleared
  refine ⟨later.drained drained, eq_empty fun id => ?_, fun b state' found' => ?_⟩
  · cases found : w'.responses.get id with
    | none => rfl
    | some b =>
      have before := later.responses drained id b found
      rw [empty, get_empty] at before
      cases before
  · obtain ⟨state, found⟩ := later.bodies drained b state' found'
    obtain ⟨after, again, more⟩ := later.body b state found
    rw [found'] at again
    cases again
    exact more.released (released b state found)

theorem Later.truth (later : Later w w') (fact : Fact) (holds : w.truth fact) : w'.truth fact := by
  cases fact with
  | known f => exact later.onFile holds fun _ _ _ => id
  | shutFile f => exact later.onFile holds fun _ _ more => more.closing
  | stillFile f =>
    exact later.onFile holds fun _ _ more still => ⟨more.closing still.1, more.still still.1 still.2⟩
  | freedFile f => exact later.onFile holds fun _ _ more => more.closed
  | present b => exact later.onBody holds fun _ _ _ => id
  | source b file => exact later.onBody holds fun _ _ more same => more.source.trans same
  | shut b => exact later.onBody holds fun _ _ more => more.closed
  | quiet b =>
    exact later.onBody holds fun _ _ more quiet => ⟨more.closed quiet.1, more.quiet quiet.1 quiet.2⟩
  | settled b => exact later.onBody holds fun _ _ more => more.released
  | made b =>
    obtain ⟨n, found⟩ := List.mem_iff_getElem?.mp holds
    exact List.mem_iff_getElem?.mpr ⟨n, later.made n b found⟩
  | numbered id b =>
    obtain ⟨n, found, same⟩ := holds
    exact ⟨n, later.made n b found, same⟩
  | stopping => exact later.stopping holds
  | drained => exact later.drained holds
  | listed bodies =>
    exact ⟨later.drained holds.1, fun id b found => holds.2 id b (later.responses holds.1 id b found)⟩
  | cleared => exact later.cleared holds
  | rested => exact later.rested holds
  | ended =>
    exact ⟨later.cleared holds.1, later.rested holds.2.1,
      later.onFile holds.2.2.1 fun _ _ more => more.closed, later.closed holds.2.2.2⟩

end

section

variable {w w' : World} {held : Holdings} {k : CallId} {h h' : Held} {f : FileId} {b : BodyId}

theorem later_onFile {change : File → File}
    (more : ∀ file, w.files.get f = some file → file.Later (change file)) :
    Later w (w.onFile f change) :=
  { Later.refl w with
    file := fun key file found => by
      refine ⟨_, get_modify_some change found, ?_⟩
      split_ifs with same
      · subst same
        exact more file found
      · exact .refl file }

theorem later_onBody {change : BodyState → BodyState}
    (more : ∀ state, w.bodies.get b = some state → state.Later (change state)) :
    Later w (w.onBody b change) :=
  { Later.refl w with
    body := fun key state found => by
      refine ⟨_, get_modify_some change found, ?_⟩
      split_ifs with same
      · subst same
        exact more state found
      · exact .refl state
    bodies := fun _ key state' found' => by
      rcases modify_cases found' with ⟨rfl, state, found, -⟩ | ⟨-, found⟩
      · exact ⟨state, found⟩
      · exact ⟨state', found⟩ }

theorem Closing.move (closing : Closing w held) (has : held.get k = some h) (later : Later w w')
    (planning : w'.planning + h.planning.toNat = w.planning + h'.planning.toNat)
    (planner : h'.planning = false → h'.files = [] ∧ h'.owns = none ∧ h'.directory = 0)
    (late : h'.late = h.late) (both : w'.closing = w'.runtime.closing)
    (closed : w'.runtime.closed = w.runtime.closed) (pool : w'.poolsFreed = w.poolsFreed) :
    Closing w' (held.insert k h') where
  planning := by
    have change : (held.insert k h').count (fun h => h.planning) + h.planning.toNat =
        held.count (fun h => h.planning) + h'.planning.toNat := count_insert has
    rw [← closing.planning] at change
    omega
  planner := by
    intro key other there
    exact forall_insert (P := fun _ h => h.planning = false →
        h.files = [] ∧ h.owns = none ∧ h.directory = 0)
      planner (fun key other _ before => closing.planner key other before) key other there
  both := both
  late := by
    have closes (isClosing : w.closing = true) : w'.closing = true :=
      (later.stopping ⟨isClosing, closing.both ▸ isClosing⟩).1
    intro key other there
    exact forall_insert (P := fun _ h => h.late = true → w'.closing = true)
      (fun isLate => closes (closing.late k h has (late ▸ isLate)))
      (fun key other _ before isLate => closes (closing.late key other before isLate)) key other there
  ended isClosed := later.truth .ended (closing.ended (closed ▸ isClosed))
  pool := by rw [pool, closed, closing.pool]

theorem Closing.stay (closing : Closing w held) (later : Later w w')
    (planning : w'.planning = w.planning) (both : w'.closing = w'.runtime.closing)
    (closed : w'.runtime.closed = w.runtime.closed) (pool : w'.poolsFreed = w.poolsFreed) :
    Closing w' held where
  planning := planning.trans closing.planning
  planner := closing.planner
  both := both
  late key other there isLate :=
    (later.stopping ⟨closing.late key other there isLate,
      closing.both ▸ closing.late key other there isLate⟩).1
  ended isClosed := later.truth .ended (closing.ended (closed ▸ isClosed))
  pool := by rw [pool, closed, closing.pool]

theorem Sleepers.grow (sleepers : Sleepers w) (asleep : w'.asleep = w.asleep)
    (waits : ∀ wait, w.waits wait = true → w'.waits wait = true) : Sleepers w' := by
  intro sleeper member
  exact waits _ (sleepers sleeper (asleep ▸ member))

theorem Sleepers.broadcast {wait : Wait} (sleepers : Sleepers w) (asleep : w'.asleep = w.asleep)
    (waits : ∀ other, other ≠ wait → w.waits other = true → w'.waits other = true) :
    Sleepers (w'.broadcast wait) := by
  intro sleeper member
  simp only [World.broadcast, List.mem_filter, decide_eq_true_eq] at member
  exact waits _ member.2 (sleepers sleeper (asleep ▸ member.1))

theorem Inv.enters (inv : Inv w held) (has : held.get k = some h) (idle : h.planning = false)
    (opened : w.closing = false) :
    Inv { w with planning := w.planning + 1 } (held.insert k { h with planning := true }) ∧
      Later w { w with planning := w.planning + 1 } := by
  have later : Later w { w with planning := w.planning + 1 } :=
    { Later.refl w with
      planning := fun drained => by
        have closing := drained.1.1
        rw [opened] at closing
        cases closing }
  refine ⟨⟨inv.jobs.insert has rfl, inv.freed, inv.kept.insert has fun f => .inl,
    inv.owned.insert has rfl, inv.readers.insert has rfl, inv.charged.insert has fun _ => rfl,
    inv.closing.move has later ?_ ?_ rfl inv.closing.both rfl rfl, inv.sleepers.grow rfl ?_⟩, later⟩
  · rw [idle]
    rfl
  · intro planning
    cases planning
  · intro wait waits
    cases wait with
    | drained => simp [World.waits]
    | still f => exact waits
    | quiet b => exact waits
    | rested => exact waits

theorem Inv.leaves (inv : Inv w held) (has : held.get k = some h) (planning : h.planning = true)
    (files : h.files = []) (owns : h.owns = none) (directory : h.directory = 0) :
    Inv ({ w with planning := w.planning - 1 }.broadcast .drained)
        (held.insert k { h with planning := false }) ∧
      Later w ({ w with planning := w.planning - 1 }.broadcast .drained) := by
  have some_ : 0 < w.planning := by
    rw [inv.closing.planning]
    exact count_pos has planning
  have later : Later w ({ w with planning := w.planning - 1 }.broadcast .drained) :=
    { Later.refl w with
      stopping := id
      planning := fun drained => by
        have none_ := drained.2
        omega
      active := fun rested => rested.2 }
  refine ⟨⟨inv.jobs.insert has rfl, inv.freed, inv.kept.insert has fun f => .inl,
    inv.owned.insert has rfl, inv.readers.insert has rfl, inv.charged.insert has fun _ => rfl,
    inv.closing.move has later ?_ (fun _ => ⟨files, owns, directory⟩) rfl inv.closing.both rfl rfl,
    inv.sleepers.broadcast rfl ?_⟩, later⟩
  · rw [planning]
    change w.planning - 1 + 1 = w.planning + 0
    omega
  · intro wait other waits
    cases wait with
    | drained => exact absurd rfl other
    | still f => exact waits
    | quiet b => exact waits
    | rested => exact waits

section

variable {files : OrderedMap FileId File} {bodies : OrderedMap BodyId BodyState} {freed : List FileId}
  {active : Nat} {change : File → File}

theorem Freed.modify (ledger : Freed files freed)
    (same : ∀ file, files.get f = some file → (change file).closed = file.closed)
    (still : ∀ file, files.get f = some file → file.closed = true →
      (change file).closing = true ∧ (change file).active = 0) :
    Freed (files.modify f change) freed where
  nodup := ledger.nodup
  mem key := by
    rw [ledger.mem]
    constructor
    · rintro ⟨file, found, closed⟩
      refine ⟨_, get_modify_some change found, ?_⟩
      split_ifs with here
      · subst here
        rw [same file found]
        exact closed
      · exact closed
    · rintro ⟨file, found, closed⟩
      rcases modify_cases found with ⟨rfl, old, before, rfl⟩ | ⟨-, before⟩
      · exact ⟨old, before, same old before ▸ closed⟩
      · exact ⟨file, before, closed⟩
  still key file found closed := by
    rcases modify_cases found with ⟨rfl, old, before, rfl⟩ | ⟨-, before⟩
    · exact still old before (same old before ▸ closed)
    · exact ledger.still key file before closed

theorem Custody.modify (kept : Custody files bodies held)
    (same : ∀ file, files.get f = some file → (change file).closed = file.closed) :
    Custody (files.modify f change) bodies held where
  base := by
    obtain ⟨file, found⟩ := kept.base
    exact ⟨_, get_modify_some change found⟩
  file key file found opened := by
    rcases modify_cases found with ⟨rfl, old, before, rfl⟩ | ⟨-, before⟩
    · exact kept.file key old before (same old before ▸ opened)
    · exact kept.file key file before opened
  source b state key found source := by
    obtain ⟨file, before⟩ := kept.source b state key found source
    exact ⟨_, get_modify_some change before⟩
  settled b state found released := by
    obtain ⟨closed, quiet, gone⟩ := kept.settled b state found released
    refine ⟨closed, quiet, fun key source => ?_⟩
    obtain ⟨file, before, closed⟩ := gone key source
    refine ⟨_, get_modify_some change before, ?_⟩
    split_ifs with here
    · subst here
      rw [same file before]
      exact closed
    · exact closed

theorem Jobs.submitted (jobs : Jobs files active held) (has : held.get k = some h)
    (idle : h.job = none) (known : ∃ file, files.get f = some file) :
    Jobs (files.modify f fun file => { file with active := file.active + 1 }) (active + 1)
      (held.insert k { h with job := some f }) where
  file key file found := by
    have counted : (held.insert k { h with job := some f }).count
        (fun h => decide (h.job = some key)) + (decide (h.job = some key)).toNat =
        held.count (fun h => decide (h.job = some key)) + (decide (some f = some key)).toNat :=
      count_insert has
    rcases modify_cases found with ⟨rfl, old, before, rfl⟩ | ⟨other, before⟩
    · have active := jobs.file key old before
      simp only [idle, reduceCtorEq, decide_false, Bool.toNat_false, decide_true,
        Bool.toNat_true] at counted
      change old.active + 1 = _
      omega
    · have active := jobs.file key file before
      simp only [idle, reduceCtorEq, decide_false, Bool.toNat_false, Option.some.injEq,
        Ne.symm other] at counted
      omega
  runtime := by
    have counted : (held.insert k { h with job := some f }).count (fun h => h.job.isSome) +
        h.job.isSome.toNat = held.count (fun h => h.job.isSome) + true.toNat := count_insert has
    have active := jobs.runtime
    rw [idle] at counted
    change _ + 0 = _ + 1 at counted
    omega
  known key other g there job := by
    rcases get_insert_eq_some.mp there with ⟨rfl, rfl⟩ | ⟨-, before⟩
    · cases job
      obtain ⟨file, found⟩ := known
      exact ⟨_, get_modify_some _ found⟩
    · obtain ⟨file, found⟩ := jobs.known key other g before job
      exact ⟨_, get_modify_some _ found⟩

theorem Jobs.ended (jobs : Jobs files active held) (has : held.get k = some h)
    (busy : h.job = some f) (idle : h'.job = none) :
    Jobs (files.modify f fun file => { file with active := file.active - 1 }) (active - 1)
      (held.insert k h') where
  file key file found := by
    have counted : (held.insert k h').count (fun h => decide (h.job = some key)) +
        (decide (h.job = some key)).toNat =
        held.count (fun h => decide (h.job = some key)) + (decide (h'.job = some key)).toNat :=
      count_insert has
    rcases modify_cases found with ⟨rfl, old, before, rfl⟩ | ⟨other, before⟩
    · have active := jobs.file key old before
      simp only [busy, idle, reduceCtorEq, decide_false, Bool.toNat_false, decide_true,
        Bool.toNat_true] at counted
      change old.active - 1 = _
      omega
    · have active := jobs.file key file before
      simp only [busy, idle, reduceCtorEq, decide_false, Bool.toNat_false, Option.some.injEq,
        Ne.symm other] at counted
      omega
  runtime := by
    have counted : (held.insert k h').count (fun h => h.job.isSome) + h.job.isSome.toNat =
        held.count (fun h => h.job.isSome) + h'.job.isSome.toNat := count_insert has
    have active := jobs.runtime
    rw [busy, idle] at counted
    change _ + 1 = _ + 0 at counted
    omega
  known key other g there job := by
    rcases get_insert_eq_some.mp there with ⟨rfl, rfl⟩ | ⟨-, before⟩
    · rw [idle] at job
      cases job
    · obtain ⟨file, found⟩ := jobs.known key other g before job
      exact ⟨_, get_modify_some _ found⟩

end

theorem Inv.submitted (inv : Inv w held) (has : held.get k = some h) (idle : h.job = none)
    {file : File} (known : w.files.get f = some file) (opened : file.closing = false)
    (running : w.runtime.closing = false) :
    Inv (w.submitted f) (held.insert k { h with job := some f }) ∧ Later w (w.submitted f) := by
  have unique (other : File) (found : w.files.get f = some other) : other = file := by
    rw [known] at found
    exact (Option.some.inj found).symm
  have first : Later w (w.onFile f fun file => { file with active := file.active + 1 }) := by
    refine later_onFile fun other found => ?_
    obtain rfl := unique other found
    exact ⟨id, fun closing => absurd closing (by simp [opened]), id⟩
  have later : Later w (w.submitted f) :=
    { first with
      active := fun rested => by
        have closing := rested.1.2
        rw [running] at closing
        cases closing }
  have kept : Custody (w.submitted f).files w.bodies held := inv.kept.modify fun _ _ => rfl
  refine ⟨⟨inv.jobs.submitted has idle ⟨file, known⟩, inv.freed.modify (fun _ _ => rfl) ?_,
    kept.insert has fun f => .inl, inv.owned.insert has rfl,
    inv.readers.insert has rfl, inv.charged.insert has fun _ => rfl,
    inv.closing.move has later rfl (inv.closing.planner k h has) rfl inv.closing.both rfl rfl,
    inv.sleepers.grow rfl ?_⟩, later⟩
  · intro other found closed
    have closing := (inv.freed.still f other found closed).1
    rw [unique other found, opened] at closing
    cases closing
  · intro wait waits
    cases wait with
    | still g =>
      simp only [World.waits, Option.any_eq_true, decide_eq_true_eq] at waits ⊢
      obtain ⟨old, found, some_⟩ := waits
      refine ⟨_, get_modify_some _ found, ?_⟩
      split_ifs
      · exact Nat.succ_pos _
      · exact some_
    | quiet b => exact waits
    | drained => exact waits
    | rested => simp [World.waits, World.submitted]

theorem Inv.ended (inv : Inv w held) (has : held.get k = some h) (busy : h.job = some f) :
    Inv (w.jobEnded f) (held.insert k { h with job := none }) ∧ Later w (w.jobEnded f) := by
  have first : Later w (w.onFile f fun file => { file with active := file.active - 1 }) :=
    later_onFile fun file _ => ⟨id, fun _ still => by simp [still], id⟩
  have later : Later w (w.jobEnded f) :=
    { first with
      active := fun rested => by
        have none_ := rested.2
        change w.runtime.active - 1 = 0
        omega }
  have kept : Custody (w.jobEnded f).files w.bodies held := inv.kept.modify fun _ _ => rfl
  refine ⟨⟨inv.jobs.ended has busy rfl, inv.freed.modify (fun _ _ => rfl) ?_,
    kept.insert has fun f => .inl, inv.owned.insert has rfl,
    inv.readers.insert has rfl, inv.charged.insert has fun _ => rfl,
    inv.closing.move has later rfl (inv.closing.planner k h has) rfl inv.closing.both rfl rfl, ?_⟩,
    later⟩
  · intro file found closed
    obtain ⟨closing, still⟩ := inv.freed.still f file found closed
    exact ⟨closing, by simp [still]⟩
  · have woken : Sleepers ((w.onFile f fun file => { file with active := file.active - 1 }).broadcast
        (.still f)) := by
      refine inv.sleepers.broadcast rfl fun wait other waits => ?_
      cases wait with
      | still g =>
        have different : g ≠ f := fun same => other (same ▸ rfl)
        simpa [World.waits, World.onFile, get_modify, different] using waits
      | quiet b => exact waits
      | drained => exact waits
      | rested => exact waits
    refine woken.broadcast rfl fun wait other waits => ?_
    cases wait with
    | rested => exact absurd rfl other
    | still g => exact waits
    | quiet b => exact waits
    | drained => exact waits

theorem Inv.opened (inv : Inv w held) (has : held.get k = some h)
    (planning : h.planning = true) (fresh : w.files.get f = none) :
    Inv { w with files := w.files.insert f ⟨false, false, 0⟩ }
        (held.insert k { h with files := f :: h.files }) ∧
      Later w { w with files := w.files.insert f ⟨false, false, 0⟩ } := by
  have other {key : FileId} {file : File} (found : w.files.get key = some file) : key ≠ f := by
    rintro rfl
    rw [fresh] at found
    cases found
  have stays {key : FileId} {file : File} (found : w.files.get key = some file) :
      (w.files.insert f ⟨false, false, 0⟩).get key = some file := by
    rwa [get_insert_ne _ _ (other found)]
  have later : Later w { w with files := w.files.insert f ⟨false, false, 0⟩ } :=
    { Later.refl w with
      file := fun key file found => ⟨file, stays found, .refl file⟩ }
  have jobs : Jobs (w.files.insert f ⟨false, false, 0⟩) w.runtime.active held := {
    file := fun key file found => by
      rcases get_insert_eq_some.mp found with ⟨rfl, rfl⟩ | ⟨-, before⟩
      · by_contra busy
        have some_ : 0 < held.count fun h => decide (h.job = some key) := by
          change ¬0 = _ at busy
          omega
        obtain ⟨other, mine, there, job⟩ := exists_of_count some_
        obtain ⟨file, known⟩ := inv.jobs.known other mine key there (of_decide_eq_true job)
        rw [fresh] at known
        cases known
      · exact inv.jobs.file key file before
    runtime := inv.jobs.runtime
    known := fun key other g there job => by
      obtain ⟨file, found⟩ := inv.jobs.known key other g there job
      exact ⟨file, stays found⟩ }
  have freed : Freed (w.files.insert f ⟨false, false, 0⟩) w.freed := {
    nodup := inv.freed.nodup
    mem := fun key => by
      rw [inv.freed.mem]
      constructor
      · rintro ⟨file, found, closed⟩
        exact ⟨file, stays found, closed⟩
      · rintro ⟨file, found, closed⟩
        rcases get_insert_eq_some.mp found with ⟨rfl, rfl⟩ | ⟨-, before⟩
        · cases closed
        · exact ⟨file, before, closed⟩
    still := fun key file found closed => by
      rcases get_insert_eq_some.mp found with ⟨rfl, rfl⟩ | ⟨-, before⟩
      · cases closed
      · exact inv.freed.still key file before closed }
  have kept : Custody (w.files.insert f ⟨false, false, 0⟩) w.bodies
      (held.insert k { h with files := f :: h.files }) := {
    base := by
      obtain ⟨file, found⟩ := inv.kept.base
      exact ⟨file, stays found⟩
    file := fun key file found opened => by
      rcases get_insert_eq_some.mp found with ⟨rfl, rfl⟩ | ⟨-, before⟩
      · exact .inr (.inl ⟨k, _, get_insert_self _ _ _, List.mem_cons_self⟩)
      · refine (inv.kept.file key file before opened).imp id (.imp (fun mine => ?_) id)
        refine exists_insert mine fun old was member => ?_
        rw [has] at was
        cases was
        exact List.mem_cons_of_mem _ member
    source := fun b state key found source => by
      obtain ⟨file, before⟩ := inv.kept.source b state key found source
      exact ⟨file, stays before⟩
    settled := fun b state found released => by
      obtain ⟨closed, quiet, gone⟩ := inv.kept.settled b state found released
      refine ⟨closed, quiet, fun key source => ?_⟩
      obtain ⟨file, before, closed⟩ := gone key source
      exact ⟨file, stays before, closed⟩ }
  refine ⟨⟨jobs.insert has rfl, freed, kept, inv.owned.insert has rfl,
    inv.readers.insert has rfl, inv.charged.insert has fun _ => rfl,
    inv.closing.move has later rfl ?_ rfl inv.closing.both rfl rfl, inv.sleepers.grow rfl ?_⟩, later⟩
  · intro none_
    rw [planning] at none_
    cases none_
  · intro wait waits
    cases wait with
    | still g =>
      simp only [World.waits, Option.any_eq_true, decide_eq_true_eq] at waits ⊢
      obtain ⟨old, found, some_⟩ := waits
      exact ⟨old, stays found, some_⟩
    | quiet b => exact waits
    | drained => exact waits
    | rested => exact waits

section

variable {files : OrderedMap FileId File} {active : Nat} {change : File → File}

theorem Jobs.modify (jobs : Jobs files active held)
    (same : ∀ file, files.get f = some file → (change file).active = file.active) :
    Jobs (files.modify f change) active held where
  file key file found := by
    rcases modify_cases found with ⟨rfl, old, before, rfl⟩ | ⟨-, before⟩
    · rw [same old before]
      exact jobs.file key old before
    · exact jobs.file key file before
  runtime := jobs.runtime
  known key other g there job := by
    obtain ⟨file, found⟩ := jobs.known key other g there job
    exact ⟨_, get_modify_some _ found⟩

theorem waits_modify (same : ∀ file, w.files.get f = some file → (change file).active = file.active)
    (wait : Wait) (waits : w.waits wait = true) : (w.onFile f change).waits wait = true := by
  cases wait with
  | still g =>
    simp only [World.waits, Option.any_eq_true, decide_eq_true_eq] at waits ⊢
    obtain ⟨old, found, some_⟩ := waits
    refine ⟨_, get_modify_some _ found, ?_⟩
    split_ifs with here
    · subst here
      rw [same old found]
      exact some_
    · exact some_
  | quiet b => exact waits
  | drained => exact waits
  | rested => exact waits

end

theorem Inv.shutsFile (inv : Inv w held) :
    Inv (w.onFile f fun file => { file with closing := true }) held ∧
      Later w (w.onFile f fun file => { file with closing := true }) := by
  have later : Later w (w.onFile f fun file => { file with closing := true }) :=
    later_onFile fun file _ => ⟨fun _ => rfl, fun _ => id, id⟩
  exact ⟨⟨inv.jobs.modify fun _ _ => rfl,
    inv.freed.modify (fun _ _ => rfl) fun file found closed =>
      ⟨rfl, (inv.freed.still f file found closed).2⟩,
    inv.kept.modify fun _ _ => rfl, inv.owned, inv.readers, inv.charged,
    inv.closing.stay later rfl inv.closing.both rfl rfl,
    inv.sleepers.grow rfl (waits_modify fun _ _ => rfl)⟩, later⟩

-- The file of `freesFile` was shut, and nobody submits a job for it any more.
theorem Inv.freesFile (inv : Inv w held) (has : held.get k = some h) {file : File}
    (known : w.files.get f = some file) (closing : file.closing = true) (still : file.active = 0)
    (answered : w.freeFile f = some w') :
    Inv w' (held.insert k (h.without (some f))) ∧ Later w w' := by
  have unique (other : File) (found : w.files.get f = some other) : other = file := by
    rw [known] at found
    exact (Option.some.inj found).symm
  have planner : h.planning = false →
      (h.without (some f)).files = [] ∧ h.owns = none ∧ h.directory = 0 := by
    intro idle
    obtain ⟨files, owns, directory⟩ := inv.closing.planner k h has idle
    exact ⟨by simp [Held.without, files], owns, directory⟩
  simp only [World.freeFile, known, Option.map_some, Option.some.injEq] at answered
  split_ifs at answered with closed
  · subst answered
    refine ⟨⟨inv.jobs.insert has rfl, inv.freed, inv.kept.insert has fun g member => ?_,
      inv.owned.insert has rfl, inv.readers.insert has rfl, inv.charged.insert has fun _ => rfl,
      inv.closing.move has (.refl w) rfl planner rfl inv.closing.both rfl rfl, inv.sleepers⟩, .refl w⟩
    by_cases same : g = f
    · subst same
      exact .inr (.inl fun other found => unique other found ▸ closed)
    · exact .inl (by simpa [Held.without, same] using member)
  · subst answered
    have first : Later w (w.onFile f fun file => { file with closed := true }) :=
      later_onFile fun _ _ => ⟨id, fun _ => id, fun _ => rfl⟩
    have later : Later w
        { w.onFile f fun file => { file with closed := true } with freed := w.freed ++ [f] } :=
      { first with }
    have absent : f ∉ w.freed := by
      rw [inv.freed.mem]
      rintro ⟨other, found, was⟩
      exact closed (unique other found ▸ was)
    have freed : Freed (w.files.modify f fun file => { file with closed := true })
        (w.freed ++ [f]) := {
      nodup := inv.freed.nodup.append (List.nodup_singleton f) (List.disjoint_singleton.mpr absent)
      mem := fun key => by
        rw [List.mem_append, List.mem_singleton, inv.freed.mem]
        constructor
        · rintro (⟨other, found, was⟩ | rfl)
          · refine ⟨_, get_modify_some _ found, ?_⟩
            split_ifs
            · rfl
            · exact was
          · exact ⟨_, get_modify_some _ known, by simp⟩
        · rintro ⟨other, found, was⟩
          rcases modify_cases found with ⟨rfl, -⟩ | ⟨-, before⟩
          · exact .inr rfl
          · exact .inl ⟨other, before, was⟩
      still := fun key other found was => by
        rcases modify_cases found with ⟨rfl, old, before, rfl⟩ | ⟨-, before⟩
        · obtain rfl := unique old before
          exact ⟨closing, still⟩
        · exact inv.freed.still key other before was }
    have kept : Custody (w.files.modify f fun file => { file with closed := true }) w.bodies held := {
      base := by
        obtain ⟨other, found⟩ := inv.kept.base
        exact ⟨_, get_modify_some _ found⟩
      file := fun key other found opened => by
        rcases modify_cases found with ⟨rfl, old, before, rfl⟩ | ⟨-, before⟩
        · cases opened
        · exact inv.kept.file key other before opened
      source := fun b state key found source => by
        obtain ⟨other, before⟩ := inv.kept.source b state key found source
        exact ⟨_, get_modify_some _ before⟩
      settled := fun b state found released => by
        obtain ⟨isClosed, quiet, gone⟩ := inv.kept.settled b state found released
        refine ⟨isClosed, quiet, fun key source => ?_⟩
        obtain ⟨other, before, was⟩ := gone key source
        refine ⟨_, get_modify_some _ before, ?_⟩
        split_ifs
        · rfl
        · exact was }
    have jobs : Jobs (w.files.modify f fun file => { file with closed := true })
        w.runtime.active held := inv.jobs.modify fun _ _ => rfl
    refine ⟨⟨jobs.insert has rfl, freed,
      kept.insert has fun g member => ?_, inv.owned.insert has rfl, inv.readers.insert has rfl,
      inv.charged.insert has fun _ => rfl,
      inv.closing.move has later rfl planner rfl inv.closing.both rfl rfl,
      inv.sleepers.grow rfl (waits_modify fun _ _ => rfl)⟩, later⟩
    by_cases same : g = f
    · subst same
      refine .inr (.inl fun other found => ?_)
      rcases modify_cases found with ⟨-, old, -, rfl⟩ | ⟨different, -⟩
      · rfl
      · exact absurd rfl different
    · exact .inl (by simpa [Held.without, same] using member)

theorem credits_setCredits (r : Runtime) (directory other : Bool) (c : Credits) :
    (r.setCredits directory c).credits other = if other = directory then c else r.credits other := by
  cases directory <;> cases other <;> rfl

theorem setCredits_rest (r : Runtime) (directory : Bool) (c : Credits) :
    (r.setCredits directory c).closing = r.closing ∧ (r.setCredits directory c).closed = r.closed ∧
      (r.setCredits directory c).active = r.active := by
  cases directory <;> exact ⟨rfl, rfl, rfl⟩

theorem credits_add (h : Held) (directory other : Bool) (bytes : Int) :
    (h.add directory bytes).credits other =
      h.credits other + if other = directory then bytes else 0 := by
  cases directory <;> cases other <;> simp [Held.add, Held.credits]

theorem add_rest (h : Held) (directory : Bool) (bytes : Int) :
    (h.add directory bytes).planning = h.planning ∧ (h.add directory bytes).job = h.job ∧
      (h.add directory bytes).files = h.files ∧ (h.add directory bytes).owns = h.owns ∧
      (h.add directory bytes).reads = h.reads ∧ (h.add directory bytes).late = h.late := by
  cases directory <;> exact ⟨rfl, rfl, rfl, rfl, rfl, rfl⟩

theorem Charged.covers {closed : Bool} {credits : Bool → Credits}
    {bodies : OrderedMap BodyId BodyState} (charged : Charged closed credits bodies held)
    (live : closed = false) (has : held.get k = some h) (directory : Bool) :
    h.credits directory ≤ (credits directory).owned := by
  have mine : h.credits directory ≤ held.sum fun _ h => h.credits directory :=
    le_sum has fun key other there => charged.held key other directory there
  have others : 0 ≤ bodies.sum fun _ state => state.owes directory :=
    sum_nonneg fun b state found => charged.bodies b state directory found
  rw [charged.owned live directory]
  omega

-- What the pool owns of one kind changes by as much as the call holds.
theorem Inv.moves (inv : Inv w held) (has : held.get k = some h) (directory : Bool) (bytes : Int)
    (c : Credits) (owned : w.runtime.closed = false → c.owned = (w.runtime.credits directory).owned + bytes)
    (limit : c.owned ≤ 2147483647) (enough : 0 ≤ h.credits directory + bytes)
    (planner : directory = true → h.planning = false → bytes = 0) :
    Inv { w with runtime := w.runtime.setCredits directory c } (held.insert k (h.add directory bytes)) ∧
      Later w { w with runtime := w.runtime.setCredits directory c } := by
  obtain ⟨closing, closed, active⟩ := setCredits_rest w.runtime directory c
  obtain ⟨planning, job, files, owns, reads, late⟩ := add_rest h directory bytes
  have later : Later w { w with runtime := w.runtime.setCredits directory c } :=
    { Later.refl w with
      stopping := fun stopping => ⟨stopping.1, closing.trans stopping.2⟩
      active := fun rested => active.trans rested.2
      closed := fun isClosed => closed.trans isClosed }
  have jobs : Jobs w.files (w.runtime.setCredits directory c).active held := by
    rw [active]
    exact inv.jobs
  have charged : Charged (w.runtime.setCredits directory c).closed
      (w.runtime.setCredits directory c).credits w.bodies (held.insert k (h.add directory bytes)) := {
    owned := fun live other => by
      rw [closed] at live
      rw [credits_setCredits, sum_insert has, credits_add]
      have before := inv.charged.owned live other
      split_ifs with same
      · subst same
        rw [owned live]
        omega
      · omega
    limit := fun other => by
      rw [credits_setCredits]
      split_ifs
      · exact limit
      · exact inv.charged.limit other
    held := by
      intro key mine other there
      refine forall_insert (P := fun _ h => 0 ≤ h.credits other) ?_
        (fun key mine _ before => inv.charged.held key mine other before) key mine there
      have before := inv.charged.held k h other has
      rw [credits_add]
      split_ifs with same
      · subst same
        exact enough
      · omega
    bodies := inv.charged.bodies }
  refine ⟨⟨jobs.insert has job, inv.freed, inv.kept.insert has fun f member => .inl (files ▸ member),
    inv.owned.insert has owns, inv.readers.insert has reads, charged,
    inv.closing.move has later (by rw [planning]) ?_ late (inv.closing.both.trans closing.symm) closed
      rfl, inv.sleepers.grow rfl fun wait waits => ?_⟩, later⟩
  · intro idle
    rw [planning] at idle
    obtain ⟨noFiles, noBody, nothing⟩ := inv.closing.planner k h has idle
    refine ⟨files.trans noFiles, owns.trans noBody, ?_⟩
    cases directory with
    | false => exact nothing
    | true =>
      change h.directory + bytes = 0
      rw [nothing, planner rfl idle]
      rfl
  · cases wait with
    | rested =>
      change decide (0 < (w.runtime.setCredits directory c).active) = true
      rw [active]
      exact waits
    | still f => exact waits
    | quiet b => exact waits
    | drained => exact waits

theorem Inv.reserves {directory : Bool} {bytes : Int32} (inv : Inv w held)
    (has : held.get k = some h) (planner : directory = true → h.planning = true)
    (live : w.runtime.closed = false) (answered : w.reserve directory bytes = some w') :
    (0 ≤ bytes.toInt ∧ h.credits directory + bytes.toInt ≤ 2147483647) ∧
      Inv w' (held.insert k (h.add directory bytes.toInt)) ∧ Later w w' := by
  simp only [World.reserve, Option.map_eq_some_iff, Credits.reserve] at answered
  obtain ⟨c, granted, rfl⟩ := answered
  split_ifs at granted with refused
  cases granted
  have mine := inv.charged.covers live has directory
  have most := (w.runtime.credits directory).limit.toInt_le
  have before := inv.charged.held k h directory has
  have largest : Int32.maxValue.toInt = 2147483647 := by decide
  refine ⟨by omega, inv.moves has directory bytes.toInt _ (fun _ => rfl) ?_ (by omega) ?_⟩
  · dsimp only
    omega
  · intro isDirectory idle
    rw [planner isDirectory] at idle
    cases idle

theorem setCredits_same (r : Runtime) (directory : Bool) :
    r.setCredits directory (r.credits directory) = r := by
  cases directory <;> rfl

-- Before the pool is freed, what a call gives back is taken off.
theorem release_live {directory : Bool} {bytes : Int32} (live : w.runtime.closed = false)
    (positive : 0 ≤ bytes.toInt) (covered : bytes.toInt ≤ (w.runtime.credits directory).owned) :
    w.release directory bytes =
      { w with
        runtime := w.runtime.setCredits directory
          { w.runtime.credits directory with
            owned := (w.runtime.credits directory).owned - bytes.toInt } } := by
  have dead : ¬w.runtime.closed = true := by simp [live]
  rw [World.release, if_neg dead, Credits.release, if_pos ⟨positive, covered⟩]

theorem Inv.releases {directory : Bool} {bytes : Int32} (inv : Inv w held)
    (has : held.get k = some h) (positive : 0 ≤ bytes.toInt)
    (enough : bytes.toInt ≤ h.credits directory) :
    Inv (w.release directory bytes) (held.insert k (h.add directory (-bytes.toInt))) ∧
      Later w (w.release directory bytes) := by
  have planner : directory = true → h.planning = false → -bytes.toInt = 0 := by
    rintro rfl idle
    have nothing : h.credits true = 0 := (inv.closing.planner k h has idle).2.2
    omega
  have most := inv.charged.limit directory
  by_cases closed : w.runtime.closed = true
  · have same : w.release directory bytes =
        { w with runtime := w.runtime.setCredits directory (w.runtime.credits directory) } := by
      rw [World.release, if_pos closed, setCredits_same]
    rw [same]
    exact inv.moves has directory _ _ (fun live => by rw [closed] at live; cases live) most
      (by omega) planner
  · have live : w.runtime.closed = false := by simpa using closed
    have mine := inv.charged.covers live has directory
    rw [release_live live positive (by omega)]
    refine inv.moves has directory _ _ (fun _ => ?_) ?_ (by omega) planner
    · dsimp only
      omega
    · dsimp only
      omega

structure BodyState.Alike (state state' : BodyState) : Prop where
  later : state.Later state'
  released : state'.released = state.released
  idle : state.released = true → state'.reading = false

/-- What nobody but a reader can tell. -/
structure BodyState.Calm (state state' : BodyState) : Prop extends BodyState.Alike state state' where
  charge : state'.bodyCharge = state.bodyCharge
  owes : ∀ directory, state'.owes directory = state.owes directory

section

variable {files : OrderedMap FileId File} {bodies : OrderedMap BodyId BodyState}
  {responses : OrderedMap Int32 BodyId} {made : List BodyId} {closed : Bool}
  {credits : Bool → Credits} {change : BodyState → BodyState}

theorem Custody.onBody (kept : Custody files bodies held)
    (alike : ∀ state, bodies.get b = some state → state.Alike (change state)) :
    Custody files (bodies.modify b change) held where
  base := kept.base
  file key file found opened := by
    refine (kept.file key file found opened).imp id (.imp id ?_)
    rintro ⟨key, state, found, unreleased, source⟩
    refine ⟨key, _, get_modify_some change found, ?_⟩
    split_ifs with same
    · subst same
      exact ⟨(alike state found).released.trans unreleased,
        (alike state found).later.source.trans source⟩
    · exact ⟨unreleased, source⟩
  source key state f found source := by
    rcases modify_cases found with ⟨rfl, old, before, rfl⟩ | ⟨-, before⟩
    · exact kept.source key old f before ((alike old before).later.source ▸ source)
    · exact kept.source key state f before source
  settled key state found released := by
    rcases modify_cases found with ⟨rfl, old, before, rfl⟩ | ⟨-, before⟩
    · have was : old.released = true := (alike old before).released ▸ released
      obtain ⟨isClosed, -, gone⟩ := kept.settled key old before was
      refine ⟨(alike old before).later.closed isClosed, (alike old before).idle was, ?_⟩
      rw [(alike old before).later.source]
      exact gone
    · exact kept.settled key state before released

theorem Owned.onBody (owned : Owned bodies responses made held)
    (calm : ∀ state, bodies.get b = some state → state.Calm (change state)) :
    Owned (bodies.modify b change) responses made held where
  body key state found unreleased := by
    rcases modify_cases found with ⟨rfl, old, before, rfl⟩ | ⟨-, before⟩
    · exact owned.body key old before ((calm old before).released ▸ unreleased)
    · exact owned.body key state before unreleased
  fresh key other own there owns := by
    obtain ⟨absent, state, found, unreleased, charge⟩ := owned.fresh key other own there owns
    refine ⟨absent, _, get_modify_some change found, ?_⟩
    split_ifs with same
    · subst same
      exact ⟨(calm state found).released.trans unreleased, (calm state found).charge.trans charge⟩
    · exact ⟨unreleased, charge⟩
  single := owned.single
  present key member := by
    obtain ⟨state, found⟩ := owned.present key member
    exact ⟨_, get_modify_some change found⟩
  nodup := owned.nodup
  numbered := owned.numbered

theorem Charged.onBody (charged : Charged closed credits bodies held)
    (calm : ∀ state, bodies.get b = some state → state.Calm (change state)) :
    Charged closed credits (bodies.modify b change) held where
  owned live directory := by
    rw [charged.owned live directory]
    cases found : bodies.get b with
    | none => rw [modify_none found]
    | some state =>
      rw [sum_modify found, (calm state found).owes directory]
      omega
  limit := charged.limit
  held := charged.held
  bodies key state directory found := by
    rcases modify_cases found with ⟨rfl, old, before, rfl⟩ | ⟨-, before⟩
    · rw [(calm old before).owes directory]
      exact charged.bodies key old directory before
    · exact charged.bodies key state directory before

theorem Readers.onBody (readers : Readers bodies held)
    (same : ∀ state, bodies.get b = some state → (change state).reading = state.reading) :
    Readers (bodies.modify b change) held where
  reading key state found := by
    rcases modify_cases found with ⟨rfl, old, before, rfl⟩ | ⟨-, before⟩
    · rw [same old before]
      exact readers.reading key old before
    · exact readers.reading key state before
  known key other own there reads := by
    obtain ⟨state, found⟩ := readers.known key other own there reads
    exact ⟨_, get_modify_some change found⟩

end

theorem Inv.calm {change : BodyState → BodyState} (inv : Inv w held)
    (calm : ∀ state, w.bodies.get b = some state → state.Calm (change state))
    (same : ∀ state, w.bodies.get b = some state → (change state).reading = state.reading) :
    Inv (w.onBody b change) held ∧ Later w (w.onBody b change) := by
  have later : Later w (w.onBody b change) :=
    later_onBody fun state found => (calm state found).later
  refine ⟨⟨inv.jobs, inv.freed, inv.kept.onBody fun state found => (calm state found).toAlike,
    inv.owned.onBody calm, inv.readers.onBody same, inv.charged.onBody calm,
    inv.closing.stay later rfl inv.closing.both rfl rfl,
    inv.sleepers.grow rfl fun wait waits => ?_⟩, later⟩
  cases wait with
  | quiet key =>
    simp only [World.waits, Option.any_eq_true] at waits ⊢
    obtain ⟨state, found, reading⟩ := waits
    refine ⟨_, get_modify_some _ found, ?_⟩
    split_ifs with here
    · subst here
      rw [same state found]
      exact reading
    · exact reading
  | still f => exact waits
  | drained => exact waits
  | rested => exact waits

theorem Readers.turn {bodies : OrderedMap BodyId BodyState} {change : BodyState → BodyState}
    {state : BodyState} (readers : Readers bodies held) (has : held.get k = some h)
    (found : bodies.get b = some state) (before : h.reads = none ∨ h.reads = some b)
    (after : h'.reads = none ∨ h'.reads = some b)
    (counts : (change state).reading.toNat + (decide (h.reads = some b)).toNat =
      state.reading.toNat + (decide (h'.reads = some b)).toNat) :
    Readers (bodies.modify b change) (held.insert k h') where
  reading key other there := by
    have counted : (held.insert k h').count (fun h => decide (h.reads = some key)) +
        (decide (h.reads = some key)).toNat =
        held.count (fun h => decide (h.reads = some key)) + (decide (h'.reads = some key)).toNat :=
      count_insert has
    rcases modify_cases there with ⟨rfl, old, was, rfl⟩ | ⟨different, was⟩
    · rw [found] at was
      cases was
      have reading := readers.reading key state found
      omega
    · have reading := readers.reading key other was
      have apart (reads : Option BodyId) (known : reads = none ∨ reads = some b) :
          decide (reads = some key) = false := by
        rcases known with rfl | rfl
        · rfl
        · simpa using Ne.symm different
      rw [apart _ before, apart _ after] at counted
      omega
  known key other own there reads := by
    rcases get_insert_eq_some.mp there with ⟨rfl, rfl⟩ | ⟨-, was⟩
    · rcases after with none_ | mine
      · rw [reads] at none_
        cases none_
      · rw [reads] at mine
        cases mine
        exact ⟨_, get_modify_some change found⟩
    · obtain ⟨old, found⟩ := readers.known key other own was reads
      exact ⟨_, get_modify_some change found⟩

theorem Inv.begins {state : BodyState} (inv : Inv w held) (has : held.get k = some h)
    (idle : h.reads = none) (found : w.bodies.get b = some state) (opened : state.closed = false)
    (quiet : state.reading = false) :
    Inv (w.onBody b fun state => { state with reading := true })
        (held.insert k { h with reads := some b }) ∧
      Later w (w.onBody b fun state => { state with reading := true }) := by
  have unique (other : BodyState) (there : w.bodies.get b = some other) : other = state := by
    rw [found] at there
    exact (Option.some.inj there).symm
  have calm (other : BodyState) (there : w.bodies.get b = some other) :
      other.Calm { other with reading := true } := by
    obtain rfl := unique other there
    refine ⟨⟨⟨rfl, id, fun closed => absurd closed (by simp [opened]), id⟩, rfl, ?_⟩, rfl, fun _ => rfl⟩
    intro released
    have closed := (inv.kept.settled b other there released).1
    rw [opened] at closed
    cases closed
  have later : Later w (w.onBody b fun state => { state with reading := true }) :=
    later_onBody fun other there => (calm other there).later
  refine ⟨⟨inv.jobs.insert has rfl, inv.freed,
    (inv.kept.onBody fun other there => (calm other there).toAlike).insert has fun f => .inl,
    (inv.owned.onBody calm).insert has rfl,
    inv.readers.turn has found (.inl idle) (.inr rfl) (by simp [idle, quiet]),
    (inv.charged.onBody calm).insert has fun _ => rfl,
    inv.closing.move has later rfl (inv.closing.planner k h has) rfl inv.closing.both rfl rfl,
    inv.sleepers.grow rfl fun wait waits => ?_⟩, later⟩
  cases wait with
  | quiet key =>
    simp only [World.waits, Option.any_eq_true] at waits ⊢
    obtain ⟨other, there, reading⟩ := waits
    refine ⟨_, get_modify_some _ there, ?_⟩
    split_ifs
    · rfl
    · exact reading
  | still f => exact waits
  | drained => exact waits
  | rested => exact waits

-- The reader has gone, or had gone already.
theorem Inv.stopsReading {change : BodyState → BodyState} (inv : Inv w held)
    (has : held.get k = some h) {state : BodyState} (found : w.bodies.get b = some state)
    (reads : h.reads = some b ∨ h.reads = none ∧ state.reading = false)
    (quiet : (change state).reading = false) (source : (change state).body = state.body)
    (closed : state.closed = true → (change state).closed = true)
    (released : (change state).released = state.released)
    (charge : (change state).bodyCharge = state.bodyCharge) :
    Inv ((w.onBody b change).broadcast (.quiet b)) (held.insert k { h with reads := none }) ∧
      Later w ((w.onBody b change).broadcast (.quiet b)) := by
  have calm (other : BodyState) (there : w.bodies.get b = some other) :
      other.Calm (change other) := by
    rw [found] at there
    cases there
    exact ⟨⟨⟨by rw [source], closed, fun _ _ => quiet, fun was => released.trans was⟩, released,
      fun _ => quiet⟩, charge, fun directory => by simp only [BodyState.owes, released, charge, source]⟩
  have first : Later w (w.onBody b change) :=
    later_onBody fun other there => (calm other there).later
  have later : Later w ((w.onBody b change).broadcast (.quiet b)) := { first with }
  have before : h.reads = none ∨ h.reads = some b := reads.elim .inr fun idle => .inl idle.1
  have counts : (change state).reading.toNat + (decide (h.reads = some b)).toNat =
      state.reading.toNat + (decide ((none : Option BodyId) = some b)).toNat := by
    rcases reads with mine | ⟨idle, was⟩
    · have reading := inv.readers.reading b state found
      have some_ : 0 < held.count fun h => decide (h.reads = some b) :=
        count_pos has (decide_eq_true mine)
      have most : state.reading.toNat ≤ 1 := Bool.toNat_le _
      simp only [quiet, mine, decide_true, Bool.toNat_true, Bool.toNat_false, reduceCtorEq,
        decide_false]
      omega
    · simp [quiet, idle, was]
  refine ⟨⟨inv.jobs.insert has rfl, inv.freed,
    (inv.kept.onBody fun other there => (calm other there).toAlike).insert has fun f => .inl,
    (inv.owned.onBody calm).insert has rfl, inv.readers.turn has found before (.inl rfl) counts,
    (inv.charged.onBody calm).insert has fun _ => rfl,
    inv.closing.move has later rfl (inv.closing.planner k h has) rfl inv.closing.both rfl rfl,
    inv.sleepers.broadcast rfl fun wait other waits => ?_⟩, later⟩
  cases wait with
  | quiet key =>
    have different : key ≠ b := fun same => other (same ▸ rfl)
    simpa [World.waits, World.onBody, get_modify, different] using waits
  | still f => exact waits
  | drained => exact waits
  | rested => exact waits

end

end HttpServer.Shared
