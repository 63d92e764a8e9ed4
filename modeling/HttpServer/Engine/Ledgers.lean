import HttpServer.Engine.Holdings

set_option autoImplicit false

namespace HttpServer.Shared

open OrderedMap Routines

abbrev Holdings := OrderedMap CallId Held

structure Jobs (files : OrderedMap FileId File) (active : Nat) (held : Holdings) : Prop where
  file : ∀ f file, files.get f = some file →
    file.active = held.count fun h => decide (h.job = some f)
  runtime : active = held.count fun h => h.job.isSome
  known : ∀ k h f, held.get k = some h → h.job = some f → ∃ file, files.get f = some file

structure Freed (files : OrderedMap FileId File) (freed : List FileId) : Prop where
  nodup : freed.Nodup
  mem : ∀ f, f ∈ freed ↔ ∃ file, files.get f = some file ∧ file.closed = true
  still : ∀ f file, files.get f = some file → file.closed = true →
    file.closing = true ∧ file.active = 0

/-- Every open file has somebody who will close it. -/
structure Custody (files : OrderedMap FileId File) (bodies : OrderedMap BodyId BodyState)
    (held : Holdings) : Prop where
  base : ∃ file, files.get root = some file
  file : ∀ f file, files.get f = some file → file.closed = false →
    f = root ∨ (∃ k h, held.get k = some h ∧ f ∈ h.files) ∨
      ∃ b state, bodies.get b = some state ∧ state.released = false ∧ state.body.file? = some f
  source : ∀ b state f, bodies.get b = some state → state.body.file? = some f →
    ∃ file, files.get f = some file
  settled : ∀ b state, bodies.get b = some state → state.released = true →
    state.closed = true ∧ state.reading = false ∧
      ∀ f, state.body.file? = some f → ∃ file, files.get f = some file ∧ file.closed = true

/-- So has every body that is not released. -/
structure Owned (bodies : OrderedMap BodyId BodyState) (responses : OrderedMap Int32 BodyId)
    (made : List BodyId) (held : Holdings) : Prop where
  body : ∀ b state, bodies.get b = some state → state.released = false →
    (∃ id, responses.get id = some b) ∨ ∃ k h, held.get k = some h ∧ h.owns = some b
  fresh : ∀ k h b, held.get k = some h → h.owns = some b → b ∉ made ∧
    ∃ state, bodies.get b = some state ∧ state.released = false ∧ state.bodyCharge = 0
  single : ∀ k h k' h' b, held.get k = some h → held.get k' = some h' → h.owns = some b →
    h'.owns = some b → k = k'
  present : ∀ b ∈ made, ∃ state, bodies.get b = some state
  nodup : made.Nodup
  numbered : ∀ id b, responses.get id = some b → ∃ n, made[n]? = some b ∧ id = Int32.ofNat n

structure Readers (bodies : OrderedMap BodyId BodyState) (held : Holdings) : Prop where
  reading : ∀ b state, bodies.get b = some state →
    state.reading.toNat = held.count fun h => decide (h.reads = some b)
  known : ∀ k h b, held.get k = some h → h.reads = some b → ∃ state, bodies.get b = some state

def BodyState.owes (directory : Bool) (state : BodyState) : Int :=
  if state.released then 0
  else if directory then (World.metadataCharge state.body).toInt else state.bodyCharge.toInt

structure Charged (closed : Bool) (credits : Bool → Credits)
    (bodies : OrderedMap BodyId BodyState) (held : Holdings) : Prop where
  owned : closed = false → ∀ directory, (credits directory).owned =
    (held.sum fun _ h => h.credits directory) + bodies.sum fun _ state => state.owes directory
  limit : ∀ directory, (credits directory).owned ≤ 2147483647
  held : ∀ k h directory, held.get k = some h → 0 ≤ h.credits directory
  bodies : ∀ b state directory, bodies.get b = some state → 0 ≤ state.owes directory

structure Closing (w : World) (held : Holdings) : Prop where
  planning : w.planning = held.count fun h => h.planning
  planner : ∀ k h, held.get k = some h → h.planning = false →
    h.files = [] ∧ h.owns = none ∧ h.directory = 0
  both : w.closing = w.runtime.closing
  late : ∀ k h, held.get k = some h → h.late = true → w.closing = true
  ended : w.runtime.closed = true → w.Ended
  pool : w.poolsFreed = w.runtime.closed.toNat

-- Nobody sleeps on for nothing.
def Sleepers (w : World) : Prop := ∀ sleeper ∈ w.asleep, w.waits sleeper.2 = true

structure Inv (w : World) (held : Holdings) : Prop where
  jobs : Jobs w.files w.runtime.active held
  freed : Freed w.files w.freed
  kept : Custody w.files w.bodies held
  owned : Owned w.bodies w.responses w.made held
  readers : Readers w.bodies held
  charged : Charged w.runtime.closed w.runtime.credits w.bodies held
  closing : Closing w held
  sleepers : Sleepers w

-- As many responses as there are keys.
def World.Numbered (w : World) : Prop := w.made.length ≤ 4294967296

instance (w : World) : Decidable w.Numbered := inferInstanceAs (Decidable (_ ≤ _))

section

variable {files : OrderedMap FileId File} {bodies : OrderedMap BodyId BodyState}
  {responses : OrderedMap Int32 BodyId} {made : List BodyId} {active : Nat}
  {closed : Bool} {credits : Bool → Credits}
  {held : Holdings} {k : CallId} {h h' : Held}

theorem Jobs.insert (jobs : Jobs files active held) (has : held.get k = some h)
    (job : h'.job = h.job) : Jobs files active (held.insert k h') where
  file f file found := by
    rw [jobs.file f file found]
    exact (count_insert_same has (by rw [job])).symm
  runtime := by
    rw [jobs.runtime]
    exact (count_insert_same has (by rw [job])).symm
  known := by
    intro key other f there
    exact forall_insert (P := fun _ h => h.job = some f → ∃ file, files.get f = some file)
      (fun asked => jobs.known k h f has (job ▸ asked))
      (fun key other _ before => jobs.known key other f before) key other there

theorem Custody.insert (kept : Custody files bodies held) (has : held.get k = some h)
    (less : ∀ f ∈ h.files, f ∈ h'.files ∨ (∀ file, files.get f = some file → file.closed = true) ∨
      ∃ b state, bodies.get b = some state ∧ state.released = false ∧ state.body.file? = some f) :
    Custody files bodies (held.insert k h') where
  base := kept.base
  file f file found opened := by
    rcases kept.file f file found opened with atRoot | mine | inBody
    · exact .inl atRoot
    · obtain ⟨key, other, there, member⟩ := mine
      by_cases same : key = k
      · subst same
        rw [has] at there
        cases there
        rcases less f member with still | gone | inBody
        · exact .inr (.inl ⟨key, h', get_insert_self _ _ _, still⟩)
        · rw [gone file found] at opened
          cases opened
        · exact .inr (.inr inBody)
      · exact .inr (.inl ⟨key, other, by rwa [get_insert_ne _ _ same], member⟩)
    · exact .inr (.inr inBody)
  source := kept.source
  settled := kept.settled

theorem Owned.insert (owned : Owned bodies responses made held) (has : held.get k = some h)
    (owns : h'.owns = h.owns) : Owned bodies responses made (held.insert k h') where
  body b state found unreleased :=
    (owned.body b state found unreleased).imp id fun mine =>
      exists_insert mine fun old before own => by
        rw [has] at before
        cases before
        rwa [owns]
  fresh := by
    intro key other b there
    exact forall_insert (P := fun _ h => h.owns = some b → b ∉ made ∧ ∃ state,
        bodies.get b = some state ∧ state.released = false ∧ state.bodyCharge = 0)
      (fun own => owned.fresh k h b has (owns ▸ own))
      (fun key other _ before => owned.fresh key other b before) key other there
  single := by
    intro key other key' other' b there there' own own'
    have before (key : CallId) (other : Held) (there : (held.insert k h').get key = some other)
        (own : other.owns = some b) : ∃ old, held.get key = some old ∧ old.owns = some b := by
      rcases get_insert_eq_some.mp there with ⟨rfl, rfl⟩ | ⟨-, before⟩
      · exact ⟨h, has, owns ▸ own⟩
      · exact ⟨other, before, own⟩
    obtain ⟨old, was, own⟩ := before key other there own
    obtain ⟨old', was', own'⟩ := before key' other' there' own'
    exact owned.single key old key' old' b was was' own own'
  present := owned.present
  nodup := owned.nodup
  numbered := owned.numbered

theorem Readers.insert (readers : Readers bodies held) (has : held.get k = some h)
    (reads : h'.reads = h.reads) : Readers bodies (held.insert k h') where
  reading b state found := by
    rw [readers.reading b state found]
    exact (count_insert_same has (by rw [reads])).symm
  known := by
    intro key other b there
    exact forall_insert (P := fun _ h => h.reads = some b → ∃ state, bodies.get b = some state)
      (fun mine => readers.known k h b has (reads ▸ mine))
      (fun key other _ before => readers.known key other b before) key other there

theorem Charged.insert (charged : Charged closed credits bodies held) (has : held.get k = some h)
    (same : ∀ directory, h'.credits directory = h.credits directory) :
    Charged closed credits bodies (held.insert k h') where
  owned live directory := by
    rw [charged.owned live directory, sum_insert has, same directory]
    omega
  limit := charged.limit
  held := by
    intro key other directory there
    exact forall_insert (P := fun _ h => 0 ≤ h.credits directory)
      (by rw [same directory]; exact charged.held k h directory has)
      (fun key other _ before => charged.held key other directory before) key other there
  bodies := charged.bodies

end

end HttpServer.Shared
