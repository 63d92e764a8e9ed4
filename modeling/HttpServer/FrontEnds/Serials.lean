import HttpServer.FrontEnds.Bridge
import HttpServer.StaticPlan.Depth

set_option autoImplicit false

namespace HttpServer.Wasm

open Unicode Text HttpServer.Core Dialogue
open StaticPlan (Step Query)

inductive Call where
  | configure (text : Str)
  | beginRequest (id : Int32) (text : Str)
  | complete (id serial : Int32) (text : Str)
  | takeChunk (id offset count : Int32)
  | release (id : Int32)

/-- Beside the bridge: how many requests were begun, which of them stands under an id, and whose
continuation took effect at which serial. -/
structure Traced where
  state : State
  begun : Nat
  owner : Int32 → Nat
  taken : List (Nat × Int32)

def Traced.initial : Traced := ⟨.initial, 0, fun _ => 0, []⟩

variable (reader : Reader)

def Traced.call (t : Traced) : Call → Traced
  | .configure text => { t with state := (configure reader t.state text).1 }
  | .beginRequest id text =>
      let (state, reply) := beginCall reader t.state id text
      if reply.accepted then
        { t with state, begun := t.begun + 1, owner := Function.update t.owner id t.begun }
      else { t with state }
  | .complete id serial text =>
      let (state, reply) := complete reader t.state id serial text
      if reply.accepted then { t with state, taken := t.taken ++ [(t.owner id, serial)] }
      else { t with state }
  | .takeChunk id offset count => { t with state := (takeChunk t.state id offset count).1 }
  | .release id => { t with state := release t.state id }

def after (calls : List Call) : Traced := calls.foldl (Traced.call reader) .initial

/-- An answer goes to the question that is asked, and to what waits for it, once. -/
structure Resumed (p : Pending) (text : Str) (next : Step) : Prop where
  answered : ∃ value, reader.json text = some value ∧ resume reader p.step value = .ok next
  continued : ∃ (query : Query) (rest : query.Answer → Step) (answer : query.Answer),
    p.step = .ask query rest ∧ next = rest answer

/-- A call of `complete` changes nothing, or moves the one request on by one serial to where its
pending step goes with this answer. -/
structure Atomic (s : State) (id serial : Int32) (text : Str) : Prop where
  rejected : (complete reader s id serial text).2.accepted = false →
    (complete reader s id serial text).1 = s
  accepted : (complete reader s id serial text).2.accepted = true → ∃ p step,
    s.requests.get id = some p ∧ p.serial = serial ∧ Resumed reader p text step ∧
      (serial + 1).toInt = serial.toInt + 1 ∧
      (complete reader s id serial text).1 =
        { s with requests := s.requests.insert id ⟨step, serial + 1⟩ }
  unknown : s.requests.get id = none → (complete reader s id serial text).2.accepted = false
  stale : ∀ p, s.requests.get id = some p → p.serial ≠ serial →
    (complete reader s id serial text).2.accepted = false
  malformed : reader.json text = none → (complete reader s id serial text).2.accepted = false
  unfit : ∀ p value, s.requests.get id = some p → reader.json text = some value →
    (∀ step, resume reader p.step value ≠ .ok step) →
    (complete reader s id serial text).2.accepted = false

theorem raised_ok {step next : Step} (goes : raised step = .ok next) : next = step := by
  unfold raised at goes
  split at goes
  next => cases goes
  next => cases goes
  next => exact (Except.ok.inj goes).symm

-- Only a step that asks goes on, with an answer to its question.
theorem resume_ok {step next : Step} {value : Json} (goes : resume reader step value = .ok next) :
    ∃ (query : Query) (rest : query.Answer → Step) (answer : query.Answer),
      step = .ask query rest ∧ next = rest answer := by
  unfold resume at goes
  split at goes
  next path rest => exact ⟨_, rest, none, rfl, raised_ok goes⟩
  next path rest _ =>
    cases file : fileOf reader value with
    | error e =>
      rw [file] at goes
      cases goes
    | ok f =>
      rw [file] at goes
      exact ⟨_, rest, some f, rfl, raised_ok goes⟩
  next file count rest items =>
    cases bytes : items.mapM (byteOf reader) with
    | error e =>
      rw [bytes] at goes
      cases goes
    | ok content =>
      rw [bytes] at goes
      exact ⟨_, rest, content, rfl, raised_ok goes⟩
  next path rest items =>
    cases entries : items.mapM (entryOf reader) with
    | error e =>
      rw [entries] at goes
      cases goes
    | ok listed =>
      rw [entries] at goes
      exact ⟨_, rest, listed, rfl, raised_ok goes⟩
  next => cases goes

theorem stop_rejected (stop : Stop) : stop.reply.accepted = false := by
  cases stop <;> rfl

theorem complete_cases (s : State) (id serial : Int32) (text : Str) :
    (complete reader s id serial text).2.accepted = false ∧ (complete reader s id serial text).1 = s ∨
      ∃ p value step, s.requests.get id = some p ∧ p.serial = serial ∧ reader.json text = some value ∧
        resume reader p.step value = .ok step ∧
        (complete reader s id serial text).2.accepted = true ∧
        (complete reader s id serial text).1 =
          { s with requests := s.requests.insert id ⟨step, serial + 1⟩ } := by
  unfold complete
  cases goes : completing reader s id serial text with
  | error stop => exact Or.inl ⟨stop_rejected stop, rfl⟩
  | ok next =>
    right
    unfold completing at goes
    cases found : s.requests.get id with
    | none =>
      rw [found] at goes
      cases goes
    | some p =>
      rw [found] at goes
      dsimp only at goes
      by_cases same : p.serial = serial
      · rw [if_pos same] at goes
        unfold parsed at goes
        cases read : reader.json text with
        | none =>
          rw [read] at goes
          cases goes
        | some value =>
          rw [read] at goes
          cases resumed : resume reader p.step value with
          | error stop =>
            simp only [pure_bind, resumed] at goes
            cases goes
          | ok step =>
            simp only [pure_bind, resumed] at goes
            obtain rfl := Except.ok.inj goes
            exact ⟨p, value, step, rfl, same, rfl, resumed, rfl, by rw [same]⟩
      · rw [if_neg same] at goes
        cases goes

theorem beginCall_cases (s : State) (id : Int32) (text : Str) :
    (beginCall reader s id text).2.accepted = false ∧ (beginCall reader s id text).1 = s ∨
      ∃ config request mime, s.requests.get id = none ∧
        (beginCall reader s id text).2.accepted = true ∧
        (beginCall reader s id text).1 =
          { s with requests := s.requests.insert id ⟨StaticPlan.start config request mime, 0⟩ } := by
  unfold beginCall
  cases opens : opening reader s id text with
  | error stop => exact Or.inl ⟨stop_rejected stop, rfl⟩
  | ok step =>
    right
    unfold opening at opens
    split at opens
    next => cases opens
    next free =>
      have none : s.requests.get id = none := by
        simp only [Bool.not_eq_true', Bool.not_eq_false, Bool.and_eq_true] at free
        simpa [OrderedMap.contains] using free.1.2
      unfold parsed at opens
      cases read : reader.json text with
      | none =>
        rw [read] at opens
        cases opens
      | some value =>
        rw [read] at opens
        simp only [pure_bind] at opens
        split at opens
        next request config _ mime _ _ _ _ =>
          exact ⟨config.toConfig, request, mime, none, rfl, by rw [raised_ok opens]⟩
        next => cases opens
        next => cases opens

/-- The step that a plan comes to by as many answers as the serial says. -/
def Pending.Valid (p : Pending) : Prop :=
  ∃ config request mime past last, Run (StaticPlan.start config request mime) past last ∧
    p.serial.toInt = past.length ∧ (last = p.step ∨ ∃ response, p.step = .done (.responds response))

structure Sound (t : Traced) : Prop where
  valid : ∀ id p, t.state.requests.get id = some p → p.Valid
  known : ∀ id p, t.state.requests.get id = some p → t.owner id < t.begun
  apart : ∀ id p other q, t.state.requests.get id = some p → t.state.requests.get other = some q →
    t.owner id = t.owner other → id = other
  earlier : ∀ id p serial, t.state.requests.get id = some p → (t.owner id, serial) ∈ t.taken →
    serial.toInt < p.serial.toInt
  begun : ∀ event ∈ t.taken, event.1 < t.begun
  once : t.taken.Nodup

theorem Pending.Valid.next {p : Pending} (valid : p.Valid) {value : Json} {step : Step}
    (goes : resume reader p.step value = .ok step) :
    (p.serial + 1).toInt = p.serial.toInt + 1 ∧ (⟨step, p.serial + 1⟩ : Pending).Valid := by
  obtain ⟨query, rest, answer, asks, rfl⟩ := resume_ok reader goes
  obtain ⟨config, request, mime, past, last, run, count, same | ⟨response, done⟩⟩ := valid
  · have further : Run (StaticPlan.start config request mime) (past ++ [⟨query, answer⟩]) (rest answer) := by
      rw [same, asks] at run
      exact run.trans (.answer answer (.here _))
    -- A plan asks a few times only, so that serials do not wrap.
    have few := (StaticPlan.start_atMost config request mime).run further
    rw [List.length_append, List.length_singleton] at few
    have bound : p.serial.toInt < 31 := by omega
    have serial : (p.serial + 1).toInt = p.serial.toInt + 1 := by
      have one : (1 : Int32).toInt = 1 := rfl
      rw [Int32.toInt_add, one]
      exact Int.bmod_eq_of_le (by omega) (by omega)
    refine ⟨serial, config, request, mime, _, _, further, ?_, Or.inl rfl⟩
    rw [serial, count, List.length_append, List.length_singleton]
    omega
  · rw [done] at asks
    cases asks

theorem Sound.initial : Sound .initial where
  valid _ _ found := by cases found
  known _ _ found := by cases found
  apart _ _ _ _ found := by cases found
  earlier _ _ _ found := by cases found
  begun _ member := by cases member
  once := List.nodup_nil

section

variable {reader} {t : Traced}

-- A state whose requests wait at the same serials, some of which may have been given up.
theorem Sound.of_serials (sound : Sound t) {state : State}
    (same : ∀ id p, state.requests.get id = some p → p.Valid ∧ ∃ q,
      t.state.requests.get id = some q ∧ q.serial = p.serial) : Sound { t with state } where
  valid id p found := (same id p found).1
  known id p found := by
    obtain ⟨-, q, before, -⟩ := same id p found
    exact sound.known id q before
  apart id p other q found found' := by
    obtain ⟨-, p', before, -⟩ := same id p found
    obtain ⟨-, q', before', -⟩ := same other q found'
    exact sound.apart id p' other q' before before'
  earlier id p serial found member := by
    obtain ⟨-, q, before, equal⟩ := same id p found
    rw [← equal]
    exact sound.earlier id q serial before member
  begun := sound.begun
  once := sound.once

theorem Sound.unchanged (sound : Sound t) {state : State}
    (same : state.requests = t.state.requests) : Sound { t with state } := by
  apply sound.of_serials
  intro id p found
  rw [same] at found
  exact ⟨sound.valid id p found, p, found, rfl⟩

theorem Sound.configure (sound : Sound t) (text : Str) :
    Sound (t.call reader (.configure text)) := by
  apply sound.unchanged
  unfold Wasm.configure
  dsimp only
  split <;> rfl

theorem Sound.release (sound : Sound t) (id : Int32) : Sound (t.call reader (.release id)) := by
  apply sound.of_serials
  intro other p found
  unfold Wasm.release at found
  rw [OrderedMap.get_erase] at found
  split at found
  next => cases found
  next => exact ⟨sound.valid other p found, p, found, rfl⟩

theorem takeChunk_cases (s : State) (id offset count : Int32) :
    (takeChunk s id offset count).1 = s ∨ ∃ response p later, s.requests.get id = some p ∧
      p.step = .done (.responds response) ∧ (takeChunk s id offset count).1 =
        { s with requests := s.requests.insert id ⟨.done (.responds later), p.serial⟩ } := by
  unfold takeChunk
  split
  next response serial found =>
    split
    next =>
      split
      next =>
        split
        next =>
          unfold takeBody
          split
          next => exact Or.inl rfl
          next => split <;> exact Or.inl rfl
          next => exact Or.inr ⟨response, _, _, found, rfl, rfl⟩
          next => exact Or.inl rfl
        next => exact Or.inl rfl
      next => exact Or.inl rfl
    next => exact Or.inl rfl
  next => exact Or.inl rfl

theorem Sound.takeChunk (sound : Sound t) (id offset count : Int32) :
    Sound (t.call reader (.takeChunk id offset count)) := by
  rcases takeChunk_cases t.state id offset count with same | ⟨response, p, later, found, done, next⟩
  · exact sound.unchanged (by rw [same])
  · apply sound.of_serials
    rw [next]
    apply OrderedMap.forall_insert
    · obtain ⟨config, request, mime, past, last, run, length, -⟩ := sound.valid id p found
      exact ⟨⟨config, request, mime, past, last, run, length, Or.inr ⟨later, rfl⟩⟩, p, found, rfl⟩
    · exact fun other q _ before => ⟨sound.valid other q before, q, before, rfl⟩

theorem Sound.beginRequest (sound : Sound t) (id : Int32) (text : Str) :
    Sound (t.call reader (.beginRequest id text)) := by
  unfold Traced.call
  dsimp only
  rcases beginCall_cases reader t.state id text with ⟨refused, same⟩ |
    ⟨config, request, mime, free, taken, next⟩
  · rw [refused, if_neg (by decide)]
    exact sound.unchanged (by rw [same])
  · rw [taken, if_pos rfl, next]
    have old (other : Int32) (q : Pending) (found : t.state.requests.get other = some q) :
        other ≠ id := by
      rintro rfl
      rw [free] at found
      cases found
    have fresh : (⟨StaticPlan.start config request mime, 0⟩ : Pending).Valid :=
      ⟨config, request, mime, [], _, .here _, rfl, Or.inl rfl⟩
    constructor
    · exact OrderedMap.forall_insert fresh fun other q _ before => sound.valid other q before
    · apply OrderedMap.forall_insert
      · simp
      · intro other q elsewhere before
        have known := sound.known other q before
        simp only [Function.update_of_ne elsewhere]
        omega
    · intro other q another r found found' same
      dsimp only at same
      rcases OrderedMap.get_insert_eq_some.mp found with ⟨rfl, -⟩ | ⟨elsewhere, before⟩
      · rcases OrderedMap.get_insert_eq_some.mp found' with ⟨rfl, -⟩ | ⟨elsewhere', before'⟩
        · rfl
        · have known := sound.known another r before'
          rw [Function.update_self, Function.update_of_ne elsewhere'] at same
          omega
      · rcases OrderedMap.get_insert_eq_some.mp found' with ⟨rfl, -⟩ | ⟨elsewhere', before'⟩
        · have known := sound.known other q before
          rw [Function.update_self, Function.update_of_ne elsewhere] at same
          omega
        · rw [Function.update_of_ne elsewhere, Function.update_of_ne elsewhere'] at same
          exact sound.apart other q another r before before' same
    · intro other q serial found member
      dsimp only at member
      rcases OrderedMap.get_insert_eq_some.mp found with ⟨rfl, -⟩ | ⟨elsewhere, before⟩
      · -- Nothing has taken effect under a number that is given out now.
        rw [Function.update_self] at member
        exact absurd (sound.begun _ member) (Nat.lt_irrefl _)
      · rw [Function.update_of_ne elsewhere] at member
        exact sound.earlier other q serial before member
    · intro event member
      exact Nat.lt_succ_of_lt (sound.begun event member)
    · exact sound.once

theorem Sound.complete (sound : Sound t) (id serial : Int32) (text : Str) :
    Sound (t.call reader (.complete id serial text)) := by
  unfold Traced.call
  dsimp only
  rcases complete_cases reader t.state id serial text with ⟨refused, same⟩ |
    ⟨p, value, step, found, equal, read, resumed, taken, next⟩
  · rw [refused, if_neg (by decide)]
    exact sound.unchanged (by rw [same])
  · rw [taken, if_pos rfl, next]
    obtain ⟨further, valid⟩ := (sound.valid id p found).next reader resumed
    rw [equal] at further valid
    have before {other : Int32} {q : Pending} (reached : (t.state.requests.insert id
        ⟨step, serial + 1⟩).get other = some q) : ∃ r, t.state.requests.get other = some r := by
      rcases OrderedMap.get_insert_eq_some.mp reached with ⟨rfl, -⟩ | ⟨-, here⟩
      · exact ⟨p, found⟩
      · exact ⟨q, here⟩
    constructor
    · exact OrderedMap.forall_insert valid fun other q _ here => sound.valid other q here
    · intro other q reached
      obtain ⟨r, here⟩ := before reached
      exact sound.known other r here
    · intro other q another r reached reached' same
      obtain ⟨q', here⟩ := before reached
      obtain ⟨r', here'⟩ := before reached'
      exact sound.apart other q' another r' here here' same
    · intro other q n reached member
      rcases List.mem_append.mp member with old | new
      · rcases OrderedMap.get_insert_eq_some.mp reached with ⟨rfl, rfl⟩ | ⟨-, here⟩
        · have low := sound.earlier other p n found old
          rw [equal] at low
          dsimp only
          omega
        · exact sound.earlier other q n here old
      · obtain ⟨same, rfl⟩ := Prod.mk.inj (List.mem_singleton.mp new)
        rcases OrderedMap.get_insert_eq_some.mp reached with ⟨-, rfl⟩ | ⟨elsewhere, here⟩
        · dsimp only
          omega
        · exact absurd (sound.apart other q id p here found same) elsewhere
    · intro event member
      rcases List.mem_append.mp member with old | new
      · exact sound.begun event old
      · rw [List.mem_singleton.mp new]
        exact sound.known id p found
    · refine List.nodup_append.mpr ⟨sound.once, List.nodup_singleton _, ?_⟩
      rintro event old other new rfl
      rw [List.mem_singleton.mp new] at old
      have low := sound.earlier id p serial found old
      rw [equal] at low
      omega

theorem Sound.call (sound : Sound t) (c : Call) : Sound (t.call reader c) := by
  cases c with
  | configure text => exact sound.configure text
  | beginRequest id text => exact sound.beginRequest id text
  | complete id serial text => exact sound.complete id serial text
  | takeChunk id offset count => exact sound.takeChunk id offset count
  | release id => exact sound.release id

end

theorem after_sound (calls : List Call) : Sound (after reader calls) := by
  unfold after
  induction calls using List.reverseRecOn with
  | nil => exact Sound.initial
  | append_singleton calls c ih =>
    rw [List.foldl_append]
    exact ih.call c

theorem complete_atomic {t : Traced} (sound : Sound t) (id serial : Int32) (text : Str) :
    Atomic reader t.state id serial text := by
  rcases complete_cases reader t.state id serial text with ⟨refused, same⟩ |
    ⟨p, value, step, found, equal, read, resumed, taken, next⟩
  · refine ⟨fun _ => same, fun taken => ?_, fun _ => refused, fun _ _ _ => refused,
      fun _ => refused, fun _ _ _ _ _ => refused⟩
    rw [refused] at taken
    cases taken
  · obtain ⟨further, -⟩ := (sound.valid id p found).next reader resumed
    rw [equal] at further
    constructor
    · intro refused
      rw [taken] at refused
      cases refused
    · exact fun _ => ⟨p, step, found, equal, ⟨⟨value, read, resumed⟩, resume_ok reader resumed⟩,
        further, next⟩
    · intro unknown
      rw [found] at unknown
      cases unknown
    · intro q here other
      obtain rfl := Option.some.inj (found.symm.trans here)
      exact absurd equal other
    · intro malformed
      rw [read] at malformed
      cases malformed
    · intro q v here text unfit
      obtain rfl := Option.some.inj (found.symm.trans here)
      obtain rfl := Option.some.inj (read.symm.trans text)
      exact absurd resumed (unfit step)

/-- In every state of the bridge an answer changes nothing, or moves one request on by one serial; a
request stands where its plan comes to by as many answers as its serial says, and no continuation
takes effect twice; a request that is turned away is not begun. -/
theorem bridge_oneShot (calls : List Call) :
    (∀ id serial text, Atomic reader (after reader calls).state id serial text) ∧
      (∀ id p, (after reader calls).state.requests.get id = some p → p.Valid) ∧
      (∀ id text, (beginCall reader (after reader calls).state id text).2.accepted = false →
        (beginCall reader (after reader calls).state id text).1 = (after reader calls).state) ∧
      (after reader calls).taken.Nodup := by
  have sound := after_sound reader calls
  refine ⟨fun id serial text => complete_atomic reader sound id serial text, sound.valid, ?_, sound.once⟩
  intro id text refused
  rcases beginCall_cases reader (after reader calls).state id text with ⟨-, same⟩ | ⟨_, _, _, -, taken, -⟩
  · exact same
  · rw [taken] at refused
    cases refused

end HttpServer.Wasm
