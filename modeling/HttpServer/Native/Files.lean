import HttpServer.Library.MachineInt
import HttpServer.Library.StateRun
import HttpServer.Library.Unicode

set_option autoImplicit false

/-!
# Opened files: checking, reading and sending

The operating system is a list of moments, one for each call that is made: what the file holds at
that moment, and how the call goes.
-/

namespace HttpServer.Native

open Unicode StateRun

/-- The size and the times that `hs_stat` saves when a file is opened. -/
structure HsFile where
  size : Int64
  seconds : Int64
  nanos : Int64
  deriving DecidableEq

structure Snapshot where
  content : Bytes
  seconds : Int64
  nanos : Int64
  bound : content.length < 9223372036854775808
  deriving DecidableEq

def Snapshot.stamp (file : Snapshot) : HsFile :=
  ⟨Int64.ofNat file.content.length, file.seconds, file.nanos⟩

/-- `done` carries the number of bytes that a transfer is ready to move. -/
inductive Answer where
  | done (count : Nat)
  | interrupted
  | unsupported
  | failed
  | cancelled
  deriving DecidableEq

structure Moment where
  file : Snapshot
  answer : Answer
  deriving DecidableEq

structure Host where
  script : List Moment
  socket : Bytes
  deriving DecidableEq

-- The error is the code of the job, or `none` when the script ends before the job does.
abbrev Op := EStateM (Option Int) Host

def now : Op Moment := fun host =>
  match host.script with
  | [] => .error none host
  | moment :: script => .ok moment { host with script }

def write (bytes : Bytes) : Op Unit := modify fun host =>
  { host with socket := host.socket ++ bytes }

def Moment.taken (moment : Moment) (position count : Nat) : Bytes :=
  (moment.file.content.drop position).take count

def hsStat (f : HsFile) : Op Unit := do
  let moment ← now
  if moment.answer = .failed then throw (some (-4))
  if moment.file.stamp ≠ f then throw (some (-3))

def outside (f : HsFile) (offset : Int64) (length : Int32) : Bool :=
  offset < 0 || length < 0 || offset > f.size || length.toInt64 > f.size - offset

-- One round: the check for cancellation and the call of `pread`, or of io_uring.
def readLoop (socket : Bytes) (position : Nat) :
    Nat → List Moment → EStateM.Result (Option Int) Host Bytes
  | 0, script => .ok [] ⟨script, socket⟩
  | _ + 1, [] => .error none ⟨[], socket⟩
  | left + 1, moment :: script =>
      match moment.answer with
      | .cancelled => .error (some (-9)) ⟨script, socket⟩
      | .interrupted => readLoop socket position (left + 1) script
      | .done count =>
          let bytes := moment.taken position (min count (left + 1))
          if bytes = [] then .error (some (-3)) ⟨script, socket⟩
          else
            match readLoop socket (position + bytes.length) (left + 1 - bytes.length) script with
            | .ok rest host => .ok (bytes ++ rest) host
            | .error code host => .error code host
      | _ => .error (some (-4)) ⟨script, socket⟩

def readRounds (position count : Nat) : Op Bytes := fun host =>
  readLoop host.socket position count host.script

def hsRead (f : HsFile) (offset : Int64) (length : Int32) : Op Bytes := do
  hsStat f
  if outside f offset length then throw (some (-3))
  let memory ← now
  if memory.answer = .failed then throw (some (-7))
  let bytes ← readRounds offset.toInt.toNat length.toInt.toNat
  hsStat f
  return bytes

inductive Kernel where
  | linux (uring : Bool)
  | apple
  | windows
  | other
  deriving DecidableEq

/-- What one transfer does: `value` is what the job reports for `bytes`. -/
inductive Sent where
  | moved (bytes : Bytes) (value : Int64)
  | again
  | refused (code : Int)
  deriving DecidableEq

def kernelSend (kernel : Kernel) (moment : Moment) (offset : Int64) (length : Int32) : Sent :=
  let position := offset.toInt.toNat
  let room := length.toInt.toNat
  let part (count : Nat) : Sent :=
    .moved (moment.taken position (min count room))
      (Int64.ofNat (moment.taken position (min count room)).length)
  match kernel with
  | .linux uring =>
      if uring then .refused (-8)
      else
        match moment.answer with
        | .done count => part count
        | .interrupted => .again
        | .unsupported => .refused (-8)
        | _ => .refused (-4)
  | .apple =>
      match moment.answer with
      | .done count => part count
      | .interrupted => part 0
      | .unsupported => .refused (-8)
      | _ => .refused (-4)
  | .windows =>
      -- `TransmitFile` moves the whole region or fails; its count may be missing.
      match moment.answer with
      | .done sent => .moved (moment.taken position room)
          (if sent = 0 then length.toInt64 else Int64.ofNat (moment.taken position room).length)
      | _ => .refused (-4)
  | .other => .refused (-8)

def asChanged (check : Op Unit) : Op Unit := fun host =>
  match check host with
  | .error (some _) after => .error (some (-3)) after
  | result => result

def hsSend (kernel : Kernel) (f : HsFile) (offset : Int64) (length : Int32) : Op Int64 := do
  hsStat f
  if outside f offset length then throw (some (-3))
  if length = 0 then return 0
  let moment ← now
  match kernelSend kernel moment offset length with
  | .refused code => throw (some code)
  | .again => return 0
  | .moved bytes value =>
      write bytes
      if value = 0 then asChanged (hsStat f)
      hsStat f
      return value

/-- Once the size or the times have changed they stay changed; until then the file is `opened`. -/
structure History (opened : Snapshot) (script : List Moment) : Prop where
  kept : ∀ moment ∈ script, moment.file.stamp = opened.stamp → moment.file = opened
  once : script.Pairwise fun earlier later =>
    earlier.file.stamp ≠ opened.stamp → later.file.stamp ≠ opened.stamp

theorem History.unchanged {opened : Snapshot} {script : List Moment}
    (same : ∀ moment ∈ script, moment.file = opened) : History opened script where
  kept moment member _ := same moment member
  once := List.pairwise_of_forall_mem_list fun earlier member _ _ changed =>
    absurd (congrArg Snapshot.stamp (same earlier member)) changed

theorem History.later {opened : Snapshot} {used script : List Moment}
    (history : History opened (used ++ script)) : History opened script where
  kept moment member := history.kept moment (List.mem_append_right used member)
  once := (List.pairwise_append.mp history.once).2.1

def Uses (used : List Moment) (before after : Host) : Prop :=
  before.script = used ++ after.script

theorem Uses.trans {used more : List Moment} {first second third : Host}
    (front : Uses used first second) (back : Uses more second third) :
    Uses (used ++ more) first third := by
  rw [Uses, front, back, List.append_assoc]

theorem History.after {opened : Snapshot} {used : List Moment} {before after : Host}
    (history : History opened before.script) (uses : Uses used before after) :
    History opened after.script := by
  rw [uses] at history
  exact history.later

-- A moment that shows the opened file vouches for every moment before it.
theorem History.earlier {opened : Snapshot} {front back : List Moment} {last : Moment}
    (history : History opened (front ++ back)) (later : last ∈ back)
    (same : last.file.stamp = opened.stamp) : ∀ moment ∈ front, moment.file = opened := by
  intro moment member
  refine history.kept moment (List.mem_append_left back member) ?_
  by_contra changed
  exact (List.pairwise_append.mp history.once).2.2 moment member last later changed same

-- From `before` to `after` at least one moment is used, and only the opened file is seen.
def Saw (opened : Snapshot) (before after : Host) : Prop :=
  ∃ used, Uses used before after ∧ used ≠ [] ∧ ∀ moment ∈ used, moment.file = opened

theorem Saw.trans {opened : Snapshot} {first second third : Host} (front : Saw opened first second)
    (back : Saw opened second third) : Saw opened first third := by
  obtain ⟨used, uses, some, shown⟩ := front
  obtain ⟨more, usesMore, -, shownMore⟩ := back
  refine ⟨used ++ more, uses.trans usesMore, by simp [some], ?_⟩
  intro moment member
  exact (List.mem_append.mp member).elim (shown moment) (shownMore moment)

theorem Saw.history {opened : Snapshot} {before after : Host} (saw : Saw opened before after)
    (history : History opened before.script) : History opened after.script := by
  obtain ⟨used, uses, -, -⟩ := saw
  exact history.after uses

-- Moments that come before those of `back` have shown the opened file as well.
theorem Saw.before {opened : Snapshot} {used : List Moment} {first second third : Host}
    (back : Saw opened second third) (history : History opened first.script)
    (uses : Uses used first second) : Saw opened first third := by
  obtain ⟨more, usesMore, some, shown⟩ := back
  obtain ⟨last, member⟩ := List.exists_mem_of_ne_nil more some
  rw [uses, usesMore] at history
  have early := history.earlier (List.mem_append_left _ member)
    (congrArg Snapshot.stamp (shown last member))
  refine ⟨used ++ more, uses.trans usesMore, by simp [some], ?_⟩
  intro moment inside
  exact (List.mem_append.mp inside).elim (early moment) (shown moment)

theorem Saw.shown {opened : Snapshot} {used : List Moment} {before after : Host}
    (saw : Saw opened before after) (uses : Uses used before after) :
    ∀ moment ∈ used, moment.file = opened := by
  obtain ⟨same, uses', -, shown⟩ := saw
  obtain rfl : same = used := List.append_cancel_right (uses'.symm.trans uses)
  exact shown

theorem now_ok {before after : Host} {moment : Moment} :
    now before = .ok moment after ↔
      before.script = moment :: after.script ∧ after.socket = before.socket := by
  obtain ⟨script, socket⟩ := before
  obtain ⟨left, socket'⟩ := after
  cases script with
  | nil => simp [now]
  | cons first rest =>
    simp only [now, EStateM.Result.ok.injEq, Host.mk.injEq, List.cons.injEq]
    constructor
    · rintro ⟨rfl, rfl, rfl⟩
      exact ⟨⟨rfl, rfl⟩, rfl⟩
    · rintro ⟨⟨rfl, rfl⟩, rfl⟩
      exact ⟨rfl, rfl, rfl⟩

theorem hsStat_ok {f : HsFile} {before after : Host} :
    hsStat f before = .ok () after ↔ ∃ moment, before.script = moment :: after.script ∧
      after.socket = before.socket ∧ moment.answer ≠ .failed ∧ moment.file.stamp = f := by
  simp only [hsStat, bind_ok, ite_ok, throw_ok, pure_ok, now_ok, false_and, exists_false,
    and_false, false_or]
  constructor
  · rintro ⟨moment, host, ⟨script, socket⟩, worked, same, -, rfl⟩
    exact ⟨moment, script, socket, worked, not_not.mp same⟩
  · rintro ⟨moment, script, socket, worked, same⟩
    exact ⟨moment, after, ⟨script, socket⟩, worked, not_not.mpr same, trivial, rfl⟩

theorem hsStat_uses {f : HsFile} {before after : Host} (run : hsStat f before = .ok () after) :
    ∃ moment, Uses [moment] before after ∧ after.socket = before.socket := by
  obtain ⟨moment, script, socket, -, -⟩ := hsStat_ok.mp run
  exact ⟨moment, script, socket⟩

theorem hsStat_saw {opened : Snapshot} {before after : Host}
    (history : History opened before.script)
    (run : hsStat opened.stamp before = .ok () after) :
    Saw opened before after := by
  obtain ⟨moment, script, -, -, same⟩ := hsStat_ok.mp run
  refine ⟨[moment], script, by simp, ?_⟩
  intro only member
  obtain rfl := List.mem_singleton.mp member
  exact history.kept only (by simp [script]) same

theorem length_taken (moment : Moment) (position count : Nat) :
    (moment.taken position count).length = min count (moment.file.content.length - position) := by
  simp [Moment.taken]

-- A stretch of a list is a first piece of it and the rest after that piece.
theorem taken_rest {content : Bytes} {position count left : Nat}
    (part : count ≤ left) :
    (content.drop position).take left = (content.drop position).take count ++
      (content.drop (position + ((content.drop position).take count).length)).take
        (left - ((content.drop position).take count).length) := by
  generalize rest : content.drop position = tail
  have size := List.length_take (i := count) (l := tail)
  have same : tail.take count = tail.take (tail.take count).length := by
    rw [List.take_eq_take_iff]
    omega
  obtain ⟨more, sum⟩ := Nat.exists_eq_add_of_le (show (tail.take count).length ≤ left by omega)
  rw [← List.drop_drop, rest]
  conv_lhs => rw [sum, List.take_add, ← same]
  rw [sum, Nat.add_sub_cancel_left]

-- What the rounds put together is one stretch of the file, when no round sees another file.
theorem readLoop_ok {socket bytes : Bytes} {position left : Nat} {script : List Moment}
    {after : Host} (run : readLoop socket position left script = .ok bytes after) :
    after.socket = socket ∧ bytes.length = left ∧ ∃ used, script = used ++ after.script ∧
      ∀ opened : Snapshot, (∀ moment ∈ used, moment.file = opened) →
        bytes = (opened.content.drop position).take left := by
  induction script generalizing position left bytes with
  | nil =>
    cases left with
    | zero =>
      obtain ⟨rfl, rfl⟩ := EStateM.Result.ok.inj run
      exact ⟨rfl, rfl, [], rfl, fun _ _ => by simp⟩
    | succ left => simp [readLoop] at run
  | cons moment script ih =>
    cases left with
    | zero =>
      obtain ⟨rfl, rfl⟩ := EStateM.Result.ok.inj run
      exact ⟨rfl, rfl, [], rfl, fun _ _ => by simp⟩
    | succ left =>
      rw [readLoop] at run
      split at run
      next => cases run
      next =>
        obtain ⟨same, length, used, whole, exact⟩ := ih run
        refine ⟨same, length, moment :: used, by rw [whole, List.cons_append], ?_⟩
        intro opened shown
        exact exact opened fun later member => shown later (List.mem_cons_of_mem _ member)
      next count _ =>
        dsimp only at run
        split_ifs at run
        split at run
        next rest host loop =>
          obtain ⟨rfl, rfl⟩ := EStateM.Result.ok.inj run
          obtain ⟨same, length, used, whole, exact⟩ := ih loop
          have size : (moment.taken position (min count (left + 1))).length ≤ left + 1 := by
            simp only [Moment.taken, List.length_take]
            omega
          refine ⟨same, by rw [List.length_append, length]; omega, moment :: used,
            by rw [whole, List.cons_append], ?_⟩
          intro opened shown
          have file := shown moment (List.mem_cons_self ..)
          rw [exact opened fun later member => shown later (List.mem_cons_of_mem _ member),
            Moment.taken, file]
          exact (taken_rest (by omega)).symm
        next => cases run
      next => cases run

theorem hsRead_ok {opened : Snapshot} {offset : Int64} {length : Int32} {before after : Host}
    {bytes : Bytes} (history : History opened before.script)
    (run : hsRead opened.stamp offset length before = .ok bytes after) :
    Saw opened before after ∧ after.socket = before.socket ∧
      bytes.length = length.toInt.toNat ∧
      bytes = (opened.content.drop offset.toInt.toNat).take length.toInt.toNat := by
  simp only [hsRead, bind_ok, ite_ok, throw_ok, pure_ok, now_ok, false_and, exists_false,
    and_false, false_or] at run
  obtain ⟨_, first, check, -, memory, second, ⟨script, socket⟩, -, data, third, loop, _, fourth,
    recheck, rfl, rfl⟩ := run
  obtain ⟨start, begins, keeps⟩ := hsStat_uses check
  obtain ⟨same, size, used, rest, exact⟩ := readLoop_ok loop
  have uses : Uses ([start, memory] ++ used) before third := by
    rw [Uses, begins, script, rest]
    rfl
  obtain ⟨last, final, kept⟩ := hsStat_uses recheck
  have saw := (hsStat_saw (history.after uses) recheck).before history uses
  refine ⟨saw, by rw [kept, same, socket, keeps], size, exact opened ?_⟩
  intro moment member
  exact saw.shown (uses.trans final) moment (by simp [member])

theorem Snapshot.stamp_size (file : Snapshot) :
    file.stamp.size.toInt = file.content.length := Int64.toInt_ofNat_of_lt file.bound

-- The region that is asked for lies in the file.
theorem outside_eq_false {f : HsFile} {offset : Int64} {length : Int32}
    (size : 0 ≤ f.size.toInt) :
    outside f offset length = false ↔ 0 ≤ offset.toInt ∧ 0 ≤ length.toInt ∧
      offset.toInt + length.toInt ≤ f.size.toInt := by
  have room : 0 ≤ offset.toInt → (f.size - offset).toInt = f.size.toInt - offset.toInt := by
    intro nonneg
    have high := Int64.toInt_lt f.size
    have top := Int64.toInt_lt offset
    exact MachineInt.sub64 (by omega) (by omega)
  have zero64 : (0 : Int64).toInt = 0 := by decide
  have zero32 : (0 : Int32).toInt = 0 := by decide
  simp only [outside, Bool.or_eq_false_iff, decide_eq_false_iff_not, gt_iff_lt, Int.not_lt,
    Int64.lt_iff_toInt_lt, Int32.lt_iff_toInt_lt, zero64, zero32, Int32.toInt_toInt64]
  constructor
  · rintro ⟨⟨⟨start, positive⟩, -⟩, fits⟩
    rw [room start] at fits
    exact ⟨start, positive, by omega⟩
  · rintro ⟨start, positive, fits⟩
    refine ⟨⟨⟨start, positive⟩, by omega⟩, ?_⟩
    rw [room start]
    omega

structure Moment.Works (opened : Snapshot) (moment : Moment) : Prop where
  file : moment.file = opened
  answer : ∃ count, moment.answer = .done (count + 1)

def Working (opened : Snapshot) (script : List Moment) : Prop :=
  ∀ moment ∈ script, moment.Works opened

theorem Working.history {opened : Snapshot} {script : List Moment}
    (working : Working opened script) : History opened script :=
  .unchanged fun moment member => (working moment member).file

theorem Working.after {opened : Snapshot} {used : List Moment} {before after : Host}
    (working : Working opened before.script) (uses : Uses used before after) :
    Working opened after.script := by
  intro moment member
  exact working moment (by rw [uses]; exact List.mem_append_right used member)

theorem Moment.Works.answer_ne {opened : Snapshot} {moment : Moment}
    (works : moment.Works opened) : moment.answer ≠ .failed := by
  obtain ⟨count, done⟩ := works.answer
  simp [done]

theorem hsStat_runs {opened : Snapshot} {before : Host} (working : Working opened before.script)
    (more : 0 < before.script.length) :
    ∃ after, hsStat opened.stamp before = .ok () after ∧
      before.script.length = after.script.length + 1 := by
  obtain ⟨script, socket⟩ := before
  cases script with
  | nil => simp at more
  | cons moment rest =>
    have works := working moment (by simp)
    refine ⟨⟨rest, socket⟩, hsStat_ok.mpr ⟨moment, rfl, rfl, works.answer_ne, ?_⟩, by simp⟩
    rw [works.file]

theorem readLoop_runs {opened : Snapshot} {socket : Bytes} {position left : Nat}
    {script : List Moment} (working : Working opened script) (enough : left ≤ script.length)
    (inside : position + left ≤ opened.content.length) :
    ∃ bytes rest, readLoop socket position left script = .ok bytes ⟨rest, socket⟩ ∧
      script.length ≤ rest.length + left := by
  induction script generalizing position left with
  | nil =>
    obtain rfl : left = 0 := by simpa using enough
    exact ⟨[], [], rfl, by simp⟩
  | cons moment script ih =>
    cases left with
    | zero => exact ⟨[], moment :: script, rfl, by simp⟩
    | succ left =>
      have works := working moment (by simp)
      obtain ⟨count, done⟩ := works.answer
      have size := length_taken moment position (min (count + 1) (left + 1))
      rw [works.file] at size
      have some : moment.taken position (min (count + 1) (left + 1)) ≠ [] := by
        rw [← List.length_pos_iff]
        omega
      rw [List.length_cons] at enough
      obtain ⟨bytes, rest, loop, few⟩ := @ih
        (position + (moment.taken position (min (count + 1) (left + 1))).length)
        (left + 1 - (moment.taken position (min (count + 1) (left + 1))).length)
        (fun later member => working later (List.mem_cons_of_mem _ member)) (by omega) (by omega)
      refine ⟨moment.taken position (min (count + 1) (left + 1)) ++ bytes, rest, ?_,
        by rw [List.length_cons]; omega⟩
      simp only [readLoop, done, if_neg some, loop]

-- A read needs one moment for each byte at the most, besides its checks.
theorem hsRead_runs {opened : Snapshot} {offset : Int64} {length : Int32} {before : Host}
    (working : Working opened before.script)
    (inside : outside opened.stamp offset length = false)
    (enough : length.toInt.toNat + 3 ≤ before.script.length) :
    ∃ bytes after, hsRead opened.stamp offset length before = .ok bytes after ∧
      before.script.length ≤ after.script.length + (length.toInt.toNat + 3) := by
  have size := opened.stamp_size
  obtain ⟨low, positive, fits⟩ := (outside_eq_false (by omega)).mp inside
  obtain ⟨first, check, few⟩ := hsStat_runs working (by omega)
  obtain ⟨start, begins, -⟩ := hsStat_uses check
  have working := working.after begins
  obtain ⟨script, socket⟩ := first
  cases script with
  | nil =>
    rw [List.length_nil] at few
    omega
  | cons memory script =>
    rw [List.length_cons] at few
    have rest : Working opened script := fun later member =>
      working later (List.mem_cons_of_mem _ member)
    obtain ⟨bytes, left, loop, some⟩ := @readLoop_runs opened socket offset.toInt.toNat
      length.toInt.toNat script rest (by omega) (by omega)
    obtain ⟨-, -, used, whole, -⟩ := readLoop_ok loop
    have last : Working opened left := fun later member =>
      rest later (by rw [whole]; exact List.mem_append_right used member)
    obtain ⟨after, recheck, final⟩ := @hsStat_runs opened ⟨left, socket⟩ last (by
      change 0 < left.length
      omega)
    refine ⟨bytes, after, ?_, by change left.length = _ at final; omega⟩
    simp only [hsRead, bind_ok, ite_ok, throw_ok, pure_ok, now_ok, false_and, exists_false,
      and_false, false_or, Bool.not_eq_true]
    exact ⟨(), _, check, inside, memory, ⟨script, socket⟩, ⟨rfl, rfl⟩,
      (working memory (by simp)).answer_ne, bytes, ⟨left, socket⟩, loop, (), after, recheck, rfl,
      rfl⟩

-- A transfer that is not refused moves the front of the region, and reports its length.
theorem kernelSend_moved {kernel : Kernel} {moment : Moment} {offset : Int64} {length : Int32}
    {bytes : Bytes} {value : Int64}
    (inside : outside moment.file.stamp offset length = false)
    (sent : kernelSend kernel moment offset length = .moved bytes value) :
    value.toInt = bytes.length ∧ bytes.length ≤ length.toInt.toNat ∧
      bytes = (moment.file.content.drop offset.toInt.toNat).take bytes.length := by
  have size := moment.file.stamp_size
  obtain ⟨start, positive, fits⟩ := (outside_eq_false (by omega)).mp inside
  have top := Int32.toInt_lt length
  -- Whatever number of bytes is moved, they are the first ones.
  have front : ∀ count bytes,
      moment.taken offset.toInt.toNat (min count length.toInt.toNat) = bytes →
      (Int64.ofNat bytes.length).toInt = bytes.length ∧ bytes.length ≤ length.toInt.toNat ∧
        bytes = (moment.file.content.drop offset.toInt.toNat).take bytes.length := by
    intro count bytes taken
    have cut := length_taken moment offset.toInt.toNat (min count length.toInt.toNat)
    rw [taken] at cut
    refine ⟨Int64.toInt_ofNat_of_lt (by omega), by omega, ?_⟩
    conv_lhs => rw [← taken]
    rw [Moment.taken, List.take_eq_take_iff, List.length_drop]
    omega
  cases kernel with
  | linux uring =>
    simp only [kernelSend] at sent
    split_ifs at sent
    split at sent <;> cases sent
    exact front _ _ rfl
  | apple =>
    simp only [kernelSend] at sent
    split at sent <;> cases sent
    · exact front _ _ rfl
    · exact front 0 _ rfl
  | windows =>
    simp only [kernelSend] at sent
    split at sent <;> cases sent
    have whole := front length.toInt.toNat _ rfl
    rw [Nat.min_self] at whole
    split_ifs with missing
    · have all := length_taken moment offset.toInt.toNat length.toInt.toNat
      refine ⟨?_, whole.2⟩
      rw [Int32.toInt_toInt64]
      omega
    · exact whole
  | other => cases sent

theorem asChanged_ok {check : Op Unit} {before after : Host} {done : Unit} :
    asChanged check before = .ok done after ↔ check before = .ok done after := by
  unfold asChanged
  split
  next code host run => simp [run]
  next => rfl

theorem write_ok {bytes : Bytes} {before after : Host} {done : Unit} :
    write bytes before = .ok done after ↔
      after = { before with socket := before.socket ++ bytes } := by
  rw [write, modify_ok]
  exact eq_comm

-- Whatever a transfer reports has gone to the socket, and nothing else has.
theorem hsSend_ok {kernel : Kernel} {opened : Snapshot} {offset : Int64} {length : Int32}
    {before after : Host} {value : Int64} (history : History opened before.script)
    (run : hsSend kernel opened.stamp offset length before = .ok value after) :
    ∃ used bytes, Uses used before after ∧ after.socket = before.socket ++ bytes ∧
      value.toInt = bytes.length ∧ bytes.length ≤ length.toInt.toNat ∧
      bytes = (opened.content.drop offset.toInt.toNat).take bytes.length := by
  have nothing : ∀ used, Uses used before after → after.socket = before.socket → value = 0 →
      ∃ used bytes, Uses used before after ∧ after.socket = before.socket ++ bytes ∧
        value.toInt = bytes.length ∧ bytes.length ≤ length.toInt.toNat ∧
        bytes = (opened.content.drop offset.toInt.toNat).take bytes.length := by
    rintro used uses kept rfl
    exact ⟨used, [], uses, by rw [kept, List.append_nil], by decide, by simp, by simp⟩
  simp only [hsSend, bind_ok, ite_ok, throw_ok, pure_ok, now_ok, false_and, exists_false,
    and_false, false_or, Bool.not_eq_true] at run
  obtain ⟨_, first, check, inside, ⟨-, rfl, rfl⟩ | ⟨-, moment, second, ⟨script, socket⟩, run⟩⟩ := run
  · obtain ⟨start, begins, keeps⟩ := hsStat_uses check
    exact nothing [start] begins keeps rfl
  · obtain ⟨start, begins, keeps⟩ := hsStat_uses check
    have uses : Uses [start, moment] before second := by
      rw [Uses, begins, script]
      rfl
    cases sent : kernelSend kernel moment offset length with
    | refused code => simp [sent] at run
    | again =>
      simp only [sent, pure_ok] at run
      obtain ⟨rfl, rfl⟩ := run
      exact nothing _ uses (socket.trans keeps) rfl
    | moved bytes reported =>
      simp only [sent, bind_ok, ite_ok, pure_ok, write_ok, asChanged_ok] at run
      obtain ⟨_, third, wrote, run⟩ := run
      have written : third.socket = before.socket ++ bytes := by rw [wrote, socket, keeps]
      have uses : Uses [start, moment] before third := by rw [wrote]; exact uses
      -- The last check vouches for the moment of the transfer.
      have final : ∀ used fourth, Uses ([start, moment] ++ used) before fourth →
          fourth.socket = third.socket → hsStat opened.stamp fourth = .ok () after →
          reported = value → ∃ used bytes, Uses used before after ∧
            after.socket = before.socket ++ bytes ∧ value.toInt = bytes.length ∧
            bytes.length ≤ length.toInt.toNat ∧
            bytes = (opened.content.drop offset.toInt.toNat).take bytes.length := by
        rintro used fourth uses kept recheck rfl
        obtain ⟨last, ends, same⟩ := hsStat_uses recheck
        have saw := (hsStat_saw (history.after uses) recheck).before history uses
        have uses := uses.trans ends
        have file := saw.shown uses moment (by simp)
        have moved := kernelSend_moved (by rw [file]; exact inside) sent
        rw [file] at moved
        exact ⟨_, bytes, uses, by rw [same, kept, written], moved⟩
      obtain ⟨-, _, fourth, zero, _, _, recheck, same, rfl⟩ | ⟨-, _, _, recheck, same, rfl⟩ := run
      · obtain ⟨empty, begins', keeps'⟩ := hsStat_uses zero
        exact final [empty] fourth (uses.trans begins') keeps' recheck same
      · exact final [] third (by simpa using uses) rfl recheck same

theorem hsStat_error {f : HsFile} {before after : Host} {code : Int}
    (run : hsStat f before = .error (some code) after) : code = -4 ∨ code = -3 := by
  have started : ∀ code, now before ≠ .error (some code) after := by
    intro code
    unfold now
    split <;> simp
  simp only [hsStat, bind_error, ite_error, throw_error, pure_error, started, false_or,
    and_false, or_false, throw_ok, false_and, exists_false, Option.some.injEq] at run
  obtain ⟨moment, host, -, ⟨-, same, -⟩ | ⟨-, -, same, -⟩⟩ := run
  · exact Or.inl same.symm
  · exact Or.inr same.symm

theorem asChanged_error {check : Op Unit} {before after : Host} {code : Int}
    (run : asChanged check before = .error (some code) after) : code = -3 := by
  unfold asChanged at run
  split at run
  next =>
    simp only [EStateM.Result.error.injEq, Option.some.injEq] at run
    exact run.1.symm
  next other => exact absurd run (other code after)

-- A transfer that is unsupported has sent nothing.
theorem hsSend_unsupported {kernel : Kernel} {f : HsFile} {offset : Int64} {length : Int32}
    {before after : Host} (run : hsSend kernel f offset length before = .error (some (-8)) after) :
    ∃ used, Uses used before after ∧ after.socket = before.socket := by
  have started : ∀ host code, now host ≠ .error (some code) after := by
    intro host code
    unfold now
    split <;> simp
  have checked : ∀ host, hsStat f host ≠ .error (some (-8)) after := by
    intro host failed
    have := hsStat_error failed
    omega
  have rechecked : ∀ host, asChanged (hsStat f) host ≠ .error (some (-8)) after := by
    intro host failed
    have := asChanged_error failed
    omega
  simp only [hsSend, bind_error, ite_error, throw_error, pure_error, checked, started, false_or,
    and_false, or_false, throw_ok, false_and, exists_false, Option.some.injEq, now_ok] at run
  obtain ⟨_, first, check, ⟨-, absurd, -⟩ | ⟨-, -, moment, second, ⟨script, socket⟩, run⟩⟩ := run
  · omega
  · obtain ⟨start, begins, keeps⟩ := hsStat_uses check
    cases sent : kernelSend kernel moment offset length with
    | refused code =>
      simp only [sent, throw_error] at run
      obtain ⟨-, rfl⟩ := run
      exact ⟨[start, moment], by rw [Uses, begins, script]; rfl, socket.trans keeps⟩
    | again => simp [sent] at run
    | moved bytes value =>
      have wrote : ∀ host, write bytes host ≠ .error (some (-8)) after := by
        intro host
        simp [write]
      simp only [sent, bind_error, ite_error, pure_error, wrote, checked, rechecked, and_false,
        or_false, exists_false] at run

end HttpServer.Native
