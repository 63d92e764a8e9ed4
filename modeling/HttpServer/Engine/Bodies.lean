import HttpServer.Engine.Handle
import HttpServer.Native.Files
import HttpServer.StaticPlan.Listing

set_option autoImplicit false

namespace HttpServer.Bodies

open Unicode StateRun Text
open Native (HsFile Snapshot Moment Answer Host Op Kernel History Uses Working)
open Engine (NativeError ServerError Raised mapNativeError)
open StaticPlan (ListingStream)

structure Buffer where
  data : Bytes
  bound : data.length ≤ 2147483647

structure Region where
  opened : Snapshot
  offset : Int64
  length : Int64
  start : 0 ≤ offset.toInt
  size : 0 ≤ length.toInt
  inside : offset.toInt + length.toInt ≤ opened.content.length

def Region.file (region : Region) : HsFile := region.opened.stamp

inductive PlanBody where
  | empty
  | bytes (b : Buffer)
  | fileRegion (region : Region)
  | listing (stream : ListingStream)

/-- `closed` stands for the response and its engine, `host` for the system and for the writer. -/
structure Response where
  body : PlanBody
  cursor : Int64
  closed : Bool
  reading : Bool
  blockSize : Int32
  host : Host

-- The error is `none` when the call has not returned.
abbrev Act := EStateM (Option Raised) Response

def PlanBody.bodyLength : PlanBody → Int64
  | .empty => 0
  | .bytes b => Int64.ofNat b.data.length
  | .fileRegion region => region.length
  | .listing _ => -1

def PlanBody.close : PlanBody → PlanBody
  | .listing stream => .listing stream.close
  | body => body

def Response.close (response : Response) : Response :=
  { response with closed := true, body := response.body.close }

def nativeError (code : Int) : NativeError :=
  if code = -3 then .fileChanged
  else if code = -5 then .forbidden
  else if code = -6 then .missing
  else if code = -7 then .overloaded
  else if code = -9 then .closed
  else if code = -8 then .unsupported
  else .io

def onHost {α : Type} (op : Op α) : Act α := fun response =>
  match op response.host with
  | .ok a host => .ok a { response with host }
  | .error code host => .error (code.map fun code => .native (nativeError code))
      { response with host }

-- The first moment is the submission; it says whether the response is closed before the job ends.
def fileRun {α : Type} (op : Op α) : Act α := do
  let response ← get
  if response.closed then throw (some (.native .closed))
  let submitted ← onHost Native.now
  if submitted.answer = .failed then throw (some (.native .overloaded))
  let a ← onHost op
  if submitted.answer = .cancelled then modify fun response => { response with closed := true }
  return a

def mapped {α : Type} (act : Act α) : Act α := fun response =>
  match act response with
  | .error e after => .error (e.map fun e => .server (mapNativeError e)) after
  | result => result

def Region.check (region : Region) : Act Unit := mapped (fileRun (Native.hsStat region.file))

def Region.read (region : Region) (offset : Int64) (length : Int32) : Act Bytes :=
  mapped (fileRun (Native.hsRead region.file offset length))

def Region.send (region : Region) (kernel : Kernel) (offset : Int64) (length : Int32) :
    Act (Option Int64) := mapped fun response =>
  match fileRun (Native.hsSend kernel region.file offset length) response with
  | .ok value after => .ok (some value) after
  | .error (some (.native .unsupported)) after => .ok none after
  | .error e after => .error e after

def guarded {α : Type} (act : Act α) : Act α := fun response =>
  match act { response with reading := true } with
  | .ok a after => .ok a { after with reading := false }
  | .error e after => .error e { after with reading := false }.close

def least (count limit : Int32) : Int32 := if count > limit then limit else count

def PlanBody.chunk (cursor : Int64) (count : Int32) : PlanBody → Act Bytes
  | .empty => return []
  | .bytes b => return (b.data.drop cursor.toInt32.toInt.toNat).take count.toInt.toNat
  | .fileRegion region => do
      region.check
      region.read (region.offset + cursor) count
  | .listing stream => do
      let (chunk, after) := stream.read count
      modify fun response => { response with body := .listing after }
      return chunk

def PlanBody.remaining (cursor : Int64) (maxLen : Int32) : PlanBody → Int64
  | .listing _ => maxLen.toInt64
  | body => body.bodyLength - cursor

def readChunk (maxLen : Int32) : Act Bytes := do
  let response ← get
  let remaining := response.body.remaining response.cursor maxLen
  let count := if remaining < maxLen.toInt64 then remaining.toInt32 else maxLen
  let chunk ← response.body.chunk response.cursor (least count response.blockSize)
  let response ← get
  if response.closed then throw (some (.server .closed))
  modify fun response =>
    { response with cursor := response.cursor + Int64.ofNat chunk.length }
  return chunk

def read (maxLen : Int32) : Act Bytes := do
  let response ← get
  if response.closed then throw (some (.server .closed))
  if response.reading then throw (some (.server .busy))
  if maxLen ≤ 0 then throw (some (.server (.invalidRequest (str "max_len must be positive"))))
  guarded (readChunk maxLen)

/-- Only the host, and whether the response is closed, may differ. -/
structure Kept (before after : Response) : Prop where
  body : after.body = before.body
  cursor : after.cursor = before.cursor
  reading : after.reading = before.reading
  blockSize : after.blockSize = before.blockSize

section

variable {before after : Response}

theorem Kept.refl (response : Response) : Kept response response := ⟨rfl, rfl, rfl, rfl⟩

theorem Kept.trans {middle : Response} (front : Kept before middle) (back : Kept middle after) :
    Kept before after where
  body := back.body.trans front.body
  cursor := back.cursor.trans front.cursor
  reading := back.reading.trans front.reading
  blockSize := back.blockSize.trans front.blockSize

theorem onHost_ok {α : Type} {op : Op α} {a : α} :
    onHost op before = .ok a after ↔
      ∃ host, op before.host = .ok a host ∧ after = { before with host } := by
  unfold onHost
  cases op before.host with
  | ok b host =>
    simp only [EStateM.Result.ok.injEq]
    constructor
    · rintro ⟨rfl, rfl⟩
      exact ⟨host, ⟨rfl, rfl⟩, rfl⟩
    · rintro ⟨_, ⟨rfl, rfl⟩, rfl⟩
      exact ⟨rfl, rfl⟩
  | error code host => simp

theorem mapped_ok {α : Type} {act : Act α} {a : α} :
    mapped act before = .ok a after ↔ act before = .ok a after := by
  unfold mapped
  cases act before with
  | ok b middle => simp
  | error e middle => simp

theorem guarded_ok {α : Type} {act : Act α} {a : α} :
    guarded act before = .ok a after ↔
      ∃ middle, act { before with reading := true } = .ok a middle ∧
        after = { middle with reading := false } := by
  unfold guarded
  cases act { before with reading := true } with
  | ok b middle =>
    simp only [EStateM.Result.ok.injEq]
    constructor
    · rintro ⟨rfl, rfl⟩
      exact ⟨middle, ⟨rfl, rfl⟩, rfl⟩
    · rintro ⟨_, ⟨rfl, rfl⟩, rfl⟩
      exact ⟨rfl, rfl⟩
  | error e middle => simp

-- A job: one moment for its submission, and what the operation does.
theorem fileRun_ok {α : Type} {op : Op α} {a : α} (run : fileRun op before = .ok a after) :
    Kept before after ∧ ∃ submitted host, Uses [submitted] before.host host ∧
      host.socket = before.host.socket ∧ op host = .ok a after.host := by
  simp only [fileRun, bind_ok, get_ok, ite_ok, throw_ok, pure_ok, onHost_ok, Native.now_ok,
    false_and, exists_false, and_false, false_or, modify_ok] at run
  obtain ⟨_, _, ⟨rfl, rfl⟩, -, submitted, _, ⟨host, ⟨script, socket⟩, rfl⟩, -, b, _,
    ⟨last, run, rfl⟩, ⟨-, _, _, rfl, rfl, rfl⟩ | ⟨-, rfl, rfl⟩⟩ := run
  · exact ⟨⟨rfl, rfl, rfl, rfl⟩, submitted, host, script, socket, run⟩
  · exact ⟨⟨rfl, rfl, rfl, rfl⟩, submitted, host, script, socket, run⟩

theorem Region.check_ok {region : Region}
    (history : History region.opened before.host.script)
    (run : region.check before = .ok () after) :
    Kept before after ∧ Native.Saw region.opened before.host after.host ∧
      after.host.socket = before.host.socket := by
  obtain ⟨kept, submitted, host, uses, socket, run⟩ := fileRun_ok (mapped_ok.mp run)
  have saw := (Native.hsStat_saw (history.after uses) run).before history uses
  obtain ⟨-, -, same⟩ := Native.hsStat_uses run
  exact ⟨kept, saw, same.trans socket⟩

theorem Region.read_ok {region : Region} {offset : Int64} {length : Int32} {bytes : Bytes}
    (history : History region.opened before.host.script)
    (run : region.read offset length before = .ok bytes after) :
    Kept before after ∧ Native.Saw region.opened before.host after.host ∧
      after.host.socket = before.host.socket ∧ bytes.length = length.toInt.toNat ∧
      bytes = (region.opened.content.drop offset.toInt.toNat).take length.toInt.toNat := by
  obtain ⟨kept, submitted, host, uses, socket, run⟩ := fileRun_ok (mapped_ok.mp run)
  obtain ⟨saw, same, exact⟩ := Native.hsRead_ok (history.after uses) run
  exact ⟨kept, saw.before history uses, same.trans socket, exact⟩

end

def Region.bytes (region : Region) : Bytes :=
  (region.opened.content.drop region.offset.toInt.toNat).take region.length.toInt.toNat

theorem Region.bytes_length (region : Region) :
    (region.bytes.length : Int) = region.length.toInt := by
  have start := region.start
  have size := region.size
  have inside := region.inside
  simp only [Region.bytes, List.length_take, List.length_drop]
  omega

def PlanBody.left (cursor : Int64) : PlanBody → Bytes
  | .empty => []
  | .bytes b => b.data.drop cursor.toInt.toNat
  | .fileRegion region => region.bytes.drop cursor.toInt.toNat
  | .listing stream => stream.toCome

-- The cursor stands in the body, or the stream is one that can be reached.
def PlanBody.Fits (cursor : Int64) : PlanBody → Prop
  | .empty => cursor.toInt = 0
  | .bytes b => 0 ≤ cursor.toInt ∧ cursor.toInt ≤ b.data.length
  | .fileRegion region => 0 ≤ cursor.toInt ∧ cursor.toInt ≤ region.length.toInt
  | .listing stream => stream.Sound

def Response.left (response : Response) : Bytes :=
  response.body.left response.cursor

structure Response.Sound (response : Response) : Prop where
  block : 0 < response.blockSize.toInt
  body : response.body.Fits response.cursor

def Response.History (response : Response) : Prop :=
  ∀ region, response.body = .fileRegion region →
    Native.History region.opened response.host.script

/-- What is read next is the front of what is left, in a piece that fits. -/
structure Delivers (maxLen : Int32) (before : Response) (chunk : Bytes)
    (after : Response) : Prop where
  left : before.left = chunk ++ after.left
  request : (chunk.length : Int) ≤ maxLen.toInt
  block : (chunk.length : Int) ≤ before.blockSize.toInt
  ended : chunk = [] → before.left = []
  sound : after.Sound
  cursor : after.cursor = before.cursor + Int64.ofNat chunk.length
  blockSize : after.blockSize = before.blockSize
  socket : after.host.socket = before.host.socket
  kind : ∀ region, after.body = .fileRegion region → before.body = .fileRegion region
  file : ∀ region, before.body = .fileRegion region →
    after.body = .fileRegion region ∧ Native.Saw region.opened before.host after.host

theorem least_toInt (count limit : Int32) :
    (least count limit).toInt = min count.toInt limit.toInt := by
  unfold least
  split_ifs with more
  · rw [gt_iff_lt, Int32.lt_iff_toInt_lt] at more
    omega
  · rw [gt_iff_lt, Int32.lt_iff_toInt_lt] at more
    omega

theorem count_toInt {remaining : Int64} {maxLen : Int32} (some : 0 ≤ remaining.toInt)
    (positive : 0 < maxLen.toInt) :
    (if remaining < maxLen.toInt64 then remaining.toInt32 else maxLen).toInt =
      min remaining.toInt maxLen.toInt := by
  have bound := Int32.toInt_lt maxLen
  split_ifs with less
  · rw [Int64.lt_iff_toInt_lt, Int32.toInt_toInt64] at less
    rw [MachineInt.narrow (by omega) (by omega)]
    omega
  · rw [Int64.lt_iff_toInt_lt, Int32.toInt_toInt64] at less
    omega

-- A piece at the cursor, and the cursor after it.
theorem piece_step {data : Bytes} {cursor : Int64} (n : Nat) (start : 0 ≤ cursor.toInt)
    (bound : cursor.toInt ≤ data.length) (small : data.length < 9223372036854775808) :
    (cursor + Int64.ofNat ((data.drop cursor.toInt.toNat).take n).length).toInt =
        cursor.toInt + ((data.drop cursor.toInt.toNat).take n).length ∧
      data.drop cursor.toInt.toNat = (data.drop cursor.toInt.toNat).take n ++
        data.drop (cursor + Int64.ofNat
          ((data.drop cursor.toInt.toNat).take n).length).toInt.toNat := by
  generalize piece : (data.drop cursor.toInt.toNat).take n = chunk
  have size : chunk.length = min n (data.length - cursor.toInt.toNat) := by
    rw [← piece, List.length_take, List.length_drop]
  have length : (Int64.ofNat chunk.length).toInt = chunk.length :=
    Int64.toInt_ofNat_of_lt (by omega)
  have moved : (cursor + Int64.ofNat chunk.length).toInt = cursor.toInt + chunk.length := by
    rw [MachineInt.add64] <;> rw [length] <;> omega
  refine ⟨moved, ?_⟩
  have natural : (cursor.toInt + chunk.length).toNat = cursor.toInt.toNat + chunk.length := by
    omega
  have same : (data.drop cursor.toInt.toNat).take chunk.length = chunk := by
    rw [← piece, List.take_eq_take_iff, List.length_drop]
    simp
  rw [moved, natural, ← List.drop_drop]
  conv_lhs => rw [← List.take_append_drop chunk.length (data.drop cursor.toInt.toNat), same]

theorem Region.part (region : Region) {cursor n : Nat}
    (bound : cursor + n ≤ region.length.toInt.toNat) :
    (region.opened.content.drop (region.offset.toInt.toNat + cursor)).take n =
      (region.bytes.drop cursor).take n := by
  rw [Region.bytes, List.drop_take, List.take_take, List.drop_drop, Nat.min_eq_left (by omega)]

section

variable {region : Region} {cursor : Int64} {maxLen blockSize : Int32}

theorem Region.place (start : 0 ≤ cursor.toInt) (inside : cursor.toInt ≤ region.length.toInt) :
    (region.offset + cursor).toInt = region.offset.toInt + cursor.toInt := by
  have first := region.start
  have last := region.inside
  have small := region.opened.bound
  exact MachineInt.add64 (by omega) (by omega)

theorem Region.count (start : 0 ≤ cursor.toInt) (inside : cursor.toInt ≤ region.length.toInt)
    (positive : 0 < maxLen.toInt) :
    (least (if region.length - cursor < maxLen.toInt64 then (region.length - cursor).toInt32
      else maxLen) blockSize).toInt =
      min (min (region.length.toInt - cursor.toInt) maxLen.toInt) blockSize.toInt := by
  have high := Int64.toInt_lt region.length
  have room : (region.length - cursor).toInt = region.length.toInt - cursor.toInt :=
    MachineInt.sub64 (by omega) (by omega)
  rw [least_toInt, count_toInt (by omega) positive, room]

end

section

variable {maxLen : Int32} {before after : Response} {chunk : Bytes}

-- A body of known length gives the piece at the cursor that the limits leave.
theorem sized_delivers {data : Bytes} {count : Int32}
    (sound : before.Sound) (positive : 0 < maxLen.toInt) (start : 0 ≤ before.cursor.toInt)
    (bound : before.cursor.toInt ≤ data.length) (small : data.length < 9223372036854775808)
    (counts : count.toInt =
      min (min (data.length - before.cursor.toInt) maxLen.toInt) before.blockSize.toInt)
    (piece : chunk = (data.drop before.cursor.toInt.toNat).take count.toInt.toNat)
    (cursor : after.cursor = before.cursor + Int64.ofNat chunk.length)
    (blockSize : after.blockSize = before.blockSize)
    (socket : after.host.socket = before.host.socket)
    (left : ∀ response, response = before ∨ response = after →
      response.left = data.drop response.cursor.toInt.toNat)
    (fits : 0 ≤ after.cursor.toInt → after.cursor.toInt ≤ data.length →
      after.body.Fits after.cursor)
    (kind : ∀ region, after.body = .fileRegion region → before.body = .fileRegion region)
    (file : ∀ region, before.body = .fileRegion region →
      after.body = .fileRegion region ∧ Native.Saw region.opened before.host after.host) :
    Delivers maxLen before chunk after := by
  have block := sound.block
  obtain ⟨moved, whole⟩ := piece_step count.toInt.toNat start bound small
  have length := congrArg List.length piece
  rw [List.length_take, List.length_drop] at length
  rw [← piece, ← cursor] at moved whole
  exact {
    left := by rw [left before (Or.inl rfl), left after (Or.inr rfl), whole]
    request := by omega
    block := by omega
    ended := by
      rintro rfl
      rw [left before (Or.inl rfl), List.drop_eq_nil_iff]
      rw [List.length_nil] at length
      omega
    sound := ⟨blockSize ▸ block, fits (by omega) (by omega)⟩
    cursor
    blockSize
    socket
    kind
    file }

theorem readChunk_ok (sound : before.Sound) (history : before.History)
    (positive : 0 < maxLen.toInt) (run : readChunk maxLen before = .ok chunk after) :
    Delivers maxLen before chunk after := by
  simp only [readChunk, bind_ok, get_ok, ite_ok, throw_ok, pure_ok, modify_ok, false_and,
    exists_false, and_false, false_or] at run
  obtain ⟨_, _, ⟨rfl, rfl⟩, piece, middle, run, _, _, ⟨rfl, rfl⟩, -, _, _, rfl, rfl, rfl⟩ := run
  have block := sound.block
  have fits := sound.body
  cases body : before.body with
  | empty =>
    simp only [body, PlanBody.chunk, pure_ok] at run
    obtain ⟨rfl, rfl⟩ := run
    have none : Int64.ofNat ([] : Bytes).length = 0 := by decide
    exact {
      left := by simp [Response.left, body, PlanBody.left]
      request := by simp; omega
      block := by simp; omega
      ended := by simp [Response.left, body, PlanBody.left]
      sound := ⟨block, by simpa [none] using fits⟩
      cursor := rfl
      blockSize := rfl
      socket := rfl
      kind := by simp [body]
      file := by simp [body] }
  | bytes b =>
    have bound := b.bound
    rw [body] at fits
    obtain ⟨start, inside⟩ := fits
    have length : (Int64.ofNat b.data.length).toInt = b.data.length :=
      Int64.toInt_ofNat_of_lt (by omega)
    have room : (Int64.ofNat b.data.length - before.cursor).toInt =
        b.data.length - before.cursor.toInt := by
      rw [MachineInt.sub64] <;> rw [length] <;> omega
    have count := least_toInt (if Int64.ofNat b.data.length - before.cursor < maxLen.toInt64 then
      (Int64.ofNat b.data.length - before.cursor).toInt32 else maxLen) before.blockSize
    rw [count_toInt (by omega) positive, room] at count
    have low : before.cursor.toInt32.toInt = before.cursor.toInt :=
      MachineInt.narrow (by omega) (by omega)
    simp only [body, PlanBody.chunk, PlanBody.remaining, PlanBody.bodyLength, pure_ok, low] at run
    obtain ⟨rfl, rfl⟩ := run
    refine sized_delivers sound positive start inside (by omega) count rfl rfl rfl rfl ?_ ?_ ?_ ?_
    · rintro response (rfl | rfl)
      · simp [Response.left, body, PlanBody.left]
      · simp [Response.left, body, PlanBody.left]
    · intro low high
      simp only [body]
      exact ⟨low, high⟩
    · simp [body]
    · simp [body]
  | fileRegion region =>
    have length := region.bytes_length
    have high := Int64.toInt_lt region.length
    rw [body] at fits
    obtain ⟨start, inside⟩ := fits
    have count := @Region.count region before.cursor maxLen before.blockSize start inside positive
    have place : (region.offset + before.cursor).toInt.toNat =
        region.offset.toInt.toNat + before.cursor.toInt.toNat := by
      have first := region.start
      rw [Region.place start inside]
      omega
    simp only [body, PlanBody.chunk, PlanBody.remaining, PlanBody.bodyLength, bind_ok] at run
    obtain ⟨_, checked, check, run⟩ := run
    obtain ⟨keptCheck, sawCheck, socketCheck⟩ := Region.check_ok (history region body) check
    obtain ⟨keptRead, sawRead, socketRead, size, piece⟩ :=
      Region.read_ok (sawCheck.history (history region body)) run
    have kept := keptCheck.trans keptRead
    have saw := sawCheck.trans sawRead
    rw [place, region.part (by rw [count]; omega)] at piece
    rw [← length] at count
    refine sized_delivers sound positive start (by omega) (by omega) count piece
      (by rw [kept.cursor]) kept.blockSize (socketRead.trans socketCheck) ?_ ?_ ?_ ?_
    · rintro response (rfl | rfl)
      · simp [Response.left, body, PlanBody.left]
      · simp [Response.left, kept.body, body, PlanBody.left]
    · intro low high
      simp only [kept.body, body]
      exact ⟨low, Int.le_trans high (Int.le_of_eq length)⟩
    · intro other same
      exact kept.body.symm.trans same
    · intro other same
      rw [body] at same
      obtain rfl := PlanBody.fileRegion.inj same
      exact ⟨kept.body.trans body, saw⟩
  | listing stream =>
    rw [body] at fits
    have wide : maxLen.toInt64.toInt = maxLen.toInt := Int32.toInt_toInt64 maxLen
    have count := least_toInt (if maxLen.toInt64 < maxLen.toInt64 then maxLen.toInt64.toInt32
      else maxLen) before.blockSize
    rw [count_toInt (by omega) positive, wide, Int.min_self] at count
    simp only [body, PlanBody.chunk, PlanBody.remaining] at run
    obtain ⟨front, rest, read, soundRest, whole, limit, ended⟩ :=
      ListingStream.read_spec
        (least (if maxLen.toInt64 < maxLen.toInt64 then maxLen.toInt64.toInt32 else maxLen)
          before.blockSize) fits (by omega)
    simp only [read, bind_ok, modify_ok, pure_ok] at run
    obtain ⟨_, _, rfl, rfl, rfl⟩ := run
    exact {
      left := by simp [Response.left, body, PlanBody.left, whole]
      request := by omega
      block := by omega
      ended := by simpa [Response.left, body, PlanBody.left] using ended
      sound := ⟨block, soundRest⟩
      cursor := rfl
      blockSize := rfl
      socket := rfl
      kind := by simp [body]
      file := by simp [body] }

theorem read_ok (sound : before.Sound) (history : before.History)
    (run : read maxLen before = .ok chunk after) :
    Delivers maxLen before chunk after ∧ after.reading = false := by
  have zero : (0 : Int32).toInt = 0 := by decide
  simp only [read, bind_ok, get_ok, ite_ok, throw_ok, false_and, exists_false, and_false, false_or,
    guarded_ok] at run
  obtain ⟨_, _, ⟨rfl, rfl⟩, -, -, positive, middle, run, rfl⟩ := run
  rw [Int32.le_iff_toInt_le, zero] at positive
  have delivers : Delivers maxLen { before with reading := true } chunk middle :=
    readChunk_ok ⟨sound.block, sound.body⟩ history (by omega) run
  exact ⟨{ delivers with
    left := delivers.left
    sound := ⟨delivers.sound.block, delivers.sound.body⟩ }, rfl⟩

theorem onHost_error {α : Type} {op : Op α} {e : Option Raised}
    (run : onHost op before = .error e after) : after.cursor = before.cursor := by
  unfold onHost at run
  cases result : op before.host with
  | ok a host => simp [result] at run
  | error code host =>
    simp only [result, EStateM.Result.error.injEq] at run
    rw [← run.2]

theorem mapped_error {α : Type} {act : Act α} {e : Option Raised}
    (run : mapped act before = .error e after) : ∃ e', act before = .error e' after := by
  unfold mapped at run
  cases result : act before with
  | ok a middle => simp [result] at run
  | error e' middle =>
    simp only [result, EStateM.Result.error.injEq] at run
    exact ⟨e', by rw [run.2]⟩

theorem fileRun_error {α : Type} {op : Op α} {e : Option Raised}
    (run : fileRun op before = .error e after) : after.cursor = before.cursor := by
  simp only [fileRun, bind_error, get_error, get_ok, ite_error, throw_error, throw_ok, pure_error,
    modify_error, false_and, exists_false, and_false, false_or, or_false, onHost_ok] at run
  obtain ⟨_, _, ⟨rfl, rfl⟩, ⟨-, -, rfl⟩ | ⟨-, started | ⟨submitted, _, ⟨host, -, rfl⟩, run⟩⟩⟩ := run
  · rfl
  · exact onHost_error started
  · obtain ⟨-, -, rfl⟩ | ⟨-, failed⟩ := run
    · rfl
    · exact (onHost_error failed).trans rfl

theorem chunk_error {cursor : Int64} {count : Int32} {body : PlanBody} {e : Option Raised}
    (run : body.chunk cursor count before = .error e after) :
    after.cursor = before.cursor := by
  cases body with
  | empty => simp [PlanBody.chunk] at run
  | bytes b => simp [PlanBody.chunk] at run
  | fileRegion region =>
    simp only [PlanBody.chunk, bind_error] at run
    obtain check | ⟨_, middle, check, run⟩ := run
    · obtain ⟨e', check⟩ := mapped_error check
      exact fileRun_error check
    · obtain ⟨e', run⟩ := mapped_error run
      rw [fileRun_error run, (fileRun_ok (mapped_ok.mp check)).1.cursor]
  | listing stream =>
    simp only [PlanBody.chunk, bind_error, modify_error, pure_error, and_false, exists_false,
      or_false] at run

theorem chunk_cursor {cursor : Int64} {count : Int32} {body : PlanBody}
    (run : body.chunk cursor count before = .ok chunk after) :
    after.cursor = before.cursor := by
  cases body with
  | empty =>
    simp only [PlanBody.chunk, pure_ok] at run
    rw [run.2]
  | bytes b =>
    simp only [PlanBody.chunk, pure_ok] at run
    rw [run.2]
  | fileRegion region =>
    simp only [PlanBody.chunk, bind_ok] at run
    obtain ⟨_, middle, check, run⟩ := run
    exact ((fileRun_ok (mapped_ok.mp check)).1.trans (fileRun_ok (mapped_ok.mp run)).1).cursor
  | listing stream =>
    simp only [PlanBody.chunk, bind_ok, modify_ok, pure_ok] at run
    obtain ⟨_, _, rfl, -, rfl⟩ := run
    rfl

theorem read_eq (idle : before.reading = false) (positive : 0 < maxLen.toInt) :
    read maxLen before =
      if before.closed then .error (some (.server .closed)) before
      else guarded (readChunk maxLen) before := by
  have valid : ¬maxLen ≤ 0 := by
    have zero : (0 : Int32).toInt = 0 := by decide
    rw [Int32.le_iff_toInt_le, zero]
    omega
  rw [read, bind_of_ok (show (get : Act Response) before = .ok before before from rfl)]
  cases closed : before.closed with
  | true => rfl
  | false =>
    simp only [idle, valid, Bool.false_eq_true, if_false]

theorem readChunk_error {e : Option Raised}
    (run : readChunk maxLen before = .error e after) : after.cursor = before.cursor := by
  simp only [readChunk, bind_error, get_error, get_ok, ite_error, throw_error, pure_error,
    modify_error, and_false, exists_false, false_or, or_false] at run
  obtain ⟨_, _, ⟨rfl, rfl⟩, failed | ⟨piece, middle, run, _, _, ⟨rfl, rfl⟩, -, -, rfl⟩⟩ := run
  · exact chunk_error failed
  · exact chunk_cursor run

-- A read that fails leaves the response closed, with its cursor where it was.
theorem read_error {e : Option Raised} (idle : before.reading = false)
    (positive : 0 < maxLen.toInt) (run : read maxLen before = .error e after) :
    after.closed = true ∧ after.reading = false ∧ after.cursor = before.cursor := by
  rw [read_eq idle positive] at run
  split_ifs at run with closed
  · simp only [EStateM.Result.error.injEq] at run
    obtain ⟨-, rfl⟩ := run
    exact ⟨closed, idle, rfl⟩
  · unfold guarded at run
    cases result : readChunk maxLen { before with reading := true } with
    | ok piece middle => simp [result] at run
    | error e' middle =>
      simp only [result, EStateM.Result.error.injEq] at run
      obtain ⟨-, rfl⟩ := run
      have cursor := readChunk_error result
      exact ⟨rfl, rfl, cursor⟩

end

end HttpServer.Bodies
