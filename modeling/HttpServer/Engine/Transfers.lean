import HttpServer.Engine.Reading

set_option autoImplicit false

namespace HttpServer.Bodies

open Unicode Text StateRun
open Native (Snapshot Moment Host Op Kernel History Uses Saw)
open Engine (Raised)

section

variable {ε σ : Type}

def putIf (put : Bytes → EStateM ε σ Unit) (chunked : Bool) (bytes : Bytes) : EStateM ε σ Unit :=
  if chunked then put bytes else return ()

/-- The loop of `write_to`, over any way to read chunks and to write bytes. -/
def writeLoop (stuck : ε) (next : EStateM ε σ Bytes) (put : Bytes → EStateM ε σ Unit)
    (chunked : Bool) : Nat → EStateM ε σ Unit
  | 0 => throw stuck
  | fuel + 1 => do
      let chunk ← next
      if chunk = [] then return ()
      putIf put chunked (encode (Numerals.numeral 16 chunk.length ++ str "\r\n"))
      put chunk
      putIf put chunked (encode (str "\r\n"))
      writeLoop stuck next put chunked fuel

def writeBody (stuck : ε) (next : EStateM ε σ Bytes) (put : Bytes → EStateM ε σ Unit)
    (chunked : Bool) (fuel : Nat) : EStateM ε σ Unit := do
  writeLoop stuck next put chunked fuel
  putIf put chunked (encode (str "0\r\n\r\n"))

end

-- A write of all the bytes, or a failure.
def put (bytes : Bytes) : Act Unit := do
  let moment ← onHost Native.now
  if moment.answer = .failed then throw (some (.native .io))
  onHost (Native.write bytes)

-- A chunk holds a byte at the least, so what is left bounds the number of rounds.
def writeTo (chunked : Bool) : Act Unit := fun response =>
  writeBody none (read 65536) put chunked
    (response.left.length + 1) response

def sendLoop (kernel : Kernel) (region : Region) : Nat → Bool → Act Unit
  | 0, _ => throw none
  | fuel + 1, inKernel => do
      let response ← get
      if response.cursor < region.length then
        if response.closed then throw (some (.server .closed))
        let left := region.length - response.cursor
        let count := if left < response.blockSize.toInt64 then left.toInt32
          else response.blockSize
        if inKernel then
          let sent ← region.send kernel (region.offset + response.cursor) count
          match sent with
          | some n =>
              modify fun response => { response with cursor := response.cursor + n }
              sendLoop kernel region fuel true
          | none => sendLoop kernel region fuel false
        else
          let chunk ← region.read (region.offset + response.cursor) count
          put chunk
          modify fun response =>
            { response with cursor := response.cursor + Int64.ofNat chunk.length }
          sendLoop kernel region fuel false

def sendTo (kernel : Kernel) : Act Unit := fun response =>
  match response.body with
  | .fileRegion region =>
      if response.closed then .error (some (.server .closed)) response
      else if response.reading then .error (some (.server .busy)) response
      else
        guarded (do
          -- Every round uses a moment of the script.
          sendLoop kernel region (response.host.script.length + 1) true
          region.check) response
  | _ => writeTo false response

section

variable {before after : Response} {region : Region}

theorem put_ok {bytes : Bytes} (run : put bytes before = .ok () after) :
    Kept before after ∧ after.closed = before.closed ∧
      after.host.socket = before.host.socket ++ bytes ∧
      ∃ used, Uses used before.host after.host := by
  simp only [put, bind_ok, ite_ok, throw_ok, onHost_ok, Native.now_ok, Native.write_ok, false_and,
    exists_false, and_false, false_or] at run
  obtain ⟨moment, _, ⟨host, ⟨script, socket⟩, rfl⟩, -, _, rfl, rfl⟩ := run
  exact ⟨⟨rfl, rfl, rfl, rfl⟩, rfl, by rw [← socket], [moment], script⟩

theorem onHost_failed {α : Type} {op : Op α} {e : Option Raised}
    (run : onHost op before = .error e after) : ∃ code, op before.host = .error code after.host ∧
      e = code.map (fun code => .native (nativeError code)) ∧ Kept before after := by
  unfold onHost at run
  cases result : op before.host with
  | ok a host => simp [result] at run
  | error code host =>
    simp only [result, EStateM.Result.error.injEq] at run
    obtain ⟨rfl, rfl⟩ := run
    exact ⟨code, rfl, rfl, rfl, rfl, rfl, rfl⟩

theorem nativeError_unsupported {code : Int} (same : nativeError code = .unsupported) :
    code = -8 := by
  unfold nativeError at same
  split_ifs at same with _ _ _ _ _ minus
  exact minus

theorem now_failed {host after : Host} {code : Option Int}
    (run : Native.now host = .error code after) : code = none := by
  unfold Native.now at run
  split at run
  · cases run
    rfl
  · cases run

theorem fileRun_unsupported {α : Type} {op : Op α}
    (run : fileRun op before = .error (some (.native .unsupported)) after) :
    Kept before after ∧ ∃ submitted host, Uses [submitted] before.host host ∧
      host.socket = before.host.socket ∧ op host = .error (some (-8)) after.host := by
  simp only [fileRun, bind_error, get_error, get_ok, ite_error, throw_error, throw_ok, pure_error,
    modify_error, false_and, exists_false, and_false, false_or, or_false, onHost_ok,
    Native.now_ok, Option.some.injEq, Raised.native.injEq, reduceCtorEq] at run
  obtain ⟨_, _, ⟨rfl, rfl⟩, -, started | ⟨submitted, _, ⟨host, ⟨script, socket⟩, rfl⟩, -, failed⟩⟩ :=
    run
  · obtain ⟨code, none, same, -⟩ := onHost_failed started
    rw [now_failed none] at same
    cases same
  · obtain ⟨code, run, same, kept⟩ := onHost_failed failed
    cases code with
    | none => cases same
    | some code =>
      have minus := nativeError_unsupported (Raised.native.inj (Option.some.inj same)).symm
      rw [minus] at run
      exact ⟨⟨kept.body, kept.cursor, kept.reading, kept.blockSize⟩, submitted, host, script, socket,
        run⟩

-- What a transfer in the kernel reports is what the socket got from the region's front.
theorem Region.send_ok {kernel : Kernel} {offset : Int64} {length : Int32} {sent : Option Int64}
    (history : History region.opened before.host.script)
    (run : region.send kernel offset length before = .ok sent after) :
    Kept before after ∧ (∃ used, Uses used before.host after.host) ∧
      ∃ bytes, after.host.socket = before.host.socket ++ bytes ∧ bytes.length ≤ length.toInt.toNat ∧
        bytes = (region.opened.content.drop offset.toInt.toNat).take bytes.length ∧
        (sent.getD 0).toInt = bytes.length := by
  have zero : (0 : Int64).toInt = 0 := by decide
  have run := mapped_ok.mp run
  split at run
  next value middle result =>
    obtain ⟨rfl, rfl⟩ := EStateM.Result.ok.inj run
    obtain ⟨kept, submitted, host, uses, socket, op⟩ := fileRun_ok result
    obtain ⟨used, bytes, more, wrote, exact, short, front⟩ :=
      Native.hsSend_ok (history.after uses) op
    exact ⟨kept, ⟨_, uses.trans more⟩, bytes, by rw [wrote, socket], short, front, exact⟩
  next middle result =>
    obtain ⟨rfl, rfl⟩ := EStateM.Result.ok.inj run
    obtain ⟨kept, submitted, host, uses, socket, op⟩ := fileRun_unsupported result
    obtain ⟨used, more, same⟩ := Native.hsSend_unsupported op
    exact ⟨kept, ⟨_, uses.trans more⟩, [], by rw [same, socket, List.append_nil], by simp, by simp,
      by simp [zero]⟩
  next => cases run

-- The loop sends the region from the cursor to its end, whichever path each round takes.
theorem sendLoop_ok {kernel : Kernel} {fuel : Nat} {inKernel : Bool}
    (body : before.body = .fileRegion region) (start : 0 ≤ before.cursor.toInt)
    (inside : before.cursor.toInt ≤ region.length.toInt)
    (history : History region.opened before.host.script)
    (run : sendLoop kernel region fuel inKernel before = .ok () after) :
    after.host.socket = before.host.socket ++ region.bytes.drop before.cursor.toInt.toNat := by
  induction fuel generalizing before inKernel with
  | zero => simp [sendLoop] at run
  | succ fuel ih =>
    rw [sendLoop, bind_of_ok (show (get : Act Response) before = .ok before before from rfl)] at run
    have length := region.bytes_length
    have high := Int64.toInt_lt region.length
    have small := region.opened.bound
    have first := region.start
    have last := region.inside
    by_cases more : before.cursor < region.length
    · rw [if_pos more] at run
      rw [Int64.lt_iff_toInt_lt] at more
      have room : (region.length - before.cursor).toInt =
          region.length.toInt - before.cursor.toInt := MachineInt.sub64 (by omega) (by omega)
      simp only [bind_ok, ite_ok, throw_ok, false_and, exists_false, and_false, false_or] at run
      generalize counts : (if region.length - before.cursor < before.blockSize.toInt64 then
        (region.length - before.cursor).toInt32 else before.blockSize) = count at run
      have least : count.toInt ≤ region.length.toInt - before.cursor.toInt := by
        have top := Int32.toInt_lt before.blockSize
        rw [← counts]
        split_ifs with less
        · rw [Int64.lt_iff_toInt_lt, Int32.toInt_toInt64] at less
          rw [MachineInt.narrow (by omega) (by omega), room]
        · rw [Int64.lt_iff_toInt_lt, Int32.toInt_toInt64] at less
          omega
      have place : (region.offset + before.cursor).toInt.toNat =
          region.offset.toInt.toNat + before.cursor.toInt.toNat := by
        rw [Region.place start inside]
        omega
      -- One round has put `bytes` on the socket and moved the cursor by as much.
      have round : ∀ bytes : Bytes, ∀ n : Int64, ∀ middle : Response, ∀ path : Bool,
          n.toInt = bytes.length → bytes.length ≤ count.toInt.toNat →
          bytes = (region.opened.content.drop (region.offset + before.cursor).toInt.toNat).take
            bytes.length →
          middle.host.socket = before.host.socket ++ bytes →
          middle.body = before.body → middle.cursor = before.cursor + n →
          History region.opened middle.host.script →
          sendLoop kernel region fuel path middle = .ok () after →
          after.host.socket =
            before.host.socket ++ region.bytes.drop before.cursor.toInt.toNat := by
        intro bytes n middle path value short front wrote same moved historyAfter rest
        rw [place, region.part (by omega)] at front
        have cursor : middle.cursor.toInt = before.cursor.toInt + bytes.length := by
          rw [moved, ← value]
          exact MachineInt.add64 (by omega) (by omega)
        have natural : middle.cursor.toInt.toNat = before.cursor.toInt.toNat + bytes.length := by
          omega
        rw [ih (same.trans body) (by omega) (by omega) historyAfter rest, wrote, natural,
          List.append_assoc, ← List.drop_drop]
        conv_rhs => rw [← List.take_append_drop bytes.length (region.bytes.drop _), ← front]
      obtain ⟨-, ⟨-, sent, middle, send, run⟩ | ⟨-, chunk, read, readRun, _, wrote, putRun, run⟩⟩ := run
      · obtain ⟨kept, ⟨used, uses⟩, bytes, socket, short, front, value⟩ :=
          Region.send_ok history send
        cases sent with
        | some n =>
          simp only [bind_ok, modify_ok] at run
          obtain ⟨_, _, rfl, run⟩ := run
          exact round bytes n { middle with cursor := middle.cursor + n } true value short front
            socket kept.body
            (congrArg (· + n) kept.cursor) (history.after uses) run
        | none =>
          refine round bytes 0 middle false value short front socket kept.body ?_
            (history.after uses) run
          rw [kept.cursor, Int64.add_zero]
      · obtain ⟨kept, saw, socket, size, front⟩ := Region.read_ok history readRun
        obtain ⟨keptPut, -, wrote', used, uses⟩ := put_ok putRun
        simp only [modify_ok] at run
        obtain ⟨_, _, rfl, run⟩ := run
        have kept := kept.trans keptPut
        refine round chunk (Int64.ofNat chunk.length)
          { wrote with cursor := wrote.cursor + Int64.ofNat chunk.length } false ?_ (by omega)
          (by rw [size]; exact front) (by rw [wrote', socket]) kept.body
          (congrArg (· + Int64.ofNat chunk.length) kept.cursor)
          ((saw.history history).after uses) run
        exact Int64.toInt_ofNat_of_lt (by omega)
    · rw [if_neg more] at run
      simp only [pure_ok, true_and] at run
      rw [Int64.lt_iff_toInt_lt] at more
      rw [← run, List.drop_eq_nil_of_le (by omega), List.append_nil]

def block (chunked : Bool) (piece : Bytes) : Bytes :=
  (if chunked then encode (Numerals.numeral 16 piece.length ++ str "\r\n") else []) ++ piece ++
    if chunked then encode (str "\r\n") else []

def written (chunked : Bool) (pieces : List Bytes) : Bytes :=
  pieces.flatMap (block chunked) ++ if chunked then encode (str "0\r\n\r\n") else []

theorem written_plain (pieces : List Bytes) : written false pieces = pieces.flatten := by
  have plain : block false = id := by
    funext piece
    simp [block]
  simp [written, plain]

theorem putIf_ok {chunked : Bool} {bytes : Bytes} (run : putIf put chunked bytes before = .ok () after) :
    Kept before after ∧ after.closed = before.closed ∧
      after.host.socket = before.host.socket ++ (if chunked then bytes else []) ∧
      ∃ used, Uses used before.host after.host := by
  cases chunked with
  | true => exact put_ok run
  | false =>
    obtain ⟨-, rfl⟩ := (pure_ok ..).mp run
    exact ⟨.refl before, rfl, by simp, [], rfl⟩

theorem Kept.left (kept : Kept before after) : after.left = before.left := by
  rw [Response.left, kept.body, kept.cursor]
  rfl

theorem Kept.sound (kept : Kept before after) (sound : before.Sound) : after.Sound where
  block := by
    rw [kept.blockSize]
    exact sound.block
  body := by
    rw [kept.body, kept.cursor]
    exact sound.body

theorem Kept.history {used : List Moment} (kept : Kept before after)
    (uses : Uses used before.host after.host) (history : before.History) : after.History := by
  intro region body
  exact (history region (kept.body.symm.trans body)).after uses

theorem writeLoop_ok {chunked : Bool} {fuel : Nat} (sound : before.Sound)
    (history : before.History)
    (run : writeLoop none (read 65536) put chunked fuel before = .ok () after) :
    ∃ pieces : List Bytes, pieces.flatten = before.left ∧
      (∀ piece ∈ pieces, piece ≠ [] ∧ piece.length ≤ 65536) ∧
      after.host.socket = before.host.socket ++ pieces.flatMap (block chunked) := by
  induction fuel generalizing before with
  | zero => simp [writeLoop] at run
  | succ fuel ih =>
    simp only [writeLoop, bind_ok, ite_ok, pure_ok] at run
    obtain ⟨chunk, first, readRun, ⟨none, -, rfl⟩ | ⟨some, _, second, size, _, third, wrote, _, fourth,
      close, run⟩⟩ := run
    · obtain ⟨delivers, -⟩ := read_ok sound history readRun
      exact ⟨[], (delivers.ended none).symm, by simp, by simp [delivers.socket]⟩
    · obtain ⟨delivers, -⟩ := read_ok sound history readRun
      obtain ⟨keptSize, -, socketSize, usedSize, usesSize⟩ := putIf_ok size
      obtain ⟨keptChunk, -, socketChunk, usedChunk, usesChunk⟩ := put_ok wrote
      obtain ⟨keptClose, -, socketClose, usedClose, usesClose⟩ := putIf_ok close
      have kept := (keptSize.trans keptChunk).trans keptClose
      have uses := (usesSize.trans usesChunk).trans usesClose
      obtain ⟨pieces, whole, bounds, socket⟩ := ih (kept.sound delivers.sound)
        (kept.history uses (delivers.history history)) run
      have request := delivers.request
      have limit : (65536 : Int32).toInt = 65536 := by decide
      refine ⟨chunk :: pieces, ?_, ?_, ?_⟩
      · rw [List.flatten_cons, whole, kept.left, delivers.left]
      · simp only [List.mem_cons, forall_eq_or_imp]
        exact ⟨⟨some, by omega⟩, bounds⟩
      · rw [socket, socketClose, socketChunk, socketSize, delivers.socket, List.flatMap_cons, block]
        simp only [List.append_assoc]

theorem writeTo_ok {chunked : Bool} (sound : before.Sound) (history : before.History)
    (run : writeTo chunked before = .ok () after) :
    ∃ pieces : List Bytes, pieces.flatten = before.left ∧
      (∀ piece ∈ pieces, piece ≠ [] ∧ piece.length ≤ 65536) ∧
      after.host.socket = before.host.socket ++ written chunked pieces := by
  simp only [writeTo, writeBody, bind_ok] at run
  obtain ⟨_, middle, run, last⟩ := run
  obtain ⟨pieces, whole, bounds, socket⟩ := writeLoop_ok sound history run
  obtain ⟨-, -, socketLast, -⟩ := putIf_ok last
  exact ⟨pieces, whole, bounds, by rw [socketLast, socket, List.append_assoc, written]⟩

theorem writeTo_plain (sound : before.Sound) (history : before.History)
    (run : writeTo false before = .ok () after) :
    after.host.socket = before.host.socket ++ before.left := by
  obtain ⟨pieces, whole, -, socket⟩ := writeTo_ok sound history run
  rw [socket, written_plain, whole]

theorem Region.check_socket (run : region.check before = .ok () after) :
    after.host.socket = before.host.socket := by
  obtain ⟨-, submitted, host, -, socket, run⟩ := fileRun_ok (mapped_ok.mp run)
  obtain ⟨-, -, same⟩ := Native.hsStat_uses run
  exact same.trans socket

-- Whatever the body and the path, what is left goes out once and in order.
theorem sendTo_ok {kernel : Kernel} (sound : before.Sound) (history : before.History)
    (run : sendTo kernel before = .ok () after) :
    after.host.socket = before.host.socket ++ before.left := by
  have fits := sound.body
  unfold sendTo at run
  cases body : before.body with
  | fileRegion region =>
    rw [body] at fits
    obtain ⟨start, inside⟩ := fits
    simp only [body] at run
    split_ifs at run
    obtain ⟨last, guardRun, rfl⟩ := guarded_ok.mp run
    obtain ⟨_, middle, loop, check⟩ := (bind_ok ..).mp guardRun
    have sent := @sendLoop_ok { before with reading := true } middle region kernel _ _ body start
      inside (history region body) loop
    change last.host.socket = _
    rw [Region.check_socket check, sent, Response.left, body]
    rfl
  | empty =>
    simp only [body] at run
    exact writeTo_plain sound history run
  | bytes b =>
    simp only [body] at run
    exact writeTo_plain sound history run
  | listing stream =>
    simp only [body] at run
    exact writeTo_plain sound history run

/-- A file that is sent arrives from the cursor to the end of its region, each byte once, and as
`write_to` would have written it. -/
theorem send_exact (kernel : Kernel) (sound : before.Sound)
    (body : before.body = .fileRegion region) (history : History region.opened before.host.script)
    (run : sendTo kernel before = .ok () after) :
    after.host.socket =
        before.host.socket ++ region.bytes.drop before.cursor.toInt.toNat ∧
      ∀ host other, History region.opened host.script →
        writeTo false { before with host } = .ok () other →
        other.host.socket = host.socket ++ region.bytes.drop before.cursor.toInt.toNat := by
  have left : before.left = region.bytes.drop before.cursor.toInt.toNat := by
    rw [Response.left, body]
    rfl
  have only : ∀ host, History region.opened host.script →
      Response.History { before with host } := by
    intro host history other same
    obtain rfl := PlanBody.fileRegion.inj (body.symm.trans same)
    exact history
  constructor
  · rw [← left]
    exact sendTo_ok sound (only before.host history) run
  · intro host other history written
    rw [← left]
    exact @writeTo_plain { before with host } other ⟨sound.block, sound.body⟩
      (only host history) written

end

-- The socket is full twice, and then the kernel declines.
def fitful : Host where
  script := [.done 0, .done 0, .done 3, .done 0, .done 0, .done 0, .interrupted, .done 0, .done 0,
    .done 1, .done 0, .done 0, .done 0, .unsupported].map (Moment.mk greeting) ++
      (quiet 40).script
  socket := []

def parcel : Response where
  body := .fileRegion greetingPart
  cursor := 1
  closed := false
  reading := false
  blockSize := 4
  host := fitful

def arrived : EStateM.Result (Option Raised) Response Unit → Option Bytes
  | .ok _ after => some after.host.socket
  | .error _ _ => none

theorem send_exact_parcel :
    ∃ after, sendTo (.linux false) parcel = .ok () after ∧
      after.host.socket = parcel.host.socket ++ greetingPart.bytes.drop parcel.cursor.toInt.toNat ∧
      ∀ host other, History greetingPart.opened host.script →
        writeTo false { parcel with host } = .ok () other →
        other.host.socket =
          host.socket ++ greetingPart.bytes.drop parcel.cursor.toInt.toNat := by
  have finished : arrived (sendTo (.linux false) parcel) =
      some (encode (str "lo, wo")) := by decide +kernel
  have same : parcel.host.script.all (fun moment => decide (moment.file = greeting)) = true := by
    decide +kernel
  have history : History greetingPart.opened parcel.host.script :=
    .unchanged fun moment member =>
      of_decide_eq_true (List.all_eq_true.mp same moment member)
  have sound : parcel.Sound :=
    ⟨by decide, show 0 ≤ (1 : Int64).toInt ∧ (1 : Int64).toInt ≤ (7 : Int64).toInt by decide⟩
  cases run : sendTo (.linux false) parcel with
  | error e after => simp [run, arrived] at finished
  | ok done after =>
    exact ⟨after, rfl, send_exact (.linux false) sound rfl history run⟩

end HttpServer.Bodies
