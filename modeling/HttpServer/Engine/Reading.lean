import HttpServer.Engine.Bodies

set_option autoImplicit false

namespace HttpServer.Bodies

open Unicode StateRun Text
open Native (Snapshot Moment Host Op Working Uses Saw)
open Engine (Raised)
open StaticPlan (ListingStream renderDirectoryHtml)

/-- One call, and the host as the call leaves it. -/
structure Call where
  maxLen : Int32
  result : Except (Option Raised) Bytes
  host : Host

def Call.chunk (call : Call) : Bytes := call.result.toOption.getD []

def reads : List Int32 → Response → List Call × Response
  | [], response => ([], response)
  | maxLen :: maxima, response =>
      match read maxLen response with
      | .ok chunk after =>
          let (calls, last) := reads maxima after
          (⟨maxLen, .ok chunk, after.host⟩ :: calls, last)
      | .error e after =>
          let (calls, last) := reads maxima after
          (⟨maxLen, .error e, after.host⟩ :: calls, last)

def delivered (calls : List Call) : Bytes := calls.flatMap Call.chunk

/-- The pieces are the body from where `start` stands, and say when it has ended. -/
structure Exact (start : Response) (calls : List Call) : Prop where
  front : delivered calls <+: start.left
  pieces : ∀ call ∈ calls, ∀ chunk, call.result = .ok chunk →
    (chunk.length : Int) ≤ call.maxLen.toInt ∧ (chunk.length : Int) ≤ start.blockSize.toInt
  ended : ∀ before call after, calls = before ++ call :: after → call.result = .ok [] →
    delivered before = start.left
  file : ∀ region, start.body = .fileRegion region → ∀ call ∈ calls, ∀ chunk,
    call.result = .ok chunk → Saw region.opened start.host call.host

section

variable {start : Response} {maxima : List Int32}

theorem reads_closed (positive : ∀ maxLen ∈ maxima, 0 < maxLen.toInt)
    (closed : start.closed = true) (idle : start.reading = false) :
    (reads maxima start).2 = start ∧
      ∀ call ∈ (reads maxima start).1, ∃ e, call.result = .error e := by
  induction maxima with
  | nil => simp [reads]
  | cons maxLen maxima ih =>
    simp only [List.mem_cons, forall_eq_or_imp] at positive
    obtain ⟨last, all⟩ := ih positive.2
    simp only [reads, read_eq idle positive.1, closed, if_true]
    exact ⟨last, by simpa using all⟩

theorem chunk_failed {call : Call} (failed : ∃ e, call.result = .error e) : call.chunk = [] := by
  obtain ⟨e, failed⟩ := failed
  simp [Call.chunk, failed, Except.toOption]

theorem delivered_failed {calls : List Call} (failed : ∀ call ∈ calls, ∃ e, call.result = .error e) :
    delivered calls = [] := by
  simp only [delivered, List.flatMap_eq_nil_iff]
  exact fun call member => chunk_failed (failed call member)

theorem Delivers.history {maxLen : Int32} {after : Response} {chunk : Bytes}
    (delivers : Delivers maxLen start chunk after) (history : start.History) :
    after.History := by
  intro region body
  have before := delivers.kind region body
  exact (delivers.file region before).2.history (history region before)

theorem reads_spec (sound : start.Sound) (history : start.History)
    (idle : start.reading = false) (positive : ∀ maxLen ∈ maxima, 0 < maxLen.toInt) :
    Exact start (reads maxima start).1 ∧
      (reads maxima start).2.cursor = start.cursor +
        Int64.ofNat (delivered (reads maxima start).1).length := by
  induction maxima generalizing start with
  | nil =>
    refine ⟨⟨List.nil_prefix, by simp [reads], ?_, by simp [reads]⟩, ?_⟩
    · intro before call after whole
      simp [reads] at whole
    · simp [reads, delivered]
  | cons maxLen maxima ih =>
    simp only [List.mem_cons, forall_eq_or_imp] at positive
    cases run : read maxLen start with
    | ok chunk after =>
      obtain ⟨delivers, idleAfter⟩ := read_ok sound history run
      obtain ⟨exact, cursor⟩ := ih delivers.sound (delivers.history history) idleAfter positive.2
      simp only [reads, run]
      generalize reads maxima after = rest at exact cursor ⊢
      obtain ⟨calls, last⟩ := rest
      have front : delivered (⟨maxLen, .ok chunk, after.host⟩ :: calls) =
          chunk ++ delivered calls := rfl
      refine ⟨⟨?_, ?_, ?_, ?_⟩, ?_⟩
      · rw [front, delivers.left]
        exact (List.prefix_append_right_inj chunk).mpr exact.front
      · intro call member piece result
        rcases List.mem_cons.mp member with rfl | member
        · obtain rfl := Except.ok.inj result
          exact ⟨delivers.request, delivers.block⟩
        · rw [← delivers.blockSize]
          exact exact.pieces call member piece result
      · intro before call back whole result
        cases before with
        | nil =>
          obtain ⟨rfl, rfl⟩ := List.cons.inj whole
          exact (delivers.ended (Except.ok.inj result)).symm
        | cons first before =>
          obtain ⟨same, rest⟩ := List.cons.inj whole
          rw [delivers.left, ← exact.ended before call back rest result, ← same]
          rfl
      · intro region body call member piece result
        obtain ⟨bodyAfter, saw⟩ := delivers.file region body
        rcases List.mem_cons.mp member with rfl | member
        · exact saw
        · exact saw.trans (exact.file region bodyAfter call member piece result)
      · rw [front, cursor, delivers.cursor, List.length_append, Int64.ofNat_add, Int64.add_assoc]
    | error e after =>
      obtain ⟨closed, idleAfter, cursor⟩ := read_error idle positive.1 run
      obtain ⟨last, failed⟩ := @reads_closed after maxima positive.2 closed idleAfter
      simp only [reads, run, last]
      generalize (reads maxima after).1 = calls at failed
      have failed : ∀ call ∈ ⟨maxLen, .error e, after.host⟩ :: calls, ∃ e, call.result = .error e := by
        simpa using failed
      have nothing := delivered_failed failed
      refine ⟨⟨by rw [nothing]; exact List.nil_prefix, ?_, ?_, ?_⟩, ?_⟩
      · intro call member piece result
        obtain ⟨e, error⟩ := failed call member
        rw [result] at error
        cases error
      · intro before call back whole result
        obtain ⟨e, error⟩ := failed call (by simp [whole])
        rw [result] at error
        cases error
      · intro region body call member piece result
        obtain ⟨e, error⟩ := failed call member
        rw [result] at error
        cases error
      · rw [nothing, cursor]
        simp

end

section

variable {before : Response}

theorem fileRun_runs {α : Type} {op : Op α} {a : α} {submitted : Moment} {script : List Moment}
    {host : Host} (opened : before.closed = false)
    (begins : before.host.script = submitted :: script) (works : ∃ count, submitted.answer = .done count)
    (run : op ⟨script, before.host.socket⟩ = .ok a host) :
    fileRun op before = .ok a { before with host } := by
  obtain ⟨count, answer⟩ := works
  simp only [fileRun, bind_ok, get_ok, ite_ok, throw_ok, pure_ok, onHost_ok, Native.now_ok,
    false_and, exists_false, and_false, false_or, modify_ok, opened]
  refine ⟨before, before, ⟨rfl, rfl⟩, by simp [opened], submitted, _,
    ⟨⟨script, before.host.socket⟩, ⟨begins, rfl⟩, rfl⟩, by simp [answer], a, _, ⟨host, run, rfl⟩,
    Or.inr ⟨by simp [answer], rfl, ?_⟩⟩
  simp [opened]

-- The moment of the submission is there, and what comes after it works too.
theorem submission {opened : Snapshot} {host : Host} {n : Nat}
    (working : Working opened host.script) (enough : n + 1 ≤ host.script.length) :
    ∃ submitted script, host.script = submitted :: script ∧ n ≤ script.length ∧
      Working opened script ∧ ∃ count, submitted.answer = .done count := by
  obtain ⟨script, socket⟩ := host
  cases script with
  | nil => simp at enough
  | cons submitted script =>
    obtain ⟨count, answer⟩ := (working submitted (by simp)).answer
    exact ⟨submitted, script, rfl, by simpa using enough,
      fun later member => working later (List.mem_cons_of_mem _ member), _, answer⟩

theorem Region.check_runs {region : Region} (opened : before.closed = false)
    (working : Working region.opened before.host.script) (enough : 2 ≤ before.host.script.length) :
    ∃ host, region.check before = .ok () { before with host } ∧
      before.host.script.length = host.script.length + 2 := by
  obtain ⟨submitted, script, begins, few, rest, answer⟩ := submission working enough
  obtain ⟨host, run, left⟩ := @Native.hsStat_runs region.opened ⟨script, before.host.socket⟩ rest few
  refine ⟨host, mapped_ok.mpr (fileRun_runs opened begins answer run), ?_⟩
  change script.length = _ at left
  rw [begins, List.length_cons, left]

theorem Region.read_runs {region : Region} {offset : Int64} {length : Int32}
    (opened : before.closed = false) (working : Working region.opened before.host.script)
    (inside : Native.outside region.file offset length = false)
    (enough : length.toInt.toNat + 4 ≤ before.host.script.length) :
    ∃ bytes host, region.read offset length before = .ok bytes { before with host } ∧
      before.host.script.length ≤ host.script.length + (length.toInt.toNat + 4) := by
  obtain ⟨submitted, script, begins, few, rest, answer⟩ := submission working enough
  obtain ⟨bytes, host, run, left⟩ :=
    @Native.hsRead_runs region.opened offset length ⟨script, before.host.socket⟩ rest inside few
  refine ⟨bytes, host, mapped_ok.mpr (fileRun_runs opened begins answer run), ?_⟩
  change script.length ≤ _ at left
  rw [begins, List.length_cons]
  omega

-- For a file: the system works for so many moments.
def Response.Ready (response : Response) (moments : Nat) : Prop :=
  ∀ region, response.body = .fileRegion region →
    Working region.opened response.host.script ∧ moments ≤ response.host.script.length

theorem chunk_runs {maxLen : Int32} (sound : before.Sound) (opened : before.closed = false)
    (positive : 0 < maxLen.toInt) (ready : before.Ready (maxLen.toInt.toNat + 6)) :
    ∃ chunk after, before.body.chunk before.cursor
        (least (if before.body.remaining before.cursor maxLen < maxLen.toInt64
          then (before.body.remaining before.cursor maxLen).toInt32 else maxLen) before.blockSize)
        before = .ok chunk after ∧ after.closed = false ∧
      before.host.script.length ≤ after.host.script.length + (maxLen.toInt.toNat + 6) := by
  have fits := sound.body
  cases body : before.body with
  | empty => exact ⟨_, before, rfl, opened, by omega⟩
  | bytes b => exact ⟨_, before, rfl, opened, by omega⟩
  | listing stream =>
    refine ⟨_, _, rfl, opened, ?_⟩
    change before.host.script.length ≤ before.host.script.length + _
    omega
  | fileRegion region =>
    obtain ⟨working, enough⟩ := ready region body
    rw [body] at fits
    obtain ⟨start, inside⟩ := fits
    have block := sound.block
    have first := region.start
    have last := region.inside
    have count := @Region.count region before.cursor maxLen before.blockSize start inside positive
    have place := @Region.place region before.cursor start inside
    obtain ⟨host, check, some⟩ := Region.check_runs opened working (by omega)
    obtain ⟨kept, saw, -⟩ := Region.check_ok working.history check
    obtain ⟨used, uses, -, -⟩ := saw
    have size := region.opened.stamp_size
    have within : Native.outside region.file (region.offset + before.cursor)
        (least (if region.length - before.cursor < maxLen.toInt64
          then (region.length - before.cursor).toInt32 else maxLen) before.blockSize) = false := by
      refine (Native.outside_eq_false ?_).mpr ?_
      · change 0 ≤ region.opened.stamp.size.toInt
        omega
      · change _ ∧ _ ∧ _ ≤ region.opened.stamp.size.toInt
        omega
    obtain ⟨bytes, host', read, few⟩ := @Region.read_runs { before with host } region _ _ opened
      (working.after uses) within (by change _ ≤ host.script.length; omega)
    change host.script.length ≤ _ at few
    refine ⟨bytes, _, bind_of_ok check |>.trans read, opened, ?_⟩
    change before.host.script.length ≤ host'.script.length + _
    omega

theorem read_runs {maxLen : Int32} (sound : before.Sound) (opened : before.closed = false)
    (idle : before.reading = false) (positive : 0 < maxLen.toInt)
    (ready : before.Ready (maxLen.toInt.toNat + 6)) :
    ∃ chunk after, read maxLen before = .ok chunk after ∧ after.closed = false ∧
      before.host.script.length ≤ after.host.script.length + (maxLen.toInt.toNat + 6) := by
  obtain ⟨chunk, middle, run, still, few⟩ := @chunk_runs { before with reading := true }
    maxLen ⟨sound.block, sound.body⟩ opened positive ready
  refine ⟨chunk,
    { middle with cursor := middle.cursor + Int64.ofNat chunk.length, reading := false },
    ?_, still, few⟩
  rw [read_eq idle positive, opened]
  simp only [Bool.false_eq_true, if_false, guarded_ok, readChunk, bind_ok, get_ok, ite_ok, throw_ok,
    pure_ok, modify_ok, false_and, exists_false, and_false, false_or]
  exact ⟨_, ⟨_, _, ⟨rfl, rfl⟩, chunk, middle, run, middle, middle, ⟨rfl, rfl⟩, by simp [still], (), _,
    rfl, rfl, rfl⟩, rfl⟩

def needed (maxima : List Int32) : Nat := (maxima.map fun maxLen => maxLen.toInt.toNat + 6).sum

theorem Response.Ready.history {moments : Nat} (ready : before.Ready moments) :
    before.History := fun region body => (ready region body).1.history

theorem reads_working {maxima : List Int32} (sound : before.Sound)
    (opened : before.closed = false) (idle : before.reading = false)
    (positive : ∀ maxLen ∈ maxima, 0 < maxLen.toInt) (ready : before.Ready (needed maxima)) :
    (∀ call ∈ (reads maxima before).1, ∃ chunk, call.result = .ok chunk) ∧
      (before.left.length < maxima.length →
        delivered (reads maxima before).1 = before.left) := by
  induction maxima generalizing before with
  | nil => simp [reads]
  | cons maxLen maxima ih =>
    simp only [List.mem_cons, forall_eq_or_imp] at positive
    have now : before.Ready (maxLen.toInt.toNat + 6) := by
      intro region body
      obtain ⟨working, enough⟩ := ready region body
      simp only [needed, List.map_cons, List.sum_cons] at enough
      exact ⟨working, by omega⟩
    obtain ⟨chunk, after, run, still, few⟩ :=
      @read_runs before maxLen sound opened idle positive.1 now
    obtain ⟨delivers, idleAfter⟩ := read_ok sound ready.history run
    have later : after.Ready (needed maxima) := by
      intro region body
      obtain ⟨working, enough⟩ := ready region (delivers.kind region body)
      obtain ⟨used, uses, -, -⟩ := (delivers.file region (delivers.kind region body)).2
      simp only [needed, List.map_cons, List.sum_cons] at enough
      exact ⟨working.after uses, by rw [needed]; omega⟩
    obtain ⟨all, ended⟩ := ih delivers.sound still idleAfter positive.2 later
    obtain ⟨exact, -⟩ :=
      @reads_spec after maxima delivers.sound later.history idleAfter positive.2
    have left := delivers.left
    simp only [reads, run]
    constructor
    · simpa using all
    · intro long
      change chunk ++ delivered (reads maxima after).1 = _
      rw [left]
      congr 1
      by_cases none : chunk = []
      · -- Nothing was left, so nothing more has come.
        have nothing := delivers.ended none
        rw [none, List.nil_append, nothing] at left
        rw [← left]
        exact List.prefix_nil.mp (left ▸ exact.front)
      · have some := List.length_pos_iff.mpr none
        rw [left, List.length_append, List.length_cons] at long
        exact ended (by omega)

end

def PlanBody.Fresh : PlanBody → Prop
  | .listing stream => stream.stage = 0 ∧ stream.index = 0 ∧ stream.pending = [] ∧
      stream.position = 0 ∧ stream.Fits
  | _ => True

def PlanBody.whole : PlanBody → Bytes
  | .empty => []
  | .bytes b => b.data
  | .fileRegion region => region.bytes
  | .listing stream =>
      encode (renderDirectoryHtml stream.title stream.entries stream.query stream.host)

def Response.start (body : PlanBody) (blockSize : Int32) (host : Host) : Response where
  body
  cursor := 0
  closed := false
  reading := false
  blockSize
  host

section

variable {body : PlanBody} {blockSize : Int32} {host : Host}

theorem start_sound (fresh : body.Fresh) (block : 0 < blockSize.toInt) :
    (Response.start body blockSize host).Sound where
  block
  body := by
    have zero64 : (0 : Int64).toInt = 0 := by decide
    have zero32 : (0 : Int32).toInt = 0 := by decide
    cases body with
    | empty => exact zero64
    | bytes b => exact ⟨by rw [Response.start, zero64], by simp [Response.start, zero64]⟩
    | fileRegion region =>
      have size := region.size
      exact ⟨by rw [Response.start, zero64], by rw [Response.start, zero64]; exact size⟩
    | listing stream =>
      obtain ⟨-, index, pending, position, fits⟩ := fresh
      exact ⟨fits, by simp [pending], by simp [position, zero32], by simp [position, zero32],
        by simp [index, zero32], by simp [index, zero32]⟩

theorem start_left (fresh : body.Fresh) :
    (Response.start body blockSize host).left = body.whole := by
  have zero64 : (0 : Int64).toInt.toNat = 0 := by decide
  have zero32 : (0 : Int32).toInt.toNat = 0 := by decide
  cases body with
  | empty => rfl
  | bytes b => simp [Response.left, Response.start, PlanBody.left, PlanBody.whole]
  | fileRegion region => simp [Response.left, Response.start, PlanBody.left, PlanBody.whole]
  | listing stream =>
    obtain ⟨stage, index, pending, position, -⟩ := fresh
    simp only [Response.left, Response.start, PlanBody.left, PlanBody.whole]
    rw [ListingStream.toCome_fresh position, pending, List.nil_append]
    simp only [ListingStream.later, ListingStream.rows, stage, if_true, index, zero32,
      List.drop_zero, StaticPlan.encode_renderDirectoryHtml]

theorem ofNat_le (n : Nat) : (Int64.ofNat n).toInt ≤ n := by
  have size : Int64.size = 18446744073709551616 := rfl
  rw [Int64.toInt_ofNat', Int.bmod_def, size]
  split_ifs <;> omega

/-- What a sequence of calls is owed: the whole body, in pieces that fit, with an empty piece only
at its end, and a failure once the file is another one. -/
structure ReadsExactly (body : PlanBody) (blockSize : Int32) (host : Host)
    (maxima : List Int32) (calls : List Call) (last : Response) : Prop where
  front : delivered calls <+: body.whole
  pieces : ∀ call ∈ calls, ∀ chunk, call.result = .ok chunk →
    (chunk.length : Int) ≤ call.maxLen.toInt ∧ (chunk.length : Int) ≤ blockSize.toInt
  ended : ∀ before call after, calls = before ++ call :: after → call.result = .ok [] →
    delivered before = body.whole
  cursor : last.cursor = Int64.ofNat (delivered calls).length
  inside : last.cursor.toInt ≤ body.whole.length
  changed : ∀ region, body = .fileRegion region → ∀ call ∈ calls, ∀ used,
    Uses used host call.host →
    (∃ moment ∈ used, moment.file.stamp ≠ region.opened.stamp) → ∃ e, call.result = .error e
  answered : (Response.start body blockSize host).Ready (needed maxima) →
    ∀ call ∈ calls, ∃ chunk, call.result = .ok chunk
  complete : (Response.start body blockSize host).Ready (needed maxima) →
    body.whole.length < maxima.length → delivered calls = body.whole

/-- Bytes, file regions and listings, by any sequence of requests. -/
theorem reads_exact (maxima : List Int32) (fresh : body.Fresh)
    (block : 0 < blockSize.toInt) (positive : ∀ maxLen ∈ maxima, 0 < maxLen.toInt)
    (history : (Response.start body blockSize host).History) :
    ReadsExactly body blockSize host maxima
      (reads maxima (Response.start body blockSize host)).1
      (reads maxima (Response.start body blockSize host)).2 := by
  have sound := @start_sound body blockSize host fresh block
  have whole := @start_left body blockSize host fresh
  obtain ⟨exact, cursor⟩ := @reads_spec _ maxima sound history rfl positive
  have zero : (Response.start body blockSize host).cursor = 0 := rfl
  rw [zero, Int64.zero_add] at cursor
  have front := exact.front
  rw [whole] at front
  exact {
    front
    pieces := exact.pieces
    ended := fun before call after split result => by
      rw [← whole]
      exact exact.ended before call after split result
    cursor
    inside := by
      have length := front.length_le
      have low := ofNat_le (delivered (reads maxima
        (Response.start body blockSize host)).1).length
      rw [cursor]
      omega
    changed := by
      rintro region same call member used uses ⟨moment, inside, other⟩
      cases result : call.result with
      | error e => exact ⟨e, rfl⟩
      | ok chunk =>
        have saw := exact.file region same call member chunk result
        exact absurd (congrArg Snapshot.stamp (saw.shown uses moment inside)) other
    answered := fun ready => (reads_working sound rfl rfl positive ready).1
    complete := fun ready long => by
      rw [← whole] at long ⊢
      exact (reads_working sound rfl rfl positive ready).2 long }

end

def greeting : Snapshot := ⟨encode (str "hello, world"), 1700000000, 0, by decide +kernel⟩

def greetingPart : Region where
  opened := greeting
  offset := 2
  length := 7
  start := by decide
  size := by decide
  inside := by decide

def quiet (moments : Nat) : Host := ⟨List.replicate moments ⟨greeting, .done 2⟩, []⟩

theorem reads_exact_greeting :
    ReadsExactly (.fileRegion greetingPart) 3 (quiet 60) [2, 5, 1, 9]
      (reads [2, 5, 1, 9] (Response.start (.fileRegion greetingPart) 3 (quiet 60))).1
      (reads [2, 5, 1, 9]
        (Response.start (.fileRegion greetingPart) 3 (quiet 60))).2 :=
  reads_exact [2, 5, 1, 9] trivial (by decide) (by simp) (by
    intro region body
    obtain rfl := PlanBody.fileRegion.inj body
    exact .unchanged fun moment member => congrArg Moment.file (List.mem_replicate.mp member).2)

example : delivered (reads [2, 5, 1, 9]
    (Response.start (.fileRegion greetingPart) 3 (quiet 60))).1 = encode (str "llo, wo") := by
  decide +kernel

end HttpServer.Bodies
