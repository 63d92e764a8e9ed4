import HttpServer.Framing.Body
import HttpServer.Library.PairedRuns

set_option autoImplicit false

namespace HttpServer.Framing

open Unicode StateRun PairedRuns

section

variable {σ τ : Type} [Reader σ] [Reader τ]

/-- Two connections with the same bytes to come, in the same state of the body. -/
structure Agree (c : Connection σ) (d : Connection τ) : Prop where
  unread : c.unread = d.unread
  body : c.body = d.body
  started : c.body ≠ .fixed 0

-- After an error nothing is read on, and the body state is whatever it was.
def SameRest (c : Connection σ) (d : Connection τ) : Prop := c.unread = d.unread

abbrev Agreeing {α : Type} (x : ReadM σ α) (y : ReadM τ α) : Prop := Alike Agree SameRest x y

theorem throw_agreeing {α : Type} (e : ReadError) :
    Agreeing (throw e : ReadM σ α) (throw e : ReadM τ α) :=
  Alike.throw e fun _ _ agree => agree.unread

theorem byte_end {c : Connection σ} (unread : c.unread = []) :
    ∃ c', byte c = .error .readerClosed c' ∧ c'.unread = [] := by
  obtain ⟨noPending, noSource⟩ := List.append_eq_nil_iff.mp unread
  have whole := Reader.read_append c.source 8192
  rw [noSource] at whole
  obtain ⟨nothing, rest⟩ := List.append_eq_nil_iff.mp whole
  refine ⟨{ c with source := (Reader.read c.source 8192).2 }, ?_, ?_⟩
  · simp only [byte, noPending]
    rw [nothing]
  · simp only [Connection.unread, noPending, rest, List.append_nil]

theorem byte_agreeing : Agreeing (byte : ReadM σ UInt8) (byte : ReadM τ UInt8) := by
  intro c d agree
  cases input : c.unread with
  | nil =>
    obtain ⟨c', run, rest⟩ := byte_end input
    obtain ⟨d', run', rest'⟩ := byte_end (agree.unread.symm.trans input)
    rw [run, run']
    exact .error _ c' d' (rest.trans rest'.symm)
  | cons b rest =>
    obtain ⟨c', run, unread, body⟩ := byte_run input
    obtain ⟨d', run', unread', body'⟩ := byte_run (agree.unread.symm.trans input)
    rw [run, run']
    refine .ok b c' d' ⟨unread.trans unread'.symm, ?_, ?_⟩
    · rw [body, body', agree.body]
    · rw [body]
      exact agree.started

theorem lineLoop_agreeing (room : Nat) (bytes : Bytes) :
    Agreeing (lineLoop room bytes : ReadM σ Str) (lineLoop room bytes : ReadM τ Str) := by
  induction room generalizing bytes with
  | zero => exact throw_agreeing _
  | succ room ih =>
    refine byte_agreeing.bind fun b => ?_
    refine Alike.ite (byte_agreeing.bind fun next => ?_) (Alike.ite (throw_agreeing _) (ih _))
    refine Alike.ite (throw_agreeing _) ?_
    cases decode bytes with
    | none => exact throw_agreeing _
    | some text => exact Alike.pure text

theorem line_agreeing (limit : Nat) : Agreeing (line limit : ReadM σ Str) (line limit : ReadM τ Str) :=
  lineLoop_agreeing _ _

theorem headersLoop_agreeing (rounds used count : Nat) (before : Headers) :
    Agreeing (headersLoop rounds used count before : ReadM σ Headers)
      (headersLoop rounds used count before : ReadM τ Headers) := by
  induction rounds generalizing used count before with
  | zero => exact throw_agreeing _
  | succ rounds ih =>
    refine (line_agreeing _).bind fun text => ?_
    refine Alike.ite (throw_agreeing _) (Alike.ite (Alike.pure _) (Alike.ite (throw_agreeing _) ?_))
    cases Text.find text (unit ':') with
    | none => exact throw_agreeing _
    | some colon =>
      dsimp only
      cases RequestHeaders.add before (Text.toLower (text.take colon)) (text.drop (colon + 1)) with
      | none => exact throw_agreeing _
      | some after => exact ih _ _ _

theorem headers_agreeing :
    Agreeing (headers : ReadM σ Headers) (headers : ReadM τ Headers) :=
  headersLoop_agreeing _ _ _ _

theorem setBody_agreeing {body : Body} (started : body ≠ .fixed 0) :
    Agreeing (setBody body : ReadM σ Unit) (setBody body : ReadM τ Unit) :=
  fun c d agree => .ok () { c with body } { d with body } ⟨agree.unread, rfl, started⟩

theorem framing_started {http11 : Bool} {found : Headers} {body : Body}
    (framed : framing http11 found = some body) : body ≠ .fixed 0 := by
  rintro rfl
  unfold framing at framed
  split at framed
  · split_ifs at framed
    cases framed
  · split at framed
    · split_ifs at framed
      split at framed
      · cases framed
      · next n _ =>
        by_cases zero : n = 0
        · simp [zero] at framed
        · simp [zero] at framed
    · cases framed

theorem requestHead_agreeing (text : Str) :
    Agreeing (requestHead text : ReadM σ Head) (requestHead text : ReadM τ Head) := by
  unfold requestHead
  split
  · refine Alike.ite (throw_agreeing _) (Alike.ite (throw_agreeing _) ?_)
    refine headers_agreeing.bind fun found => Alike.ite (throw_agreeing _) ?_
    cases framed : framing _ found with
    | none => exact throw_agreeing _
    | some body => exact (setBody_agreeing (framing_started framed)).bind fun _ => Alike.pure _
  · exact throw_agreeing _

theorem readRequest_agreeing : Agreeing (readRequest : ReadM σ Head) (readRequest : ReadM τ Head) := by
  intro c d agree
  change Match Agree SameRest
    ((if c.body ≠ .empty then throw .invalid else line 8192 >>= requestHead : ReadM σ Head) c)
    ((if d.body ≠ .empty then throw .invalid else line 8192 >>= requestHead : ReadM τ Head) d)
  rw [← agree.body]
  exact Alike.ite (throw_agreeing _) ((line_agreeing _).bind requestHead_agreeing) c d agree

theorem openBlock_agreeing :
    Agreeing (openBlock : ReadM σ (Option Nat)) (openBlock : ReadM τ (Option Nat)) := by
  intro c d agree
  unfold openBlock
  apply Match.get
  rw [← agree.body]
  rcases c.body with _ | n | (_ | n)
  · exact Alike.pure _ c d agree
  · exact Alike.pure _ c d agree
  · refine Alike.bind (line_agreeing _) (fun text => ?_) c d agree
    rcases chunkSize text with _ | (_ | n)
    · exact throw_agreeing _
    · refine headers_agreeing.bind fun trailers => Alike.ite (throw_agreeing _) ?_
      exact (setBody_agreeing (by simp)).bind fun _ => Alike.pure _
    · exact (setBody_agreeing (by simp)).bind fun _ => Alike.pure _
  · exact Alike.pure _ c d agree

theorem openBlock_fresh {c d : Connection σ} {n : Nat} (state : c.body = .chunked 0)
    (run : openBlock c = .ok (some n) d) :
    0 < n ∧ d.body = .chunked n ∧ d.unread.length < c.unread.length := by
  simp only [openBlock, bind_ok, get_ok] at run
  obtain ⟨_, _, ⟨rfl, rfl⟩, run⟩ := run
  simp only [state, bind_ok] at run
  obtain ⟨text, e, read, run⟩ := run
  rcases size : chunkSize text with _ | _ | m
  · simp [size] at run
  · simp [size, setBody] at run
  · simp only [size, bind_ok, setBody, modify_ok, pure_ok, Option.some.injEq] at run
    obtain ⟨_, g, rfl, rfl, rfl⟩ := run
    refine ⟨Nat.succ_pos m, rfl, ?_⟩
    have length := congrArg List.length (line_ok read).1.unread
    rw [List.length_append, length_encodeLine] at length
    rw [Connection.unread_setBody]
    omega

theorem readExactly_end {fuel n : Nat} {c : Connection σ} (enough : n ≤ fuel)
    (short : c.unread.length < n) :
    ∃ c', readExactly fuel n c = .error .readerClosed c' ∧ c'.unread = [] := by
  induction fuel generalizing n c with
  | zero => omega
  | succ fuel ih =>
    obtain ⟨m, rfl⟩ := Nat.exists_eq_add_one_of_ne_zero (show n ≠ 0 by omega)
    obtain ⟨bytes, d, read, consumed, bound, progress⟩ := directRead_spec (m + 1) c
    simp only [readExactly]
    rw [bind_of_ok read]
    by_cases none : bytes = []
    · subst none
      have ended : c.unread = [] := by
        by_contra more
        exact progress (Nat.succ_pos m) more rfl
      exact ⟨d, rfl, consumed.unread.symm.trans ended⟩
    · have length := congrArg List.length consumed.unread
      rw [List.length_append] at length
      have some := List.length_pos_iff.mpr none
      obtain ⟨e, more, left⟩ := ih (n := m + 1 - bytes.length) (c := d) (by omega) (by omega)
      rw [if_neg none, bind_of_error more]
      exact ⟨e, rfl, left⟩

-- What follows the data of a chunk.
theorem expectCrlf_cases (c : Connection σ) :
    (c.unread.length < 2 ∧ ∃ d, expectCrlf c = .error .readerClosed d ∧ d.unread = []) ∨
      2 ≤ c.unread.length ∧ ∃ d, d.unread = c.unread.drop 2 ∧ d.body = c.body ∧
        expectCrlf c = if c.unread.take 2 = crlf then .ok () d else .error .invalid d := by
  unfold expectCrlf
  by_cases short : c.unread.length < 2
  · obtain ⟨d, run, left⟩ := readExactly_end (Nat.le_refl 2) short
    rw [bind_of_error run]
    exact Or.inl ⟨short, d, rfl, left⟩
  · obtain ⟨two, d, run⟩ := readExactly_run 2 (Nat.le_refl 2) (Nat.le_of_not_lt short)
    obtain ⟨consumed, length⟩ := readExactly_ok run
    refine Or.inr ⟨Nat.le_of_not_lt short, d, ?_, consumed.body, ?_⟩
    · rw [consumed.unread, ← length, List.drop_left]
    · rw [bind_of_ok run, consumed.unread, ← length, List.take_left]
      by_cases closed : two = crlf
      · subst closed
        rfl
      · rw [if_neg closed]
        simp only [crlf] at closed
        rw [if_pos closed]
        rfl

-- `read_body` until it returns 0, the `i`-th time into a buffer of `sizes i` bytes.
def readBodies (sizes : Nat → Nat) : Nat → Nat → ReadM σ Bytes
  | 0, _ => throw .readerClosed
  | fuel + 1, i => do
      let piece ← readBody (sizes i)
      if piece = [] then return [] else return piece ++ (← readBodies sizes fuel (i + 1))

-- Every round but the last takes at least one byte.
def fullBody (sizes : Nat → Nat) : ReadM σ Bytes := fun c =>
  readBodies sizes (c.unread.length + 1) 0 c

-- The data of a body, or the error its reading ends with, and what is left unread then.
abbrev Ending := Except ReadError Bytes × Bytes

def prepend (data : Bytes) (ending : Ending) : Ending := (ending.1.map (data ++ ·), ending.2)

def blockEnd (n : Nat) (input : Bytes) (next : Bytes → Ending) : Ending :=
  if input.length < n + 2 then (.error .readerClosed, [])
  else if (input.drop n).take 2 = crlf then prepend (input.take n) (next (input.drop (n + 2)))
  else (.error .invalid, input.drop (n + 2))

-- How a body ends, block by block, without a transport.
def bodyEnd : Nat → Body → Bytes → Ending
  | _, .empty, input => (.ok [], input)
  | _, .fixed n, input =>
      if input.length < n then (.error .readerClosed, []) else (.ok (input.take n), input.drop n)
  | 0, .chunked _, input => (.error .readerClosed, input)
  | fuel + 1, .chunked 0, input =>
      match openBlock (⟨input, [], .chunked 0⟩ : Connection Bytes) with
      | .ok none d => (.ok [], d.unread)
      | .ok (some n) d => blockEnd n d.unread (bodyEnd fuel (.chunked 0))
      | .error e d => (.error e, d.unread)
  | fuel + 1, .chunked (n + 1), input => blockEnd (n + 1) input (bodyEnd fuel (.chunked 0))

theorem prepend_append (data more : Bytes) (ending : Ending) :
    prepend (data ++ more) ending = prepend data (prepend more ending) := by
  obtain ⟨result, left⟩ := ending
  cases result with
  | error e => rfl
  | ok rest => simp [prepend, Except.map]

@[simp] theorem prepend_nil (ending : Ending) : prepend [] ending = ending := by
  obtain ⟨result, left⟩ := ending
  cases result with
  | error e => rfl
  | ok rest => rfl

theorem blockEnd_append (piece rest : Bytes) (n : Nat) (next : Bytes → Ending) :
    blockEnd (piece.length + n) (piece ++ rest) next = prepend piece (blockEnd n rest next) := by
  unfold blockEnd
  have short : (piece ++ rest).length < piece.length + n + 2 ↔ rest.length < n + 2 := by
    rw [List.length_append]
    omega
  have drop (k : Nat) : (piece ++ rest).drop (piece.length + k) = rest.drop k := by
    rw [List.drop_append, List.drop_of_length_le (by omega), List.nil_append]
    congr 1
    omega
  have take : (piece ++ rest).take (piece.length + n) = piece ++ rest.take n := by
    rw [List.take_append, List.take_of_length_le (by omega)]
    congr 2
    omega
  rw [Nat.add_assoc, drop, drop, take]
  by_cases cut : rest.length < n + 2
  · rw [if_pos (by simpa [Nat.add_assoc] using short.mpr cut), if_pos cut]
    rfl
  · rw [if_neg (by simpa [Nat.add_assoc] using short.not.mpr cut), if_neg cut]
    by_cases closed : (rest.drop n).take 2 = crlf
    · rw [if_pos closed, if_pos closed, prepend_append]
    · rw [if_neg closed, if_neg closed]
      rfl

theorem bodyEnd_fixed (fuel n : Nat) (piece rest : Bytes) :
    bodyEnd fuel (.fixed (piece.length + n)) (piece ++ rest) =
      prepend piece (bodyEnd fuel (.fixed n) rest) := by
  simp only [bodyEnd, List.length_append, Nat.add_lt_add_iff_left]
  by_cases cut : rest.length < n
  · rw [if_pos cut, if_pos cut]
    rfl
  · rw [if_neg cut, if_neg cut]
    simp [prepend, Except.map, List.take_append, List.drop_append]

theorem bodyEnd_chunked {n : Nat} (fuel : Nat) (input : Bytes) (inside : 0 < n) :
    bodyEnd (fuel + 1) (.chunked n) input = blockEnd n input (bodyEnd fuel (.chunked 0)) := by
  obtain ⟨m, rfl⟩ := Nat.exists_eq_add_one_of_ne_zero (show n ≠ 0 by omega)
  rfl

inductive Comes (ending : Ending) : EStateM.Result ReadError (Connection σ) Bytes → Prop
  | ok (data : Bytes) (d : Connection σ) (same : ending = (.ok data, d.unread))
      (finished : d.body = .empty) : Comes ending (.ok data d)
  | error (e : ReadError) (d : Connection σ) (same : ending = (.error e, d.unread)) :
      Comes ending (.error e d)

theorem Comes.prepend {ending : Ending} {x : ReadM σ Bytes} {c : Connection σ} (piece : Bytes)
    (comes : Comes ending (x c)) :
    Comes (prepend piece ending) ((x >>= fun rest => pure (piece ++ rest)) c) := by
  generalize run : x c = result at comes
  cases comes with
  | ok data d same finished =>
    rw [bind_of_ok run, same]
    exact .ok (piece ++ data) d rfl finished
  | error e d same =>
    rw [bind_of_error run, same]
    exact .error e d rfl

inductive Reads (ending : Ending) (c : Connection σ) : EStateM.Result ReadError (Connection σ) Bytes → Prop
  | ended (d : Connection σ) (same : ending = (.ok [], d.unread)) (finished : d.body = .empty) :
      Reads ending c (.ok [] d)
  | piece (piece : Bytes) (d : Connection σ) (fuel : Nat) (found : piece ≠ [])
      (started : d.body ≠ .fixed 0) (shrinks : d.unread.length < c.unread.length)
      (enough : d.unread.length < fuel)
      (same : ending = prepend piece (bodyEnd fuel d.body d.unread)) :
      Reads ending c (.ok piece d)
  | failed (e : ReadError) (d : Connection σ) (same : ending = (.error e, d.unread)) :
      Reads ending c (.error e d)

theorem readBody_opened {maxLen n : Nat} {c d : Connection σ} (opened : openBlock c = .ok (some n) d) :
    readBody maxLen c = (directRead (min maxLen n) >>= fun bytes =>
      if bytes = [] then throw .readerClosed
      else advanceBody bytes.length n >>= fun _ => pure bytes) d :=
  bind_of_ok opened

theorem openBlock_fixed {c : Connection σ} {n : Nat} (state : c.body = .fixed n) :
    openBlock c = .ok (some n) c := by
  simp only [openBlock, bind_ok, get_ok]
  exact ⟨c, c, ⟨rfl, rfl⟩, by simp [state]⟩

theorem openBlock_inside {c : Connection σ} {n : Nat} (state : c.body = .chunked n) (inside : 0 < n) :
    openBlock c = .ok (some n) c := by
  obtain ⟨m, rfl⟩ := Nat.exists_eq_add_one_of_ne_zero (show n ≠ 0 by omega)
  simp only [openBlock, bind_ok, get_ok]
  exact ⟨c, c, ⟨rfl, rfl⟩, by simp [state]⟩

theorem directRead_inside {maxLen n : Nat} (c : Connection σ) (positive : 0 < maxLen)
    (inside : 0 < n) :
    ∃ piece d, directRead (min maxLen n) c = .ok piece d ∧ c.unread = piece ++ d.unread ∧
      d.body = c.body ∧ piece.length ≤ n ∧ (piece = [] → c.unread = []) := by
  obtain ⟨piece, d, read, consumed, bound, progress⟩ := directRead_spec (min maxLen n) c
  refine ⟨piece, d, read, consumed.unread, consumed.body, by omega, fun none => ?_⟩
  by_contra more
  exact progress (by omega) more none

theorem readBody_fixed {maxLen n fuel : Nat} {c : Connection σ} (positive : 0 < maxLen)
    (state : c.body = .fixed n) (started : 0 < n) (enough : c.unread.length < fuel) :
    Reads (bodyEnd fuel (.fixed n) c.unread) c (readBody maxLen c) := by
  obtain ⟨piece, d, read, whole, body, bound, ended⟩ := directRead_inside c positive started
  rw [readBody_opened (openBlock_fixed state), bind_of_ok read]
  by_cases none : piece = []
  · rw [if_pos none]
    refine .failed _ d ?_
    have nothing := ended none
    rw [nothing] at whole ⊢
    rw [(List.append_eq_nil_iff.mp whole.symm).2]
    simp [bodyEnd, started]
  · rw [if_neg none, bind_of_ok (advanceBody_fixed (body.trans state))]
    have some := List.length_pos_iff.mpr none
    have length := congrArg List.length whole
    rw [List.length_append] at length
    by_cases last : piece.length = n
    · rw [if_pos last]
      refine .piece piece _ fuel none (by simp) ?_ ?_ ?_
      · rw [Connection.unread_setBody]
        omega
      · rw [Connection.unread_setBody]
        omega
      · rw [Connection.unread_setBody, whole, ← last]
        have split := bodyEnd_fixed fuel 0 piece d.unread
        rw [Nat.add_zero] at split
        rw [split]
        simp [bodyEnd]
    · rw [if_neg last]
      refine .piece piece _ fuel none ?_ ?_ ?_ ?_
      · intro zero
        have := Body.fixed.inj zero
        omega
      · rw [Connection.unread_setBody]
        omega
      · rw [Connection.unread_setBody]
        omega
      · obtain ⟨m, rfl⟩ := Nat.exists_eq_add_of_le bound
        rw [Connection.unread_setBody, whole, Nat.add_sub_cancel_left]
        exact bodyEnd_fixed fuel m piece d.unread

theorem Reads.of_less {ending : Ending} {c d : Connection σ}
    {result : EStateM.Result ReadError (Connection σ) Bytes} (reads : Reads ending d result)
    (less : d.unread.length < c.unread.length) : Reads ending c result := by
  cases reads with
  | ended e same finished => exact .ended e same finished
  | piece piece e fuel found started shrinks enough same =>
    exact .piece piece e fuel found started (by omega) enough same
  | failed error e same => exact .failed error e same

theorem advanceBody_last {n : Nat} {c : Connection σ} (body : c.body = .chunked n) :
    advanceBody n n c = (expectCrlf >>= fun _ => setBody (.chunked 0)) c := by
  unfold advanceBody
  rw [bind_of_ok (show (get : ReadM σ (Connection σ)) c = .ok c c from rfl), body]
  simp only [if_true, Nat.sub_self]

theorem takeBlock_chunked {maxLen n fuel : Nat} {c : Connection σ} (positive : 0 < maxLen)
    (state : c.body = .chunked n) (inside : 0 < n) (enough : c.unread.length < fuel + 1) :
    Reads (bodyEnd (fuel + 1) (.chunked n) c.unread) c ((directRead (min maxLen n) >>= fun bytes =>
      if bytes = [] then throw .readerClosed
      else advanceBody bytes.length n >>= fun _ => pure bytes) c) := by
  obtain ⟨piece, d, read, whole, body, bound, ended⟩ := directRead_inside c positive inside
  rw [bind_of_ok read, bodyEnd_chunked fuel c.unread inside]
  by_cases none : piece = []
  · rw [if_pos none]
    refine .failed _ d ?_
    have nothing := ended none
    rw [nothing] at whole ⊢
    rw [(List.append_eq_nil_iff.mp whole.symm).2]
    simp [blockEnd]
  · have some := List.length_pos_iff.mpr none
    have length := congrArg List.length whole
    rw [List.length_append] at length
    rw [if_neg none]
    by_cases last : piece.length = n
    · -- The chunk is used up, and its line end is taken with it.
      subst last
      have split := blockEnd_append piece d.unread 0 (bodyEnd fuel (.chunked 0))
      rw [Nat.add_zero] at split
      rw [whole, split]
      have advanced := advanceBody_last (body.trans state)
      rcases expectCrlf_cases d with ⟨short, e, run, left⟩ | ⟨long, e, unread, same, run⟩
      · rw [bind_of_error run] at advanced
        rw [bind_of_error advanced]
        refine .failed _ e ?_
        rw [blockEnd, if_pos (by omega), left]
        rfl
      · rw [blockEnd, if_neg (by omega), List.drop_zero]
        by_cases closed : d.unread.take 2 = crlf
        · rw [if_pos closed] at run
          rw [bind_of_ok run] at advanced
          have advanced : advanceBody piece.length piece.length d =
            .ok () { e with body := .chunked 0 } := advanced
          have rest := congrArg List.length unread
          rw [List.length_drop] at rest
          rw [bind_of_ok advanced, if_pos closed, List.take_zero, prepend_nil, ← unread]
          refine .piece piece _ fuel none (by simp) ?_ ?_ rfl
          · rw [Connection.unread_setBody]
            omega
          · rw [Connection.unread_setBody]
            omega
        · rw [if_neg closed] at run
          rw [bind_of_error run] at advanced
          rw [bind_of_error advanced]
          refine .failed _ e ?_
          rw [if_neg closed, unread]
          rfl
    · rw [bind_of_ok (advanceBody_inside (body.trans state) last)]
      obtain ⟨m, rfl⟩ := Nat.exists_eq_add_of_le bound
      rw [Nat.add_sub_cancel_left, whole, blockEnd_append]
      refine .piece piece _ (fuel + 1) none (by simp) ?_ ?_ ?_
      · rw [Connection.unread_setBody]
        omega
      · rw [Connection.unread_setBody]
        omega
      · rw [Connection.unread_setBody]
        exact congrArg (prepend piece) (bodyEnd_chunked fuel d.unread (by omega)).symm

theorem readBody_reads {maxLen fuel : Nat} {c : Connection σ} (positive : 0 < maxLen)
    (started : c.body ≠ .fixed 0) (enough : c.unread.length < fuel) :
    Reads (bodyEnd fuel c.body c.unread) c (readBody maxLen c) := by
  obtain ⟨fuel, rfl⟩ := Nat.exists_eq_add_one_of_ne_zero (show fuel ≠ 0 by omega)
  rcases state : c.body with _ | n | (_ | n)
  · have opened : openBlock c = .ok none c := by
      simp only [openBlock, bind_ok, get_ok]
      exact ⟨c, c, ⟨rfl, rfl⟩, by simp [state]⟩
    unfold readBody
    rw [bind_of_ok opened]
    exact .ended c rfl state
  · refine readBody_fixed positive state ?_ enough
    exact Nat.pos_of_ne_zero fun zero => started (zero ▸ state)
  · -- A new chunk: its size line is read alike from the bare bytes.
    have agree : Agree c (⟨c.unread, [], .chunked 0⟩ : Connection Bytes) :=
      ⟨rfl, state, started⟩
    have alike := openBlock_agreeing c _ agree
    generalize opened : openBlock c = result at alike
    generalize bare : openBlock (⟨c.unread, [], .chunked 0⟩ : Connection Bytes) = third at alike
    cases alike with
    | ok block d e after =>
      cases block with
      | none =>
        unfold readBody
        rw [bind_of_ok opened]
        simp only [bodyEnd, bare]
        refine .ended d (by rw [after.unread]) ?_
        rcases openBlock_ok opened with ⟨-, ⟨none, -⟩ | ⟨-, finished⟩⟩ | ⟨m, same, -⟩
        · exact absurd (none.symm.trans state) (by simp)
        · exact finished
        · cases same
      | some n =>
        obtain ⟨inside, body, less⟩ := openBlock_fresh state opened
        rw [readBody_opened opened]
        simp only [bodyEnd, bare]
        rw [← after.unread, ← bodyEnd_chunked fuel d.unread inside]
        exact (takeBlock_chunked positive body inside (by omega)).of_less less
    | error e d d' after =>
      unfold readBody
      rw [bind_of_error opened]
      simp only [bodyEnd, bare]
      exact .failed e d (by rw [show d.unread = d'.unread from after])
  · rw [readBody_opened (openBlock_inside state (Nat.succ_pos n))]
    exact takeBlock_chunked positive state (Nat.succ_pos n) enough

theorem readBodies_comes {sizes : Nat → Nat} {fuel enough : Nat} (i : Nat) {c : Connection σ}
    (positive : ∀ i, 0 < sizes i) (started : c.body ≠ .fixed 0) (rounds : c.unread.length < fuel)
    (blocks : c.unread.length < enough) :
    Comes (bodyEnd enough c.body c.unread) (readBodies sizes fuel i c) := by
  induction fuel generalizing enough i c with
  | zero => omega
  | succ fuel ih =>
    unfold readBodies
    generalize run : readBody (sizes i) c = result
    have reads := readBody_reads (positive i) started blocks
    rw [run] at reads
    cases reads with
    | ended d same finished =>
      rw [bind_of_ok run, same]
      exact .ok [] d rfl finished
    | piece piece d more found started shrinks later same =>
      rw [bind_of_ok run, if_neg found, same]
      exact (ih (i + 1) started (by omega) later).prepend piece
    | failed e d same =>
      rw [bind_of_error run]
      exact .error e d same

theorem Comes.agreeing {ending : Ending} {r : EStateM.Result ReadError (Connection σ) Bytes}
    {r' : EStateM.Result ReadError (Connection τ) Bytes} (left : Comes ending r)
    (right : Comes ending r') : Match Agree SameRest r r' := by
  cases left with
  | ok data d same finished =>
    cases right with
    | ok data' d' same' finished' =>
      obtain ⟨result, rest⟩ := Prod.mk.inj (same.symm.trans same')
      obtain rfl := Except.ok.inj result
      exact .ok data d d' ⟨rest, finished.trans finished'.symm, by simp [finished]⟩
    | error e d' same' => cases (Prod.mk.inj (same.symm.trans same')).1
  | error e d same =>
    cases right with
    | ok data d' same' finished => cases (Prod.mk.inj (same.symm.trans same')).1
    | error e' d' same' =>
      obtain ⟨result, rest⟩ := Prod.mk.inj (same.symm.trans same')
      obtain rfl := Except.error.inj result
      exact .error e d d' rest

-- What a full read yields does not depend on the pieces in which it comes.
theorem fullBody_agreeing {sizes sizes' : Nat → Nat} (positive : ∀ i, 0 < sizes i)
    (positive' : ∀ i, 0 < sizes' i) :
    Agreeing (fullBody sizes : ReadM σ Bytes) (fullBody sizes' : ReadM τ Bytes) := by
  intro c d agree
  have rounds := Nat.lt_succ_self c.unread.length
  have left := readBodies_comes 0 positive agree.started rounds rounds
  rw [agree.unread, agree.body] at left
  rw [agree.unread] at rounds
  have right := readBodies_comes 0 positive' (agree.body ▸ agree.started) rounds rounds
  unfold fullBody
  rw [agree.unread]
  exact left.agreeing right

theorem drainLoop_eq (fuel i : Nat) :
    (drainLoop fuel : ReadM σ Unit) = (fun _ => ()) <$> readBodies (fun _ => 8192) fuel i := by
  induction fuel generalizing i with
  | zero => rfl
  | succ fuel ih =>
    simp only [drainLoop, readBodies, ih (i + 1), map_bind, bind_pure_comp]
    refine bind_congr fun piece => ?_
    by_cases ended : piece = []
    · simp only [if_pos ended]
      rfl
    · simp only [if_neg ended, Functor.map_map]

theorem drain_eq : (drain : ReadM σ Unit) = (fun _ => ()) <$> fullBody fun _ => 8192 := by
  funext c
  unfold drain
  rw [drainLoop_eq _ 0]
  rfl

theorem drain_agreeing : Agreeing (drain : ReadM σ Unit) (drain : ReadM τ Unit) := by
  have positive : ∀ _ : Nat, 0 < 8192 := fun _ => by omega
  rw [drain_eq, drain_eq]
  exact (fullBody_agreeing positive positive).map _

/-- What a caller may ask of a connection; `line` takes its limit from the caller. -/
inductive Operation where
  | readRequest
  | line (limit : Int)
  | headers
  | fullBody (sizes : Nat → {n : Nat // 0 < n})
  | drain

inductive Yield where
  | head (head : Head)
  | line (text : Str)
  | headers (found : Headers)
  | body (data : Bytes)
  | drained
  deriving DecidableEq

def Operation.perform : Operation → ReadM σ Yield
  | .readRequest => .head <$> Framing.readRequest
  | .line limit => if limit < 0 then throw .limit else .line <$> Framing.line limit.toNat
  | .headers => .headers <$> Framing.headers
  | .fullBody sizes => .body <$> Framing.fullBody fun i => (sizes i).val
  | .drain => (fun _ => .drained) <$> Framing.drain

structure Transcript where
  yields : List Yield
  failure : Option ReadError
  rest : Bytes
  deriving DecidableEq

def transcript : List Operation → Connection σ → Transcript
  | [], c => ⟨[], none, c.unread⟩
  | operation :: later, c =>
      match operation.perform c with
      | .ok yield d =>
          let more := transcript later d
          { more with yields := yield :: more.yields }
      | .error e d => ⟨[], some e, d.unread⟩

theorem perform_agreeing (operation : Operation) :
    Agreeing (operation.perform : ReadM σ Yield) (operation.perform : ReadM τ Yield) := by
  cases operation with
  | readRequest => exact readRequest_agreeing.map _
  | line limit => exact Alike.ite (throw_agreeing _) ((line_agreeing _).map _)
  | headers => exact headers_agreeing.map _
  | fullBody sizes =>
    exact (fullBody_agreeing (fun i => (sizes i).property) (fun i => (sizes i).property)).map _
  | drain => exact drain_agreeing.map _

theorem transcript_agreeing {operations : List Operation} {c : Connection σ} {d : Connection τ}
    (agree : Agree c d) : transcript operations c = transcript operations d := by
  induction operations generalizing c d with
  | nil => simp only [transcript, agree.unread]
  | cons operation later ih =>
    have alike := perform_agreeing operation c d agree
    simp only [transcript]
    generalize operation.perform c = result at alike ⊢
    generalize operation.perform d = result' at alike ⊢
    cases alike with
    | ok yield c' d' after => simp only [ih after]
    | error e c' d' after => simp only [show c'.unread = d'.unread from after]

/-- Two transports of one byte stream give the same transcript of any operations. -/
theorem transcript_independent (source : σ) (other : τ)
    (same : Reader.unread source = Reader.unread other) (operations : List Operation) :
    transcript operations (Connection.new source) = transcript operations (Connection.new other) :=
  transcript_agreeing ⟨same, rfl, by simp [Connection.new]⟩

end

structure Drip where
  bytes : Bytes

theorem drip_length (bytes : Bytes) (n : Nat) : (bytes.take (min n 1)).length ≤ n := by
  rw [List.length_take]
  omega

theorem drip_progress (bytes : Bytes) (n : Nat) (positive : 0 < n) (more : bytes ≠ []) :
    bytes.take (min n 1) ≠ [] := by
  simp only [ne_eq, List.take_eq_nil_iff, not_or]
  exact ⟨by omega, more⟩

instance : Reader Drip where
  read source n := (source.bytes.take (min n 1), ⟨source.bytes.drop (min n 1)⟩)
  unread := Drip.bytes
  read_append source _ := List.take_append_drop _ source.bytes
  read_length source n := drip_length source.bytes n
  read_progress source n positive more := drip_progress source.bytes n positive more

def pipelined : Bytes :=
  encode (str "POST /a HTTP/1.1\r\nTransfer-Encoding: chunked\r\n\r\n3\r\nabc\r\n0\r\n\r\nGET")

def pipelineReads : List Operation :=
  [.readRequest, .fullBody (fun _ => ⟨2, by omega⟩), .readRequest]

example : (transcript pipelineReads (Connection.new pipelined)).failure = some .readerClosed := by
  decide +kernel

theorem transcript_independent_drip :
    transcript pipelineReads (Connection.new pipelined) =
      transcript pipelineReads (Connection.new (Drip.mk pipelined)) :=
  transcript_independent pipelined (Drip.mk pipelined) rfl pipelineReads

end HttpServer.Framing
