import HttpServer.Framing.Head

set_option autoImplicit false

namespace HttpServer.Framing

open Unicode Text StateRun

/-- A size line: hexadecimal digits, and an extension that follows without white space. -/
structure SizeLine (size extension : Str) (n : Nat) : Prop where
  exact : Numerals.nat? 16 size = some n
  bound : n ≤ 2147483647
  tail : extension = [] ∨ ∃ more, extension = unit ';' :: more
  text : LineText (size ++ extension)
  short : (encode (size ++ extension)).length ≤ 8192

structure Chunk where
  size : Str
  extension : Str
  data : Bytes

structure Chunk.Valid (chunk : Chunk) : Prop where
  line : SizeLine chunk.size chunk.extension chunk.data.length
  more : chunk.data ≠ []

structure LastChunk where
  size : Str
  extension : Str
  trailers : List Field

structure LastChunk.Valid (last : LastChunk) : Prop where
  line : SizeLine last.size last.extension 0
  trailers : FieldLines last.trailers
  unambiguous : Unambiguous last.trailers
  allowed : ∀ f ∈ last.trailers, trailerKey f.key = false

def Chunk.encode (chunk : Chunk) : Bytes :=
  encodeLine (chunk.size ++ chunk.extension) ++ (chunk.data ++ crlf)

def LastChunk.encode (last : LastChunk) : Bytes :=
  encodeLine (last.size ++ last.extension) ++ encodeFields last.trailers

def encodeChunks (chunks : List Chunk) (last : LastChunk) : Bytes :=
  chunks.flatMap Chunk.encode ++ last.encode

def chunkData (chunks : List Chunk) : Bytes := chunks.flatMap Chunk.data

theorem digit_hex {u : UInt16} (digit : (Numerals.digit? 16 u).isSome) :
    nonHex u.toNat = false ∧ u ≠ unit ';' := by
  have range := Numerals.digit?_range digit
  constructor
  · unfold Numerals.digit? at digit
    simp only [nonHex]
    grind
  · rintro rfl
    exact absurd range (by decide)

theorem nat?_digits {base n : Nat} {s : Str} (exact : Numerals.nat? base s = some n) :
    s ≠ [] ∧ ∀ u ∈ s, (Numerals.digit? base u).isSome := by
  unfold Numerals.nat? at exact
  split_ifs at exact with empty
  exact ⟨empty, Numerals.digits?_mem exact⟩

theorem anyChar_nonHex {s : Str} (digits : ∀ u ∈ s, (Numerals.digit? 16 u).isSome) :
    anyChar s nonHex = false := by
  have high : ∀ n, 0xD800 ≤ n → nonHex n = true := by
    intro n bound
    simp only [nonHex]
    grind
  rw [anyChar_eq s nonHex true high, List.any_eq_false]
  intro u member
  simp [(digit_hex (digits u member)).1]

theorem chunkSize_complete {size extension : Str} {n : Nat} (line : SizeLine size extension n) :
    chunkSize (size ++ extension) = some n := by
  obtain ⟨nonempty, digits⟩ := nat?_digits line.exact
  have clean : unit ';' ∉ size := fun member => (digit_hex (digits _ member)).2 rfl
  have first : (split (size ++ extension) (unit ';')).head (List.splitOn_ne_nil _ _) = size := by
    rcases line.tail with rfl | ⟨more, rfl⟩
    · simp [split, List.splitOn_eq_singleton clean]
    · simp [split, List.splitOn_append_cons_self_of_not_mem clean]
  simp only [chunkSize, first, anyChar_nonHex digits]
  rw [parseInt_eq_some.mpr ⟨line.exact, line.bound⟩]
  simp [nonempty]

theorem chunkSize_bound {text : Str} {n : Nat} (found : chunkSize text = some n) :
    n ≤ 2147483647 := by
  simp only [chunkSize] at found
  split_ifs at found
  exact (parseInt_eq_some.mp found).2

theorem encodeChunks_cons (chunk : Chunk) (chunks : List Chunk) (last : LastChunk) :
    encodeChunks (chunk :: chunks) last = chunk.encode ++ encodeChunks chunks last := by
  simp [encodeChunks]

/-- In body state `body`, the unread bytes hold the data that is still to come and then what
follows the message. -/
inductive Remains : Body → Bytes → Bytes → Bytes → Prop
  | ended (rest : Bytes) : Remains .empty rest [] rest
  | fixed (data rest : Bytes) (more : data ≠ []) :
      Remains (.fixed data.length) (data ++ rest) data rest
  | chunks (chunks : List Chunk) (last : LastChunk) (rest : Bytes)
      (valid : ∀ chunk ∈ chunks, chunk.Valid) (lastValid : last.Valid) :
      Remains (.chunked 0) (encodeChunks chunks last ++ rest) (chunkData chunks) rest
  | inside (front : Bytes) (chunks : List Chunk) (last : LastChunk) (rest : Bytes)
      (more : front ≠ []) (valid : ∀ chunk ∈ chunks, chunk.Valid) (lastValid : last.Valid) :
      Remains (.chunked front.length) (front ++ (crlf ++ (encodeChunks chunks last ++ rest)))
        (front ++ chunkData chunks) rest

theorem chunkData_length (chunks : List Chunk) (last : LastChunk) :
    (chunkData chunks).length ≤ (encodeChunks chunks last).length := by
  induction chunks with
  | nil => simp [chunkData]
  | cons chunk chunks ih =>
    rw [encodeChunks_cons]
    simp only [chunkData, List.flatMap_cons, List.length_append, Chunk.encode] at ih ⊢
    omega

theorem Remains.length_le {body : Body} {unread left rest : Bytes}
    (remains : Remains body unread left rest) : left.length ≤ unread.length := by
  cases remains with
  | ended => simp
  | fixed => simp
  | chunks chunks last =>
    have := chunkData_length chunks last
    rw [List.length_append]
    omega
  | inside front chunks last =>
    have := chunkData_length chunks last
    simp only [List.length_append]
    omega

theorem Remains.ended_iff {unread left rest : Bytes} :
    Remains .empty unread left rest ↔ unread = rest ∧ left = [] := by
  constructor
  · intro remains
    cases remains
    exact ⟨rfl, rfl⟩
  · rintro ⟨rfl, rfl⟩
    exact .ended _

section

variable {σ : Type} [Reader σ]

theorem directRead_block {maxLen : Nat} {front more : Bytes} {c : Connection σ}
    (positive : 0 < maxLen) (nonempty : front ≠ []) (unread : c.unread = front ++ more) :
    ∃ piece after d, directRead (min maxLen front.length) c = .ok piece d ∧ piece ≠ [] ∧
      front = piece ++ after ∧ d.unread = after ++ more ∧ d.body = c.body ∧
      piece.length ≤ maxLen := by
  have open_ := List.length_pos_iff.mpr nonempty
  obtain ⟨piece, d, read, consumed, bound, progress⟩ :=
    directRead_spec (min maxLen front.length) c
  have found : piece ≠ [] := progress (by omega) (by simp [unread, nonempty])
  have whole := consumed.unread.symm.trans unread
  obtain ⟨after, rfl⟩ : piece <+: front :=
    List.prefix_of_prefix_length_le ⟨_, whole⟩ ⟨_, rfl⟩ (by omega)
  rw [List.append_assoc] at whole
  exact ⟨piece, after, d, read, found, rfl, List.append_cancel_left whole, consumed.body,
    by omega⟩

theorem advanceBody_fixed {n remaining : Nat} {c : Connection σ} (body : c.body = .fixed remaining) :
    advanceBody n remaining c =
      .ok () { c with body := if n = remaining then .empty else .fixed (remaining - n) } := by
  rw [← value?_eq_some]
  simp only [advanceBody, value?_eq_some, bind_ok, get_ok]
  exact ⟨c, c, ⟨rfl, rfl⟩, by rw [body]; rfl⟩

theorem advanceBody_inside {n remaining : Nat} {c : Connection σ}
    (body : c.body = .chunked remaining) (part : n ≠ remaining) :
    advanceBody n remaining c = .ok () { c with body := .chunked (remaining - n) } := by
  simp only [advanceBody, bind_ok, get_ok]
  refine ⟨c, c, ⟨rfl, rfl⟩, ?_⟩
  rw [body]
  simp only [part, if_false]
  rfl

theorem expectCrlf_run {c : Connection σ} {rest : Bytes} (unread : c.unread = crlf ++ rest) :
    ∃ c', expectCrlf c = .ok () c' ∧ c'.unread = rest ∧ c'.body = c.body := by
  obtain ⟨bytes, d, run⟩ := readExactly_run 2 (n := 2) (c := c) (by omega)
    (by simp [unread, crlf])
  obtain ⟨consumed, length⟩ := readExactly_ok run
  have whole := consumed.unread.symm.trans unread
  obtain ⟨rfl, left⟩ := List.append_inj whole (by simp [length, crlf])
  refine ⟨d, ?_, left, consumed.body⟩
  simp only [expectCrlf, bind_ok, ite_ok, throw_ok, pure_ok, and_false, false_or]
  exact ⟨crlf, d, run, by simp [crlf]⟩

theorem advanceBody_end {remaining : Nat} {c : Connection σ} {rest : Bytes}
    (body : c.body = .chunked remaining) (unread : c.unread = crlf ++ rest) :
    ∃ c', advanceBody remaining remaining c = .ok () c' ∧ c'.unread = rest ∧
      c'.body = .chunked 0 := by
  obtain ⟨d, run, left, -⟩ := expectCrlf_run unread
  refine ⟨{ d with body := .chunked 0 }, ?_, left, rfl⟩
  simp only [advanceBody, bind_ok, get_ok]
  refine ⟨c, c, ⟨rfl, rfl⟩, ?_⟩
  rw [body]
  simp only [if_true, bind_ok]
  exact ⟨(), d, run, by simp [setBody]⟩

theorem openBlock_chunk {chunk : Chunk} {rest : Bytes} {c : Connection σ} (valid : chunk.Valid)
    (body : c.body = .chunked 0) (unread : c.unread = chunk.encode ++ rest) :
    ∃ c', openBlock c = .ok (some chunk.data.length) c' ∧
      c'.unread = chunk.data ++ (crlf ++ rest) ∧ c'.body = .chunked chunk.data.length := by
  rw [Chunk.encode, List.append_assoc] at unread
  obtain ⟨d, read, left, -⟩ := line_run _ unread valid.line.text valid.line.short
  obtain ⟨n, size⟩ := Nat.exists_eq_add_one_of_ne_zero
    (fun none => valid.more (List.length_eq_zero_iff.mp none))
  refine ⟨{ d with body := .chunked chunk.data.length }, ?_, by simpa using left, rfl⟩
  simp only [openBlock, bind_ok, get_ok]
  refine ⟨c, c, ⟨rfl, rfl⟩, ?_⟩
  simp only [body, bind_ok]
  refine ⟨_, d, read, ?_⟩
  rw [chunkSize_complete valid.line, size]
  simp [setBody]

theorem openBlock_last {last : LastChunk} {rest : Bytes} {c : Connection σ} (valid : last.Valid)
    (body : c.body = .chunked 0) (unread : c.unread = last.encode ++ rest) :
    ∃ c', openBlock c = .ok none c' ∧ c'.unread = rest ∧ c'.body = .empty := by
  rw [LastChunk.encode, List.append_assoc] at unread
  obtain ⟨d, read, unread, -⟩ := line_run _ unread valid.line.text valid.line.short
  obtain ⟨trailers, e, readTrailers, collected, left, -⟩ :=
    headers_run unread valid.trailers valid.unambiguous
  refine ⟨{ e with body := .empty }, ?_, left, rfl⟩
  have allowed : trailers.keys.any trailerKey = false := by
    rw [List.any_eq_false]
    intro key member
    rw [collected.keys, List.mem_eraseDups, List.mem_map] at member
    obtain ⟨f, member, rfl⟩ := member
    simp [valid.allowed f member]
  simp only [openBlock, bind_ok, get_ok]
  refine ⟨c, c, ⟨rfl, rfl⟩, ?_⟩
  simp only [body, bind_ok]
  refine ⟨_, d, read, ?_⟩
  rw [chunkSize_complete valid.line]
  simp only [bind_ok]
  refine ⟨trailers, e, readTrailers, ?_⟩
  simp [allowed, setBody]

theorem readBody_open {maxLen remaining : Nat} {c d e c' : Connection σ} {piece : Bytes}
    (opened : openBlock c = .ok (some remaining) d)
    (read : directRead (min maxLen remaining) d = .ok piece e) (found : piece ≠ [])
    (advanced : advanceBody piece.length remaining e = .ok () c') :
    readBody maxLen c = .ok piece c' := by
  simp only [readBody, bind_ok]
  refine ⟨some remaining, d, opened, ?_⟩
  simp only [bind_ok, ite_ok, throw_ok, pure_ok, and_false, false_or]
  exact ⟨piece, e, read, found, (), c', advanced, rfl, rfl⟩

theorem readBody_inside {maxLen : Nat} {c d : Connection σ} {front rest : Bytes}
    {chunks : List Chunk} {last : LastChunk} (positive : 0 < maxLen) (more : front ≠ [])
    (valid : ∀ chunk ∈ chunks, chunk.Valid) (lastValid : last.Valid)
    (opened : openBlock c = .ok (some front.length) d)
    (unread : d.unread = front ++ (crlf ++ (encodeChunks chunks last ++ rest)))
    (body : d.body = .chunked front.length) :
    ∃ piece after c', readBody maxLen c = .ok piece c' ∧
      front ++ chunkData chunks = piece ++ after ∧ Remains c'.body c'.unread after rest ∧
      piece.length ≤ maxLen ∧ piece ≠ [] := by
  obtain ⟨piece, after, e, read, found, whole, unread, same, bound⟩ :=
    directRead_block positive more unread
  have length := congrArg List.length whole
  rw [List.length_append] at length
  by_cases finished : after = []
  · -- The block is used up, so its CRLF is taken with it.
    subst finished
    rw [List.append_nil] at whole
    subst whole
    obtain ⟨c', advanced, unread, state⟩ := advanceBody_end (same.trans body) unread
    refine ⟨front, chunkData chunks, c', readBody_open opened read found advanced, rfl, ?_, bound,
      found⟩
    rw [state, unread]
    exact .chunks chunks last rest valid lastValid
  · have part : piece.length ≠ front.length := by
      have := List.length_pos_iff.mpr finished
      omega
    have advanced := advanceBody_inside (same.trans body) part
    refine ⟨piece, after ++ chunkData chunks, _, readBody_open opened read found advanced, ?_, ?_,
      bound, found⟩
    · rw [← List.append_assoc, ← whole]
    · have size : front.length - piece.length = after.length := by omega
      rw [Connection.unread_setBody, unread, size]
      exact .inside after chunks last rest finished valid lastValid

-- One call: it takes the next piece, and an empty piece only when nothing is left.
theorem readBody_run {c : Connection σ} {left rest : Bytes} (maxLen : Nat)
    (positive : 0 < maxLen) (remains : Remains c.body c.unread left rest) :
    ∃ piece after c', readBody maxLen c = .ok piece c' ∧ left = piece ++ after ∧
      Remains c'.body c'.unread after rest ∧ piece.length ≤ maxLen ∧
      (piece = [] → left = [] ∧ c'.body = .empty) := by
  generalize state : c.body = body at remains
  generalize input : c.unread = unread at remains
  cases remains with
  | ended =>
    refine ⟨[], [], c, ?_, rfl, by rw [state, input]; exact .ended _, by simp, by simp [state]⟩
    simp only [readBody, openBlock, bind_ok, get_ok]
    exact ⟨none, c, ⟨c, c, ⟨rfl, rfl⟩, by simp [state]⟩, by simp⟩
  | fixed data rest more =>
    have opened : openBlock c = .ok (some left.length) c := by
      simp only [openBlock, bind_ok, get_ok]
      exact ⟨c, c, ⟨rfl, rfl⟩, by simp [state]⟩
    obtain ⟨piece, after, d, read, found, whole, unread, body, bound⟩ :=
      directRead_block positive more input
    have advanced := advanceBody_fixed (n := piece.length) (body.trans state)
    refine ⟨piece, after, _, readBody_open opened read found advanced, whole, ?_, bound,
      fun none => absurd none found⟩
    rw [Connection.unread_setBody, unread]
    have length := congrArg List.length whole
    rw [List.length_append] at length
    by_cases finished : after = []
    · have all : piece.length = left.length := by simp [length, finished]
      simp only [finished, all, if_true]
      exact .ended rest
    · have part : piece.length ≠ left.length := by
        have := List.length_pos_iff.mpr finished
        omega
      have size : left.length - piece.length = after.length := by omega
      simp only [part, if_false, size]
      exact .fixed after rest finished
  | chunks chunks last rest valid lastValid =>
    cases chunks with
    | nil =>
      simp only [encodeChunks, List.flatMap_nil, List.nil_append] at input
      obtain ⟨d, opened, unread, body⟩ := openBlock_last lastValid state input
      refine ⟨[], [], d, ?_, rfl, by rw [body, unread]; exact .ended rest, by simp, by simp
        [body, chunkData]⟩
      simp only [readBody, bind_ok]
      exact ⟨none, d, opened, by simp⟩
    | cons chunk chunks =>
      simp only [List.mem_cons, forall_eq_or_imp] at valid
      obtain ⟨chunkValid, valid⟩ := valid
      rw [encodeChunks_cons, List.append_assoc] at input
      obtain ⟨d, opened, unread, body⟩ := openBlock_chunk chunkValid state input
      obtain ⟨piece, after, c', run, whole, remains, bound, found⟩ :=
        readBody_inside positive chunkValid.more valid lastValid opened unread body
      exact ⟨piece, after, c', run, by simpa [chunkData] using whole, remains, bound,
        fun none => absurd none found⟩
  | inside front chunks last rest more valid lastValid =>
    have opened : openBlock c = .ok (some front.length) c := by
      obtain ⟨n, size⟩ := Nat.exists_eq_add_one_of_ne_zero
        (fun none => more (List.length_eq_zero_iff.mp none))
      simp only [openBlock, bind_ok, get_ok]
      exact ⟨c, c, ⟨rfl, rfl⟩, by simp [state, size]⟩
    obtain ⟨piece, after, c', run, whole, remains, bound, found⟩ :=
      readBody_inside positive more valid lastValid opened input state
    exact ⟨piece, after, c', run, whole, remains, bound, fun none => absurd none found⟩

theorem drainLoop_run {fuel : Nat} {c : Connection σ} {left rest : Bytes}
    (enough : left.length < fuel) (remains : Remains c.body c.unread left rest) :
    ∃ c', drainLoop fuel c = .ok () c' ∧ c'.body = .empty ∧ c'.unread = rest := by
  induction fuel generalizing c left with
  | zero => omega
  | succ fuel ih =>
    obtain ⟨piece, after, d, run, whole, remains, -, finished⟩ :=
      readBody_run 8192 (by omega) remains
    simp only [drainLoop, bind_ok, ite_ok, pure_ok]
    by_cases none : piece = []
    · obtain ⟨-, body⟩ := finished none
      rw [body] at remains
      exact ⟨d, ⟨piece, d, run, Or.inl ⟨none, by simp⟩⟩, body, (Remains.ended_iff.mp remains).1⟩
    · have positive := List.length_pos_iff.mpr none
      rw [whole, List.length_append] at enough
      obtain ⟨c', more, facts⟩ := ih (by omega) remains
      exact ⟨c', ⟨piece, d, run, Or.inr ⟨none, more⟩⟩, facts⟩

theorem drain_run {c : Connection σ} {left rest : Bytes}
    (remains : Remains c.body c.unread left rest) :
    ∃ c', drain c = .ok () c' ∧ c'.body = .empty ∧ c'.unread = rest :=
  drainLoop_run (Nat.lt_succ_of_le remains.length_le) remains

def piecesLoop (maxLen : Nat) : Nat → ReadM σ (List Bytes)
  | 0 => throw .readerClosed
  | fuel + 1 => do
      let piece ← readBody maxLen
      if piece = [] then return [] else return piece :: (← piecesLoop maxLen fuel)

def wholeBody (maxLen : Nat) : ReadM σ Bytes := fun c =>
  (List.flatten <$> piecesLoop maxLen (c.unread.length + 1)) c

theorem piecesLoop_run {maxLen fuel : Nat} {c : Connection σ} {left rest : Bytes}
    (positive : 0 < maxLen) (enough : left.length < fuel)
    (remains : Remains c.body c.unread left rest) :
    ∃ pieces c', piecesLoop maxLen fuel c = .ok pieces c' ∧ pieces.flatten = left ∧
      c'.body = .empty ∧ c'.unread = rest := by
  induction fuel generalizing c left with
  | zero => omega
  | succ fuel ih =>
    obtain ⟨piece, after, d, run, whole, remains, -, finished⟩ := readBody_run maxLen positive remains
    simp only [piecesLoop, bind_ok, ite_ok, pure_ok]
    by_cases none : piece = []
    · obtain ⟨nothing, body⟩ := finished none
      rw [body] at remains
      exact ⟨[], d, ⟨piece, d, run, Or.inl ⟨none, by simp⟩⟩, nothing.symm, body,
        (Remains.ended_iff.mp remains).1⟩
    · have some := List.length_pos_iff.mpr none
      rw [whole, List.length_append] at enough
      obtain ⟨pieces, c', more, data, facts⟩ := ih (by omega) remains
      refine ⟨piece :: pieces, c', ⟨piece, d, run, Or.inr ⟨none, pieces, c', more, by simp⟩⟩, ?_,
        facts⟩
      rw [List.flatten_cons, data, whole]

theorem wholeBody_run {c : Connection σ} {left rest : Bytes} (maxLen : Nat)
    (positive : 0 < maxLen) (remains : Remains c.body c.unread left rest) :
    ∃ c', wholeBody maxLen c = .ok left c' ∧ c'.body = .empty ∧ c'.unread = rest := by
  obtain ⟨pieces, c', run, data, facts⟩ :=
    piecesLoop_run positive (Nat.lt_succ_of_le remains.length_le) remains
  exact ⟨c', (map_ok ..).mpr ⟨pieces, run, data⟩, facts⟩

inductive Advances : Body → Bytes → Body → Prop
  | ended : Advances .empty [] .empty
  | fixed (n : Nat) (piece : Bytes) (more : piece ≠ []) (part : piece.length ≤ n) :
      Advances (.fixed n) piece
        (if piece.length = n then .empty else .fixed (n - piece.length))
  | closed : Advances (.chunked 0) [] .empty
  | chunk (n m : Nat) (piece : Bytes) (more : piece ≠ []) (part : piece.length ≤ m)
      (block : m = n ∨ n = 0 ∧ m ≤ 2147483647) :
      Advances (.chunked n) piece (.chunked (m - piece.length))

theorem openBlock_ok {c d : Connection σ} {block : Option Nat}
    (run : openBlock c = .ok block d) :
    block = none ∧ (c.body = .empty ∧ d = c ∨ c.body = .chunked 0 ∧ d.body = .empty) ∨
      ∃ m, block = some m ∧ (c.body = .fixed m ∧ d = c ∨
        ∃ n, c.body = .chunked n ∧ d.body = .chunked m ∧ (m = n ∨ n = 0 ∧ m ≤ 2147483647)) := by
  simp only [openBlock, bind_ok, get_ok] at run
  obtain ⟨_, _, ⟨rfl, rfl⟩, run⟩ := run
  cases state : c.body with
  | empty =>
    simp only [state, pure_ok] at run
    exact Or.inl ⟨run.1.symm, Or.inl ⟨rfl, run.2.symm⟩⟩
  | fixed n =>
    simp only [state, pure_ok] at run
    exact Or.inr ⟨n, run.1.symm, Or.inl ⟨rfl, run.2.symm⟩⟩
  | chunked n =>
    cases n with
    | succ n =>
      simp only [state, pure_ok] at run
      obtain ⟨rfl, rfl⟩ := run
      exact Or.inr ⟨n + 1, rfl, Or.inr ⟨n + 1, rfl, state, Or.inl rfl⟩⟩
    | zero =>
      simp only [state, bind_ok] at run
      obtain ⟨text, e, -, run⟩ := run
      rcases size : chunkSize text with _ | _ | m
      · simp [size] at run
      · simp only [size, bind_ok, ite_ok, throw_ok, and_false, false_or, setBody, modify_ok,
          pure_ok] at run
        obtain ⟨trailers, f, -, -, _, g, rfl, rfl, rfl⟩ := run
        exact Or.inl ⟨rfl, Or.inr ⟨rfl, rfl⟩⟩
      · simp only [size, bind_ok, setBody, modify_ok, pure_ok] at run
        obtain ⟨_, g, rfl, rfl, rfl⟩ := run
        exact Or.inr ⟨m + 1, rfl, Or.inr ⟨0, rfl, rfl, Or.inr ⟨rfl, chunkSize_bound size⟩⟩⟩

theorem readBody_ok {maxLen : Nat} {c c' : Connection σ} {piece : Bytes}
    (run : readBody maxLen c = .ok piece c') : Advances c.body piece c'.body := by
  simp only [readBody, bind_ok] at run
  obtain ⟨block, d, opened, run⟩ := run
  rcases openBlock_ok opened with ⟨rfl, ended | ended⟩ | ⟨m, rfl, block⟩
  · simp only [pure_ok] at run
    obtain ⟨rfl, rfl⟩ := run
    rw [ended.2, ended.1]
    exact .ended
  · simp only [pure_ok] at run
    obtain ⟨rfl, rfl⟩ := run
    rw [ended.2, ended.1]
    exact .closed
  · simp only [bind_ok, ite_ok, throw_ok, pure_ok, and_false, false_or] at run
    obtain ⟨bytes, e, read, more, _, f, advanced, rfl, rfl⟩ := run
    obtain ⟨consumed, length, -⟩ := directRead_ok read
    have part : bytes.length ≤ m := by omega
    rcases block with ⟨state, rfl⟩ | ⟨n, state, inside, block⟩
    · have body := advanceBody_fixed (n := bytes.length) (consumed.body.trans state)
      rw [body] at advanced
      cases advanced
      rw [state]
      exact .fixed m bytes more part
    · have body := consumed.body.trans inside
      rw [state]
      have final : f.body = .chunked (m - bytes.length) := by
        by_cases all : bytes.length = m
        · simp only [advanceBody, bind_ok, get_ok] at advanced
          obtain ⟨_, _, ⟨rfl, rfl⟩, advanced⟩ := advanced
          simp only [body, all, if_true, bind_ok, setBody, modify_ok] at advanced
          obtain ⟨_, g, -, rfl⟩ := advanced
          simp [all]
        · rw [advanceBody_inside body all] at advanced
          cases advanced
          rfl
      rw [final]
      exact .chunk n m bytes more part block

def Body.Bounded : Body → Prop
  | .empty => True
  | .fixed n => n ≤ 2147483647
  | .chunked n => n ≤ 2147483647

theorem RawHead.Announces.bounded {raw : RawHead} {body : Body} (announces : raw.Announces body) :
    body.Bounded := by
  cases announces with
  | nothing => trivial
  | length value n only exact bound =>
    split_ifs
    · trivial
    · exact bound
  | chunked => exact Nat.zero_le _

theorem Advances.bounded {before after : Body} {piece : Bytes} (advances : Advances before piece after)
    (bounded : before.Bounded) : piece.length ≤ 2147483647 ∧ after.Bounded := by
  cases advances with
  | ended => simp [Body.Bounded]
  | fixed n piece more part =>
    simp only [Body.Bounded] at bounded
    refine ⟨by omega, ?_⟩
    split_ifs
    · trivial
    · exact Nat.le_trans (Nat.sub_le n piece.length) bounded
  | closed => simp [Body.Bounded]
  | chunk n m piece more part block =>
    simp only [Body.Bounded] at bounded ⊢
    omega

theorem Advances.nil {before after : Body} (advances : Advances before [] after) :
    after = .empty := by
  cases advances with
  | ended => rfl
  | fixed n piece more => exact absurd rfl more
  | closed => rfl
  | chunk n m piece more => exact absurd rfl more

theorem piecesLoop_ok {maxLen fuel : Nat} {c c' : Connection σ} {pieces : List Bytes}
    (bounded : c.body.Bounded) (run : piecesLoop maxLen fuel c = .ok pieces c') :
    c'.body = .empty ∧ (∀ piece ∈ pieces, piece ≠ [] ∧ piece.length ≤ 2147483647) ∧
      (c.body = .empty → pieces = []) ∧ ∀ n, c.body = .fixed n → pieces.flatten.length = n := by
  induction fuel generalizing c pieces with
  | zero => simp [piecesLoop] at run
  | succ fuel ih =>
    simp only [piecesLoop, bind_ok, ite_ok, pure_ok] at run
    obtain ⟨piece, d, read, ⟨rfl, rfl, rfl⟩ | ⟨more, rest, e, run, rfl, rfl⟩⟩ := run
    · have advances := readBody_ok read
      refine ⟨advances.nil, by simp, by simp, ?_⟩
      intro n state
      rw [state, advances.nil] at advances
      generalize Body.empty = after at advances
      cases advances with
      | fixed n piece more => exact absurd rfl more
    · have advances := readBody_ok read
      obtain ⟨short, boundedAfter⟩ := advances.bounded bounded
      obtain ⟨ended, all, none, total⟩ := ih boundedAfter run
      refine ⟨ended, ?_, ?_, ?_⟩
      · simp only [List.mem_cons, forall_eq_or_imp]
        exact ⟨⟨more, short⟩, all⟩
      · intro state
        rw [state] at advances
        generalize d.body = after at advances
        cases advances
        exact absurd rfl more
      · intro n state
        rw [state] at advances
        generalize after : d.body = body at advances
        cases advances with
        | fixed n piece more part =>
          rw [List.flatten_cons, List.length_append]
          by_cases last : piece.length = n
          · rw [if_pos last] at after
            simp [none after, last]
          · rw [if_neg last] at after
            rw [total _ after]
            omega

end

end HttpServer.Framing
