import HttpServer.Framing.Connection
import HttpServer.Library.StateRun

set_option autoImplicit false

namespace HttpServer.Framing

open Unicode StateRun

variable {σ : Type} [Reader σ]

/-- `c'` is `c` with `front` read off, in the same body state. -/
structure Consumed (c : Connection σ) (front : Bytes) (c' : Connection σ) : Prop where
  unread : c.unread = front ++ c'.unread
  body : c'.body = c.body

theorem Consumed.refl (c : Connection σ) : Consumed c [] c := ⟨rfl, rfl⟩

theorem Consumed.trans {c d e : Connection σ} {front next : Bytes}
    (first : Consumed c front d) (second : Consumed d next e) : Consumed c (front ++ next) e where
  unread := by rw [first.unread, second.unread, List.append_assoc]
  body := second.body.trans first.body

theorem Consumed.unread_eq {c d : Connection σ} {front rest : Bytes}
    (consumed : Consumed c front d) (unread : c.unread = front ++ rest) : d.unread = rest :=
  List.append_cancel_left (consumed.unread.symm.trans unread)

theorem directRead_spec (n : Nat) (c : Connection σ) :
    ∃ bytes c', directRead n c = .ok bytes c' ∧ Consumed c bytes c' ∧ bytes.length ≤ n ∧
      (0 < n → c.unread ≠ [] → bytes ≠ []) := by
  unfold directRead
  by_cases empty : c.pending = []
  · rw [if_pos empty]
    refine ⟨_, _, rfl, ⟨?_, rfl⟩, Reader.read_length _ _, ?_⟩
    · simp only [Connection.unread, empty, List.nil_append]
      exact (Reader.read_append c.source n).symm
    · intro positive more
      exact Reader.read_progress _ _ positive (by simpa [Connection.unread, empty] using more)
  · rw [if_neg empty]
    refine ⟨_, _, rfl, ⟨?_, rfl⟩, by simp, ?_⟩
    · simp [Connection.unread, ← List.append_assoc]
    · intro positive _
      simp [empty]
      omega

theorem directRead_ok {n : Nat} {c c' : Connection σ} {bytes : Bytes}
    (run : directRead n c = .ok bytes c') :
    Consumed c bytes c' ∧ bytes.length ≤ n ∧ (0 < n → c.unread ≠ [] → bytes ≠ []) := by
  obtain ⟨bytes', d, run', facts⟩ := directRead_spec n c
  rw [run] at run'
  cases run'
  exact facts

theorem byte_ok {c c' : Connection σ} {b : UInt8} (run : byte c = .ok b c') :
    Consumed c [b] c' := by
  unfold byte at run
  split at run
  next head rest pending =>
    cases run
    exact ⟨by simp [Connection.unread, pending], rfl⟩
  next pending =>
    have split := Reader.read_append c.source 8192
    dsimp only at run
    split at run
    next => cases run
    next head rest read =>
      cases run
      rw [read] at split
      exact ⟨by simp [Connection.unread, pending, ← split], rfl⟩

theorem byte_run {c : Connection σ} {b : UInt8} {rest : Bytes} (unread : c.unread = b :: rest) :
    ∃ c', byte c = .ok b c' ∧ c'.unread = rest ∧ c'.body = c.body := by
  have some : ∃ a c', byte c = .ok a c' := by
    unfold byte
    split
    next head rest pending => exact ⟨_, _, rfl⟩
    next pending =>
      have progress := Reader.read_progress c.source 8192 (by omega)
        (by simp [← show c.unread = Reader.unread c.source by simp [Connection.unread, pending],
          unread])
      dsimp only
      split
      next none => exact absurd none progress
      next => exact ⟨_, _, rfl⟩
  obtain ⟨a, c', run⟩ := some
  have consumed := byte_ok run
  have same := consumed.unread.symm.trans unread
  simp only [List.cons_append, List.nil_append, List.cons.injEq] at same
  exact ⟨c', same.1 ▸ run, same.2, consumed.body⟩

theorem readExactly_ok {fuel n : Nat} {c c' : Connection σ} {bytes : Bytes}
    (run : readExactly fuel n c = .ok bytes c') : Consumed c bytes c' ∧ bytes.length = n := by
  induction fuel generalizing n c bytes with
  | zero =>
    cases n with
    | zero =>
      simp only [readExactly, pure_ok] at run
      obtain ⟨rfl, rfl⟩ := run
      exact ⟨.refl c, rfl⟩
    | succ n => simp [readExactly] at run
  | succ fuel ih =>
    cases n with
    | zero =>
      simp only [readExactly, pure_ok] at run
      obtain ⟨rfl, rfl⟩ := run
      exact ⟨.refl c, rfl⟩
    | succ n =>
      simp only [readExactly, bind_ok, ite_ok, throw_ok, pure_ok, and_false, false_or] at run
      obtain ⟨front, d, read, nonempty, rest, e, more, rfl, rfl⟩ := run
      obtain ⟨consumed, bound, -⟩ := directRead_ok read
      obtain ⟨consumedRest, length⟩ := ih more
      exact ⟨consumed.trans consumedRest, by rw [List.length_append, length]; omega⟩

theorem readExactly_run {n : Nat} {c : Connection σ} (fuel : Nat) (enough : n ≤ fuel)
    (available : n ≤ c.unread.length) :
    ∃ bytes c', readExactly fuel n c = .ok bytes c' := by
  induction fuel generalizing n c with
  | zero => exact ⟨[], c, by obtain rfl : n = 0 := by omega
                             rfl⟩
  | succ fuel ih =>
    cases n with
    | zero => exact ⟨[], c, rfl⟩
    | succ n =>
      obtain ⟨front, d, read, consumed, bound, progress⟩ := directRead_spec (n + 1) c
      have nonempty : front ≠ [] := progress (by omega) (by
        intro none
        simp [none] at available)
      have positive := List.length_pos_iff.mpr nonempty
      have left := congrArg List.length consumed.unread
      rw [List.length_append] at left
      obtain ⟨rest, e, more⟩ := ih (n := n + 1 - front.length) (c := d) (by omega) (by omega)
      refine ⟨front ++ rest, e, ?_⟩
      simp only [readExactly, bind_ok, ite_ok, throw_ok, pure_ok, and_false, false_or]
      exact ⟨front, d, read, nonempty, rest, e, more, rfl, rfl⟩

def LineBytes (bytes : Bytes) : Prop := ∀ b ∈ bytes, b ≠ 0x0D ∧ b ≠ 0x0A ∧ b ≠ 0x00

def crlf : Bytes := [0x0D, 0x0A]

theorem lineLoop_ok {room : Nat} {bytes : Bytes} {c c' : Connection σ} {text : Str}
    (run : lineLoop room bytes c = .ok text c') :
    ∃ more, Consumed c (more ++ crlf) c' ∧ LineBytes more ∧ more.length < room ∧
      decode (bytes ++ more) = some text := by
  induction room generalizing bytes c with
  | zero => simp [lineLoop] at run
  | succ room ih =>
    simp only [lineLoop, bind_ok, ite_ok, throw_ok, and_false, false_or, not_not] at run
    obtain ⟨b, d, first, ⟨rfl, next, e, second, rfl, decoded⟩ | ⟨notCr, notEnd, more⟩⟩ := run
    · cases found : decode bytes with
      | none => simp [found] at decoded
      | some text' =>
        simp only [found, pure_ok] at decoded
        obtain ⟨rfl, rfl⟩ := decoded
        exact ⟨[], (byte_ok first).trans (byte_ok second), by simp [LineBytes], by simp,
          by simpa using found⟩
    · obtain ⟨tail, consumed, plain, short, decoded⟩ := ih more
      refine ⟨b :: tail, (byte_ok first).trans consumed, ?_, by simpa using short, by
        simpa using decoded⟩
      simp only [LineBytes, List.mem_cons, forall_eq_or_imp]
      rw [not_or] at notEnd
      exact ⟨⟨notCr, notEnd⟩, plain⟩

theorem lineLoop_run {more rest : Bytes} {c : Connection σ} {text : Str} (room : Nat)
    (bytes : Bytes)
    (unread : c.unread = more ++ crlf ++ rest) (plain : LineBytes more)
    (short : more.length < room) (decoded : decode (bytes ++ more) = some text) :
    ∃ c', lineLoop room bytes c = .ok text c' := by
  induction room generalizing bytes more c with
  | zero => omega
  | succ room ih =>
    simp only [lineLoop, bind_ok, ite_ok, throw_ok, and_false, false_or, not_not]
    cases more with
    | nil =>
      obtain ⟨d, first, unread, -⟩ := byte_run (c := c) unread
      obtain ⟨e, second, -, -⟩ := byte_run (c := d) unread
      refine ⟨e, _, d, first, Or.inl ⟨rfl, _, e, second, rfl, ?_⟩⟩
      simp only [List.append_nil] at decoded
      simp [decoded]
    | cons b more =>
      obtain ⟨d, first, unread, -⟩ := byte_run (c := c) unread
      simp only [LineBytes, List.mem_cons, forall_eq_or_imp] at plain
      obtain ⟨⟨notCr, notLf, notNul⟩, plain⟩ := plain
      obtain ⟨e, more⟩ := ih (bytes ++ [b]) unread plain (by simpa using short)
        (by simpa using decoded)
      exact ⟨e, b, d, first, Or.inr ⟨notCr, by simp [notLf, notNul], more⟩⟩

structure LineText (text : Str) : Prop where
  wellFormed : WellFormed text
  noCr : (0x0D : UInt16) ∉ text
  noLf : (0x0A : UInt16) ∉ text
  noNul : (0x00 : UInt16) ∉ text

theorem lineText_ascii {text : Str} (ascii : ∀ u ∈ text, 0x20 ≤ u.toNat ∧ u.toNat < 0x80) :
    LineText text where
  wellFormed := wellFormed_ascii text fun u member => (ascii u member).2
  noCr member := absurd (ascii _ member).1 (by decide)
  noLf member := absurd (ascii _ member).1 (by decide)
  noNul member := absurd (ascii _ member).1 (by decide)

theorem lineText_literal {text : Str}
    (ascii : text.all (fun u => 0x20 ≤ u.toNat ∧ u.toNat < 0x80) = true) : LineText text :=
  lineText_ascii fun u member => by simpa using List.all_eq_true.mp ascii u member

theorem lineBytes_encode {text : Str} :
    LineBytes (encode text) ↔
      (0x0D : UInt16) ∉ text ∧ (0x0A : UInt16) ∉ text ∧ (0x00 : UInt16) ∉ text := by
  have cr := mem_encode_ascii text 0x0D (by decide)
  have lf := mem_encode_ascii text 0x0A (by decide)
  have nul := mem_encode_ascii text 0x00 (by decide)
  rw [← cr, ← lf, ← nul]
  constructor
  · intro plain
    exact ⟨fun member => (plain _ member).1 rfl, fun member => (plain _ member).2.1 rfl,
      fun member => (plain _ member).2.2 rfl⟩
  · rintro ⟨noCr, noLf, noNul⟩ b member
    exact ⟨by rintro rfl; exact noCr member, by rintro rfl; exact noLf member,
      by rintro rfl; exact noNul member⟩

def encodeLine (text : Str) : Bytes := encode text ++ crlf

theorem line_ok {limit : Nat} {c c' : Connection σ} {text : Str}
    (run : line limit c = .ok text c') :
    Consumed c (encodeLine text) c' ∧ LineText text ∧ (encode text).length ≤ limit := by
  obtain ⟨more, consumed, plain, short, decoded⟩ := lineLoop_ok run
  rw [List.nil_append] at decoded
  obtain ⟨rfl, wellFormed⟩ := decode_sound more text decoded
  obtain ⟨noCr, noLf, noNul⟩ := lineBytes_encode.mp plain
  exact ⟨consumed, ⟨wellFormed, noCr, noLf, noNul⟩, by omega⟩

theorem line_run {c : Connection σ} {text : Str} {rest : Bytes} (limit : Nat)
    (unread : c.unread = encodeLine text ++ rest) (plain : LineText text)
    (short : (encode text).length ≤ limit) :
    ∃ c', line limit c = .ok text c' ∧ c'.unread = rest ∧ c'.body = c.body := by
  obtain ⟨c', run⟩ := lineLoop_run (limit + 1) [] unread
    (lineBytes_encode.mpr ⟨plain.noCr, plain.noLf, plain.noNul⟩) (by omega)
    (decode_encode text plain.wellFormed)
  obtain ⟨consumed, -⟩ := line_ok run
  exact ⟨c', run, consumed.unread_eq unread, consumed.body⟩

-- Where a line ends does not depend on who reads it.
theorem encodeLine_unique {s t : Str} {rest rest' : Bytes} (left : LineText s)
    (right : LineText t) (same : encodeLine s ++ rest = encodeLine t ++ rest') :
    s = t ∧ rest = rest' := by
  let limit := max (encode s).length (encode t).length
  let c : Connection Bytes := Connection.new (encodeLine s ++ rest)
  obtain ⟨d, run, unread, -⟩ := line_run limit (c := c) rfl left (Nat.le_max_left _ _)
  obtain ⟨e, run', unread', -⟩ := line_run limit (c := c) same right (Nat.le_max_right _ _)
  rw [run] at run'
  cases run'
  exact ⟨rfl, unread.symm.trans unread'⟩

end HttpServer.Framing
