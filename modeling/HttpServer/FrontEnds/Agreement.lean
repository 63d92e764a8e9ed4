import HttpServer.FrontEnds.Decoding
import HttpServer.Framing.Head

set_option autoImplicit false

namespace HttpServer.FrontEnds

open Unicode Text HttpServer.Core Framing
open RequestHeaders (token single)

structure Submission where
  method : Str
  target : Str
  headers : List Field
  deriving DecidableEq

def Submission.raw (s : Submission) : RawHead := ⟨s.method, s.target, str "HTTP/1.1", s.headers⟩

def Submission.written (s : Submission) : Bytes := s.raw.encode

def Submission.input (s : Submission) : CAbi.Input where
  method := encode s.method
  target := encode s.target
  headers := s.headers.map fun f => (encode f.name, encode f.value)

def Submission.message (s : Submission) : Wasm.Json :=
  .object
    [(str "method", .string s.method), (str "target", .string s.target),
      (str "headers", .array (s.headers.map fun f => .array [.string f.name, .string f.value]))]

/-- Text without body framing headers, within the limits of the framing (those of the others are
checked before they are called). -/
structure Submission.Within (s : Submission) : Prop where
  method : WellFormed s.method
  target : WellFormed s.target
  headers : ∀ f ∈ s.headers, WellFormed f.name ∧ WellFormed f.value
  line : (encodeLine s.raw.line).length ≤ 8194
  count : s.headers.length ≤ 100
  size : (encodeFields s.headers).length ≤ 16384
  bodiless : ∀ f ∈ s.headers, f.key ≠ lengthKey ∧ f.key ≠ codingKey

def accepted {ε α : Type} : Except ε α → Option α
  | .ok a => some a
  | .error _ => none

def framed {σ : Type} [Reader σ] (source : σ) : Option Request :=
  match readRequest (Connection.new source) with
  | .ok head _ => some head.request
  | .error _ _ => none

-- All three refuse, or all three hand on the same request.
def Alike {σ : Type} [Reader σ] (source : σ) (s : Submission) (bridge : Wasm.Bridge) (id : Int32) :
    Prop :=
  framed source = accepted (CAbi.decodeRequest s.input) ∧
    accepted (CAbi.decodeRequest s.input) = accepted (Wasm.beginRequest bridge id s.message)

theorem except_ok_bind {ε α β : Type} (a : α) (f : α → Except ε β) :
    (Except.ok a : Except ε α) >>= f = f a := rfl

def Ready (bridge : Wasm.Bridge) (id : Int32) : Prop :=
  bridge.configured = true ∧ bridge.requests.contains id = false ∧ 0 ≤ id

def strict (s : Submission) : Option Request :=
  if token s.method && !s.target.isEmpty && !anyChar s.target targetChar then
    (addFields ∅ s.headers).map fun headers => ⟨method s.method, s.target, headers⟩
  else none

theorem add_key (headers : Headers) (f : Field) :
    RequestHeaders.add headers f.key f.value = RequestHeaders.add headers f.name f.value := by
  unfold RequestHeaders.add
  rw [token_key, Field.key, toLower_idem]

theorem addHeaders_strict {fields : List Field} (headers : Headers)
    (wellFormed : ∀ f ∈ fields, WellFormed f.name ∧ WellFormed f.value) :
    accepted (CAbi.addHeaders (fields.map fun f => (encode f.name, encode f.value)) headers) =
      addFields headers fields := by
  induction fields generalizing headers with
  | nil => rfl
  | cons f rest ih =>
    obtain ⟨name, value⟩ := wellFormed f List.mem_cons_self
    have rest' := fun g member => wellFormed g (List.mem_cons_of_mem f member)
    simp only [List.map_cons, CAbi.addHeaders, CAbi.requestText, decode_encode _ name,
      decode_encode _ value, addFields, add_key, except_ok_bind]
    cases RequestHeaders.add headers f.name f.value with
    | none => rfl
    | some after => exact ih after rest'

theorem addPairs_strict (fields : List Field) (headers : Headers) :
    accepted (Wasm.addPairs (fields.map fun f => .array [.string f.name, .string f.value]) headers) =
      addFields headers fields := by
  induction fields generalizing headers with
  | nil => rfl
  | cons f rest ih =>
    simp only [List.map_cons, Wasm.addPairs, addFields, add_key]
    cases RequestHeaders.add headers f.name f.value with
    | none => rfl
    | some after => exact ih after

theorem not_both {fields : List Field} {headers : Headers} (run : addFields ∅ fields = some headers) :
    (headers.contains lengthKey && headers.contains codingKey) = false := by
  obtain ⟨unambiguous, collected⟩ := addFields_ok run
  rw [Bool.and_comm]
  exact unambiguous.not_both collected

theorem cAbi_strict {s : Submission} (within : s.Within) :
    accepted (CAbi.decodeRequest s.input) = strict s := by
  have collects := addHeaders_strict ∅ within.headers
  unfold CAbi.decodeRequest strict
  simp only [Submission.input, CAbi.requestText, decode_encode _ within.method,
    decode_encode _ within.target, except_ok_bind]
  cases fits : token s.method && !s.target.isEmpty && !anyChar s.target targetChar with
  | false =>
    have refused : (!token s.method || s.target.isEmpty || anyChar s.target targetChar) = true := by
      revert fits
      cases token s.method <;> cases s.target.isEmpty <;> cases anyChar s.target targetChar <;> simp
    rw [if_pos refused, if_neg (by simp)]
    rfl
  | true =>
    have passes : (!token s.method || s.target.isEmpty || anyChar s.target targetChar) = false := by
      revert fits
      cases token s.method <;> cases s.target.isEmpty <;> cases anyChar s.target targetChar <;> simp
    rw [passes, if_neg (by simp), if_pos rfl]
    generalize CAbi.addHeaders _ ∅ = headers at collects ⊢
    cases headers with
    | error e =>
      rw [← show none = addFields ∅ s.headers from collects]
      rfl
    | ok headers =>
      have run : addFields ∅ s.headers = some headers := collects.symm
      rw [run, except_ok_bind]
      have both := not_both run
      rw [lengthKey, codingKey] at both
      rw [both, if_neg (by simp)]
      rfl

theorem wasm_strict {s : Submission} {bridge : Wasm.Bridge} {id : Int32} (ready : Ready bridge id) :
    accepted (Wasm.beginRequest bridge id s.message) = strict s := by
  have collects := addPairs_strict s.headers ∅
  obtain ⟨configured, fresh, positive⟩ := ready
  have guarded : (!(bridge.configured && !bridge.requests.contains id && decide (0 ≤ id))) = false := by
    rw [configured, fresh, decide_eq_true positive]
    rfl
  have verb : Wasm.textField s.message (str "method") = .ok s.method := rfl
  have target : Wasm.textField s.message (str "target") = .ok s.target := by
    have other : str "method" ≠ str "target" := by decide
    simp [Wasm.textField, Submission.message, OrderedMap.lookup, other]
  have items : Wasm.headerItems s.message =
      .ok (s.headers.map fun f => .array [.string f.name, .string f.value]) := by
    have first : str "method" ≠ str "headers" := by decide
    have second : str "target" ≠ str "headers" := by decide
    simp [Wasm.headerItems, Submission.message, OrderedMap.lookup, first, second]
  unfold Wasm.beginRequest strict
  rw [guarded, if_neg (by simp), verb, target]
  simp only [except_ok_bind]
  cases token s.method && !s.target.isEmpty && !anyChar s.target targetChar with
  | false => rfl
  | true =>
    simp only [Bool.not_true, Bool.false_eq_true, if_false, if_true, items, except_ok_bind]
    generalize Wasm.addPairs _ ∅ = headers at collects ⊢
    cases headers with
    | error e =>
      rw [← show none = addFields ∅ s.headers from collects]
      rfl
    | ok headers =>
      have run : addFields ∅ s.headers = some headers := collects.symm
      rw [run, except_ok_bind]
      have both := not_both run
      rw [lengthKey, codingKey] at both
      rw [both, if_neg (by simp)]
      rfl

def Readable (raw : RawHead) : Prop := raw.Valid ∧ ∃ body, raw.Announces body

/-- Whatever can be read at the front of the written bytes is the request itself, and then its
target holds no control character. -/
def Unmistakable (s : Submission) : Prop :=
  ∀ raw, Readable raw → raw.encode <+: s.written →
    raw = s.raw ∧ anyChar s.target targetChar = false

def rawRequest (raw : RawHead) : Option Request :=
  (addFields ∅ raw.fields).map fun headers => (raw.head headers).request

theorem addFields_of_collected {fields : List Field} {headers : Headers}
    (unambiguous : Unambiguous fields) (collected : Collected fields headers) :
    addFields ∅ fields = some headers := by
  obtain ⟨after, run⟩ := addFields_run unambiguous
  have other := (addFields_ok run).2
  have same : after = headers := by
    apply OrderedMap.eq_of_get
    · rw [other.keys, collected.keys]
    · intro key
      rw [other.get, collected.get]
  rw [run, same]

section

variable {σ : Type} [Reader σ] {source : σ}

theorem framed_some {request : Request} (reads : framed source = some request) :
    ∃ raw, Readable raw ∧ raw.encode <+: Reader.unread source ∧ rawRequest raw = some request := by
  unfold framed at reads
  cases run : readRequest (Connection.new source) with
  | error e c => simp [run] at reads
  | ok head c =>
    obtain ⟨raw, headers, unread, valid, collected, same, announces⟩ := readRequest_ok run
    simp only [run, Option.some.injEq] at reads
    refine ⟨raw, ⟨valid, c.body, announces⟩, ⟨c.unread, unread.symm⟩, ?_⟩
    rw [rawRequest, addFields_of_collected valid.unambiguous collected, ← reads, same]
    rfl

theorem framed_readable {raw : RawHead} (readable : Readable raw)
    (front : raw.encode <+: Reader.unread source) : framed source = rawRequest raw := by
  obtain ⟨valid, body, announces⟩ := readable
  obtain ⟨rest, whole⟩ := front
  obtain ⟨headers, c, run, collected, -⟩ :=
    readRequest_run (c := Connection.new source) valid announces rfl whole.symm
  rw [framed, run, rawRequest, addFields_of_collected valid.unambiguous collected]
  rfl

theorem plain_target {target : Str} (wellFormed : WellFormed target)
    (clean : anyChar target targetChar = false) : Plain target ∧ unit ' ' ∉ target := by
  have high : ∀ n, 0xD800 ≤ n → targetChar n = false := by
    intro n bound
    simp only [targetChar]
    grind
  rw [anyChar_eq target targetChar false high, List.any_eq_false] at clean
  refine ⟨⟨wellFormed, anyChar_control.mpr fun u member => ?_⟩, fun member => ?_⟩
  · have := clean u member
    simp only [targetChar] at this
    simp only [RequestHeaders.controlChar]
    grind
  · exact clean _ member (by decide)

theorem bodiless_announces {s : Submission} (within : s.Within) : s.raw.Announces .empty :=
  .nothing (valuesOf_eq_nil.mpr fun f member => (within.bodiless f member).1)
    (valuesOf_eq_nil.mpr fun f member => (within.bodiless f member).2)

theorem strict_eq_some {s : Submission} {request : Request} :
    strict s = some request ↔
      token s.method = true ∧ s.target ≠ [] ∧ anyChar s.target targetChar = false ∧
        rawRequest s.raw = some request := by
  have same : (addFields ∅ s.headers).map (fun headers => (⟨method s.method, s.target, headers⟩ : Request)) =
      rawRequest s.raw := rfl
  rw [strict, same, Option.ite_none_right_eq_some]
  simp [and_assoc]

theorem strict_readable {s : Submission} {request : Request} (within : s.Within)
    (accepts : strict s = some request) : Readable s.raw := by
  obtain ⟨name, nonempty, clean, added⟩ := strict_eq_some.mp accepts
  obtain ⟨headers, run, -⟩ := Option.map_eq_some_iff.mp added
  have unambiguous : Unambiguous s.headers := (addFields_ok run).1
  obtain ⟨visible, space⟩ := plain_target within.target clean
  have line : Plain s.raw.line := by
    apply (plain_token name).append
    apply Plain.append (v := [unit ' ']) (plain_literal (by decide))
    exact visible.append (plain_literal (v := unit ' ' :: str "HTTP/1.1") (by decide))
  have lines : ∀ f ∈ s.headers, FieldLine f := by
    intro f member
    obtain ⟨nameText, valueText⟩ := within.headers f member
    have valid := unambiguous.valid f member
    refine ⟨fun colon => ?_, ?_⟩
    · have range := tokenChar_range (((token_iff f.name).mp valid.name).2 _ colon)
      exact range.2.2.1 rfl
    · have value : Plain f.value := ⟨valueText, valid.value⟩
      exact ((plain_token valid.name).append
        (Plain.append (v := [unit ':']) (plain_literal (by decide)) value)).lineText
  exact ⟨⟨⟨name, space, Or.inl rfl, line.lineText, lines⟩, nonempty, within.line,
    ⟨lines, within.count, within.size⟩, unambiguous⟩, .empty, bodiless_announces within⟩

theorem strict_of_readable {s : Submission} (readable : Readable s.raw)
    (clean : anyChar s.target targetChar = false) : strict s = rawRequest s.raw := by
  have valid := readable.1
  cases request : rawRequest s.raw with
  | none =>
    obtain ⟨headers, run⟩ := addFields_run valid.unambiguous
    simp [rawRequest, run] at request
  | some request => exact strict_eq_some.mpr ⟨valid.name, valid.target, clean, ‹_›⟩

theorem framed_strict {s : Submission} (within : s.Within) (unread : Reader.unread source = s.written) :
    framed source = strict s ↔ Unmistakable s := by
  have front : s.raw.encode <+: Reader.unread source := by
    rw [unread]
    exact List.prefix_rfl
  constructor
  · intro same raw readable begins
    rw [← unread] at begins
    obtain ⟨headers, run⟩ := addFields_run readable.1.unambiguous
    have reads := framed_readable readable begins
    rw [same, rawRequest, run] at reads
    have accepts := strict_readable within reads
    obtain ⟨rest, whole⟩ := begins
    have ends : raw.encode ++ rest = s.raw.encode ++ [] := by
      rw [whole, unread, List.append_nil]
      rfl
    exact ⟨(RawHead.encode_unique readable.1.toLexical accepts.1.toLexical ends).1,
      (strict_eq_some.mp reads).2.2.1⟩
  · intro plainly
    cases accepts : strict s with
    | some request =>
      rw [framed_readable (strict_readable within accepts) front]
      exact (strict_eq_some.mp accepts).2.2.2
    | none =>
      cases reads : framed source with
      | none => rfl
      | some request =>
        obtain ⟨raw, readable, begins, found⟩ := framed_some reads
        obtain ⟨rfl, clean⟩ := plainly raw readable (unread ▸ begins)
        rw [strict_of_readable readable clean, found] at accepts
        cases accepts

end

/-- No part breaks a line, and a header name ends at the first colon. -/
structure Submission.Lines (s : Submission) : Prop where
  line : ¬[0x0D, 0x0A] <:+: s.raw.line
  names : ∀ f ∈ s.headers, unit ':' ∉ f.name
  fields : ∀ f ∈ s.headers, ¬[0x0D, 0x0A] <:+: f.text

theorem first_split {α : Type} {a : α} {xs ys us vs : List α} (left : a ∉ xs) (right : a ∉ ys)
    (same : xs ++ a :: us = ys ++ a :: vs) : xs = ys ∧ us = vs := by
  induction xs generalizing ys with
  | nil =>
    cases ys with
    | nil => exact ⟨rfl, (List.cons.inj same).2⟩
    | cons y ys => exact absurd ((List.cons.inj same).1 ▸ List.mem_cons_self) right
  | cons x xs ih =>
    cases ys with
    | nil => exact absurd ((List.cons.inj same).1 ▸ List.mem_cons_self) left
    | cons y ys =>
      obtain ⟨rfl, rest⟩ := List.cons.inj same
      simp only [List.mem_cons, not_or] at left right
      obtain ⟨rfl, rfl⟩ := ih left.2 right.2 rest
      exact ⟨rfl, rfl⟩

theorem encodeLine_unbroken {s t : Str} {rest rest' : Bytes} (left : LineText s)
    (wellFormed : WellFormed t) (unbroken : ¬[0x0D, 0x0A] <:+: t)
    (same : encodeLine s ++ rest = encodeLine t ++ rest') : s = t ∧ rest = rest' := by
  have noCr {text : Str} (absent : (0x0D : UInt16) ∉ text) : (0x0D : UInt8) ∉ encode text :=
    fun member => absent ((mem_encode_ascii text 0x0D (by decide)).mp member)
  simp only [encodeLine, crlf, List.append_assoc, List.cons_append, List.nil_append] at same
  by_cases cr : (0x0D : UInt16) ∈ t
  · -- The first CR of `t` would be the one that ends `s`, and LF would follow it.
    obtain ⟨pre, post, rfl, absent⟩ := List.eq_append_cons_of_mem cr
    rw [encode_append_ascii pre _ post (by decide), List.append_assoc, List.cons_append] at same
    have next := (first_split (noCr left.noCr) (noCr absent) same).2
    cases post with
    | nil => cases next
    | cons u post =>
      have head : (encode (u :: post)).head? = some 0x0A := by
        cases bytes : encode (u :: post) with
        | nil =>
          rw [bytes] at next
          cases next
        | cons b more =>
          rw [bytes, List.cons_append] at next
          rw [List.head?_cons, (List.cons.inj next).1]
      obtain rfl : u = 0x0A := Option.some.inj (head_encode_ascii (u := 0x0A) (by decide) head)
      exact absurd ⟨pre, post, by simp⟩ unbroken
  · obtain ⟨bytes, tail⟩ := first_split (noCr left.noCr) (noCr cr) same
    have text := congrArg decode bytes
    rw [decode_encode s left.wellFormed, decode_encode t wellFormed] at text
    exact ⟨Option.some.inj text, (List.cons.inj tail).2⟩

theorem wellFormed_text {f : Field} (wellFormed : WellFormed f.name ∧ WellFormed f.value) :
    WellFormed f.text := by
  rw [Field.text, wellFormed_append_ascii _ _ _ (by decide)]
  exact wellFormed

theorem encodeFields_unbroken {fields others : List Field} {rest rest' : Bytes}
    (left : ∀ f ∈ fields, FieldLine f) (names : ∀ f ∈ others, unit ':' ∉ f.name)
    (wellFormed : ∀ f ∈ others, WellFormed f.name ∧ WellFormed f.value)
    (unbroken : ∀ f ∈ others, ¬[0x0D, 0x0A] <:+: f.text)
    (same : encodeFields fields ++ rest = encodeFields others ++ rest') : fields = others := by
  have empty : ¬([0x0D, 0x0A] : Str) <:+: [] := by simp
  induction others generalizing fields with
  | nil =>
    cases fields with
    | nil => rfl
    | cons f fields =>
      rw [encodeFields_cons, List.append_assoc] at same
      have text := (encodeLine_unbroken (left f List.mem_cons_self).text lineText_nil.wellFormed empty
        same).1
      exact absurd text (fieldText_ne_nil f)
  | cons g others ih =>
    simp only [List.mem_cons, forall_eq_or_imp] at names wellFormed unbroken
    rw [encodeFields_cons, List.append_assoc] at same
    have plain := wellFormed_text wellFormed.1
    cases fields with
    | nil =>
      have text := (encodeLine_unbroken lineText_nil plain unbroken.1 same).1
      exact absurd text.symm (fieldText_ne_nil g)
    | cons f fields =>
      simp only [List.mem_cons, forall_eq_or_imp] at left
      rw [encodeFields_cons, List.append_assoc] at same
      obtain ⟨text, same⟩ := encodeLine_unbroken left.1.text plain unbroken.1 same
      rw [fieldText_unique left.1.colon names.1 text,
        ih left.2 names.2 wellFormed.2 unbroken.2 same]

theorem wellFormed_literal {s : Str} (ascii : s.all (fun u => u.toNat < 0x80) = true) :
    WellFormed s :=
  wellFormed_ascii s fun u member => by simpa using List.all_eq_true.mp ascii u member

-- The line has two spaces, and so the method and the target have none.
theorem line_parts {raw : RawHead} {s : Submission} (lexical : raw.Lexical)
    (same : raw.line = s.raw.line) :
    raw.name = s.method ∧ raw.target = s.target ∧ raw.version = str "HTTP/1.1" := by
  have name : unit ' ' ∉ raw.name := by
    intro member
    have range := tokenChar_range (((token_iff raw.name).mp lexical.name).2 _ member)
    exact absurd range.1 (by decide)
  have version : unit ' ' ∉ raw.version := by
    rcases lexical.version with version | version <;> rw [version] <;> decide
  have last : List.count (unit ' ') (str "HTTP/1.1") = 0 := by decide
  have spaces := congrArg (List.count (unit ' ')) same
  simp only [RawHead.line, Submission.raw, List.count_append, List.count_cons_self, last,
    List.count_eq_zero.mpr name, List.count_eq_zero.mpr lexical.space,
    List.count_eq_zero.mpr version] at spaces
  have noMethod : unit ' ' ∉ s.method := List.count_eq_zero.mp (by omega)
  have noTarget : unit ' ' ∉ s.target := List.count_eq_zero.mp (by omega)
  obtain ⟨first, more⟩ := first_split name noMethod same
  obtain ⟨second, third⟩ := first_split lexical.space noTarget more
  exact ⟨first, second, third⟩

-- Written with a line for each part, a request is mistaken for no other.
theorem unmistakable_lines {s : Submission} (within : s.Within) (lines : s.Lines) :
    Unmistakable s ↔ (Readable s.raw → anyChar s.target targetChar = false) := by
  have wellFormed : WellFormed s.raw.line := by
    rw [RawHead.line, wellFormed_append_ascii _ _ _ (by decide),
      wellFormed_append_ascii _ _ _ (by decide)]
    exact ⟨within.method, within.target, wellFormed_literal (s := str "HTTP/1.1") (by decide)⟩
  constructor
  · exact fun plainly readable => (plainly s.raw readable List.prefix_rfl).2
  · rintro clean raw readable ⟨rest, whole⟩
    have lexical := readable.1.toLexical
    have ends : raw.encode ++ rest = s.raw.encode ++ [] := whole.trans (List.append_nil _).symm
    simp only [RawHead.encode, List.append_assoc] at ends
    obtain ⟨line, fields⟩ := encodeLine_unbroken lexical.line wellFormed lines.line ends
    have same : raw = s.raw := by
      obtain ⟨name, target, version⟩ := line_parts lexical line
      have headers := encodeFields_unbroken lexical.lines lines.names within.headers lines.fields
        fields
      cases raw
      simp only [Submission.raw] at name target version headers ⊢
      rw [name, target, version, headers]
    exact ⟨same, clean (same ▸ readable)⟩

/-- The framing reads a request as the other two do exactly when it is unmistakable as written, and
so, where each part stays on its line, when no target that it takes holds a control character. -/
theorem front_ends_alike {σ : Type} [Reader σ] {source : σ} {s : Submission} {bridge : Wasm.Bridge}
    {id : Int32} (within : s.Within) (unread : Reader.unread source = s.written)
    (ready : Ready bridge id) :
    (Alike source s bridge id ↔ Unmistakable s) ∧
      (s.Lines → (Unmistakable s ↔ (Readable s.raw → anyChar s.target targetChar = false))) := by
  refine ⟨?_, unmistakable_lines within⟩
  rw [← framed_strict within unread, Alike, cAbi_strict within, wasm_strict ready]
  exact and_iff_left rfl

def tabbed : Submission := ⟨str "GET", str "/a\tb", [⟨str "Host", str " localhost"⟩]⟩

theorem tabbed_within : tabbed.Within where
  method := wellFormed_literal (by decide)
  target := wellFormed_literal (by decide)
  headers f member := by
    obtain rfl := List.mem_singleton.mp member
    exact ⟨wellFormed_literal (by decide), wellFormed_literal (by decide)⟩
  line := by decide +kernel
  count := by decide
  size := by decide +kernel
  bodiless := by decide +kernel

theorem front_ends_alike_tabbed :
    (Alike tabbed.written tabbed ⟨true, []⟩ 0 ↔ Unmistakable tabbed) ∧
      (tabbed.Lines →
        (Unmistakable tabbed ↔ (Readable tabbed.raw → anyChar tabbed.target targetChar = false))) :=
  front_ends_alike tabbed_within rfl ⟨rfl, rfl, by decide⟩

-- A tab in the target: the framing hands the request on, the others refuse it.
theorem tab_divides_front_ends :
    tabbed.Within ∧ Ready ⟨true, []⟩ 0 ∧
      framed tabbed.written = some ⟨.get, tabbed.target, OrderedMap.ofList [(str "host", str "localhost")]⟩ ∧
      accepted (CAbi.decodeRequest tabbed.input) = none ∧
      accepted (Wasm.beginRequest ⟨true, []⟩ 0 tabbed.message) = none ∧
      ¬Alike tabbed.written tabbed ⟨true, []⟩ 0 := by
  have reads : framed tabbed.written =
      some ⟨.get, tabbed.target, OrderedMap.ofList [(str "host", str "localhost")]⟩ := by
    decide +kernel
  have refuses : accepted (CAbi.decodeRequest tabbed.input) = none := by decide +kernel
  refine ⟨tabbed_within, ⟨rfl, rfl, by decide⟩, reads, refuses, by decide +kernel, fun alike => ?_⟩
  rw [Alike, reads, refuses] at alike
  cases alike.1

end HttpServer.FrontEnds
