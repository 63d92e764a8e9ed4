import HttpServer.Framing.Fields
import HttpServer.Framing.Lines

set_option autoImplicit false

namespace HttpServer.Framing

open Unicode Text StateRun

def encodeFields (fields : List Field) : Bytes :=
  fields.flatMap (fun f => encodeLine f.text) ++ encodeLine []

structure FieldLine (f : Field) : Prop where
  colon : unit ':' ∉ f.name
  text : LineText f.text

structure FieldLines (fields : List Field) : Prop where
  lines : ∀ f ∈ fields, FieldLine f
  count : fields.length ≤ 100
  size : (encodeFields fields).length ≤ 16384

theorem lineText_nil : LineText [] := by
  constructor <;> simp [WellFormed, codePoints]

theorem find_fieldText {f : Field} (absent : unit ':' ∉ f.name) :
    find f.text (unit ':') = some f.name.length :=
  find_append absent

theorem fieldText_ne_nil (f : Field) : f.text ≠ [] := by
  simp [Field.text]

theorem length_encodeLine (text : Str) : (encodeLine text).length = (encode text).length + 2 := by
  simp [encodeLine, crlf]

theorem encodeFields_cons (f : Field) (fields : List Field) :
    encodeFields (f :: fields) = encodeLine f.text ++ encodeFields fields := by
  simp [encodeFields]

theorem fieldText_unique {f g : Field} (left : unit ':' ∉ f.name) (right : unit ':' ∉ g.name)
    (same : f.text = g.text) : f = g := by
  have colon := find_fieldText left
  rw [same, find_fieldText right, Option.some.injEq] at colon
  obtain ⟨name, value⟩ := List.append_inj same colon.symm
  cases f
  cases g
  simp_all

theorem encodeFields_unique {fields others : List Field} {rest rest' : Bytes}
    (left : ∀ f ∈ fields, FieldLine f) (right : ∀ f ∈ others, FieldLine f)
    (same : encodeFields fields ++ rest = encodeFields others ++ rest') :
    fields = others ∧ rest = rest' := by
  induction fields generalizing others with
  | nil =>
    cases others with
    | nil => exact ⟨rfl, List.append_cancel_left same⟩
    | cons g others =>
      simp only [List.mem_cons, forall_eq_or_imp] at right
      rw [encodeFields_cons, List.append_assoc] at same
      have text := (encodeLine_unique lineText_nil right.1.text same).1
      exact absurd text.symm (fieldText_ne_nil g)
  | cons f fields ih =>
    simp only [List.mem_cons, forall_eq_or_imp] at left
    rw [encodeFields_cons, List.append_assoc] at same
    cases others with
    | nil =>
      have text := (encodeLine_unique left.1.text lineText_nil same).1
      exact absurd text (fieldText_ne_nil f)
    | cons g others =>
      simp only [List.mem_cons, forall_eq_or_imp] at right
      rw [encodeFields_cons, List.append_assoc] at same
      obtain ⟨text, same⟩ := encodeLine_unique left.1.text right.1.text same
      obtain ⟨rfl, rfl⟩ := ih left.2 right.2 same
      exact ⟨by rw [fieldText_unique left.1.colon right.1.colon text], rfl⟩

section

variable {σ : Type} [Reader σ]

theorem headersLoop_ok {rounds used count : Nat} {before after : Headers} {c c' : Connection σ}
    (bounded : count ≤ 100) (run : headersLoop rounds used count before c = .ok after c') :
    ∃ fields, Consumed c (encodeFields fields) c' ∧ addFields before fields = some after ∧
      (∀ f ∈ fields, FieldLine f) ∧ count + fields.length ≤ 100 ∧
      used + (encodeFields fields).length ≤ 16384 := by
  induction rounds generalizing used count before c with
  | zero => simp [headersLoop] at run
  | succ rounds ih =>
    simp only [headersLoop, bind_ok, ite_ok, throw_ok, pure_ok, and_false, false_or,
      List.isEmpty_iff] at run
    obtain ⟨text, d, read, small, ⟨rfl, rfl, rfl⟩ | ⟨nonempty, few, next⟩⟩ := run
    · obtain ⟨consumed, -⟩ := line_ok read
      refine ⟨[], by simpa [encodeFields] using consumed, rfl, by simp, by simpa using bounded, ?_⟩
      simp only [encodeFields, List.flatMap_nil, List.nil_append, length_encodeLine]
      omega
    · obtain ⟨consumed, plain, -⟩ := line_ok read
      cases found : find text (unit ':') with
      | none => simp [found] at next
      | some colon =>
        obtain ⟨whole, absent⟩ := find_eq_some found
        let f : Field := ⟨text.take colon, text.drop (colon + 1)⟩
        have same : f.text = text := whole.symm
        cases added : RequestHeaders.add before f.key f.value with
        | none => simp [found, f, Field.key] at added next; simp [added] at next
        | some headers =>
          have rest : headersLoop rounds (used + (encode text).length + 2) (count + 1) headers d =
              .ok after c' := by
            simp only [f, Field.key] at added
            simpa [found, added] using next
          obtain ⟨fields, consumedRest, collected, lines, fewer, size⟩ := ih (by omega) rest
          refine ⟨f :: fields, ?_, ?_, ?_, by simpa using by omega, ?_⟩
          · rw [encodeFields_cons, same]
            exact consumed.trans consumedRest
          · simp [addFields, added, collected]
          · simp only [List.mem_cons, forall_eq_or_imp]
            exact ⟨⟨absent, by rw [same]; exact plain⟩, lines⟩
          · rw [encodeFields_cons, List.length_append, same, length_encodeLine]
            omega

theorem headersLoop_run {before after : Headers} {c : Connection σ} {fields : List Field}
    {rest : Bytes} (rounds used count : Nat) (unread : c.unread = encodeFields fields ++ rest)
    (added : addFields before fields = some after) (lines : ∀ f ∈ fields, FieldLine f)
    (few : count + fields.length ≤ 100) (enough : fields.length < rounds)
    (size : used + (encodeFields fields).length ≤ 16384) :
    ∃ c', headersLoop rounds used count before c = .ok after c' ∧ c'.unread = rest ∧
      c'.body = c.body := by
  induction fields generalizing rounds used count before c with
  | nil =>
    cases added
    obtain ⟨rounds, rfl⟩ := Nat.exists_eq_add_one_of_ne_zero (by omega : rounds ≠ 0)
    simp only [encodeFields, List.flatMap_nil, List.nil_append] at unread size
    rw [length_encodeLine] at size
    obtain ⟨d, read, unread, body⟩ :=
      line_run (16384 - used) unread lineText_nil (by omega)
    refine ⟨d, ?_, unread, body⟩
    simp only [headersLoop, bind_ok, ite_ok, throw_ok, pure_ok, and_false, false_or]
    exact ⟨[], d, read, by omega, Or.inl ⟨by simp, by simp⟩⟩
  | cons f fields ih =>
    obtain ⟨rounds, rfl⟩ := Nat.exists_eq_add_one_of_ne_zero (by omega : rounds ≠ 0)
    simp only [List.mem_cons, forall_eq_or_imp] at lines
    obtain ⟨line, lines⟩ := lines
    rw [encodeFields_cons, List.append_assoc] at unread
    rw [encodeFields_cons, List.length_append, length_encodeLine] at size
    rw [List.length_cons] at few enough
    rw [addFields, Option.bind_eq_some_iff] at added
    obtain ⟨headers, one, added⟩ := added
    obtain ⟨d, read, unread, body⟩ :=
      line_run (16384 - used) unread line.text (by omega)
    obtain ⟨c', more, unread, bodyAfter⟩ := ih rounds
      (used + (encode f.text).length + 2) (count + 1) unread added lines
      (by omega) (by omega) (by omega)
    refine ⟨c', ?_, unread, bodyAfter.trans body⟩
    simp only [headersLoop, bind_ok, ite_ok, throw_ok, and_false, false_or, List.isEmpty_iff]
    refine ⟨f.text, d, read, by omega, Or.inr ⟨fieldText_ne_nil f, by omega, ?_⟩⟩
    have name : f.text.take f.name.length = f.name := by simp [Field.text]
    have value : f.text.drop (f.name.length + 1) = f.value := by simp [Field.text]
    simp only [find_fieldText line.colon, name, value]
    rw [Field.key] at one
    simp [one, more]

theorem headers_ok {c c' : Connection σ} {after : Headers} (run : headers c = .ok after c') :
    ∃ fields, Consumed c (encodeFields fields) c' ∧ FieldLines fields ∧ Unambiguous fields ∧
      Collected fields after := by
  obtain ⟨fields, consumed, added, lines, few, size⟩ := headersLoop_ok (by omega) run
  obtain ⟨unambiguous, collected⟩ := addFields_ok added
  exact ⟨fields, consumed, ⟨lines, by omega, by omega⟩, unambiguous, collected⟩

theorem headers_run {c : Connection σ} {fields : List Field} {rest : Bytes}
    (unread : c.unread = encodeFields fields ++ rest) (lines : FieldLines fields)
    (unambiguous : Unambiguous fields) :
    ∃ after c', headers c = .ok after c' ∧ Collected fields after ∧ c'.unread = rest ∧
      c'.body = c.body := by
  obtain ⟨after, added⟩ := addFields_run unambiguous
  have few := lines.count
  have size := lines.size
  obtain ⟨c', run, unread, body⟩ := headersLoop_run 101 0 0
    unread added lines.lines (by omega) (by omega) (by omega)
  exact ⟨after, c', run, (addFields_ok added).2, unread, body⟩

end

structure Plain (value : Str) : Prop where
  wellFormed : WellFormed value
  visible : anyChar value RequestHeaders.controlChar = false

theorem anyChar_control {value : Str} :
    anyChar value RequestHeaders.controlChar = false ↔
      ∀ u ∈ value, RequestHeaders.controlChar u.toNat = false := by
  have high : ∀ n, 0xD800 ≤ n → RequestHeaders.controlChar n = false := by
    intro n bound
    simp only [RequestHeaders.controlChar]
    grind
  rw [anyChar_eq value RequestHeaders.controlChar false high, List.any_eq_false]
  simp

theorem Plain.append {v w : Str} (left : Plain v) (right : Plain w) : Plain (v ++ w) where
  wellFormed := wellFormed_append left.wellFormed right.wellFormed
  visible := by
    rw [anyChar_control]
    intro u member
    rcases List.mem_append.mp member with front | back
    · exact anyChar_control.mp left.visible u front
    · exact anyChar_control.mp right.visible u back

theorem Plain.trim {v : Str} (plain : Plain v) : Plain (Text.trim v) where
  wellFormed := wellFormed_trim plain.wellFormed
  visible := anyChar_control.mpr fun u member =>
    anyChar_control.mp plain.visible u (mem_of_mem_trim member)

theorem plain_ascii {v : Str} (ascii : ∀ u ∈ v, 0x20 ≤ u.toNat ∧ u.toNat < 0x7F) : Plain v where
  wellFormed := wellFormed_ascii v fun u member => by
    have := (ascii u member).2
    omega
  visible := anyChar_control.mpr fun u member => by
    have := ascii u member
    simp only [RequestHeaders.controlChar]
    grind

theorem plain_literal {v : Str}
    (ascii : v.all (fun u => 0x20 ≤ u.toNat ∧ u.toNat < 0x7F) = true) : Plain v :=
  plain_ascii fun u member => by simpa using List.all_eq_true.mp ascii u member

theorem plain_separator (key : Str) : Plain (RequestHeaders.separator key) := by
  unfold RequestHeaders.separator
  split_ifs
  · exact plain_literal (by decide)
  · exact plain_literal (by decide)

theorem plain_token {name : Str} (token : RequestHeaders.token name = true) : Plain name := by
  apply plain_ascii
  intro u member
  have range := tokenChar_range (((token_iff name).mp token).2 u member)
  omega

theorem Plain.lineText {v : Str} (plain : Plain v) : LineText v where
  wellFormed := plain.wellFormed
  noCr member := absurd (anyChar_control.mp plain.visible _ member) (by decide)
  noLf member := absurd (anyChar_control.mp plain.visible _ member) (by decide)
  noNul member := absurd (anyChar_control.mp plain.visible _ member) (by decide)

theorem plain_joined {key v : Str} {values : List Str} (plain : ∀ w ∈ values, Plain w)
    (found : joined key values = some v) : Plain v := by
  cases values with
  | nil => simp [joined] at found
  | cons first rest =>
    simp only [List.mem_cons, forall_eq_or_imp] at plain
    obtain ⟨start, plain⟩ := plain
    obtain rfl := Option.some.inj found
    induction rest generalizing first with
    | nil => exact start
    | cons next rest ih =>
      simp only [List.mem_cons, forall_eq_or_imp] at plain
      exact ih _ ((start.append (plain_separator key)).append plain.1) plain.2 rfl

theorem collected_entry {fields : List Field} {headers : Headers}
    (collected : Collected fields headers) (unambiguous : Unambiguous fields)
    (lines : ∀ f ∈ fields, FieldLine f) {key value : Str}
    (member : (key, value) ∈ headers.entries) :
    RequestHeaders.token key = true ∧ toLower key = key ∧ Plain value := by
  have known : key ∈ headers.keys := List.mem_map.mpr ⟨_, member, rfl⟩
  rw [collected.keys, List.mem_eraseDups, List.mem_map] at known
  obtain ⟨f, inside, rfl⟩ := known
  refine ⟨by simpa using (unambiguous.valid f inside).name, toLower_idem f.name, ?_⟩
  have found := (OrderedMap.get_eq_some headers f.key value).mpr member
  rw [collected.get] at found
  refine plain_joined ?_ found
  intro w occurs
  rw [valuesOf, List.mem_map] at occurs
  obtain ⟨g, isHere, rfl⟩ := occurs
  have inside := (List.mem_filter.mp isHere).1
  have text := (lines g inside).text.wellFormed
  rw [Field.text, wellFormed_append_ascii _ _ _ (by decide)] at text
  exact Plain.trim ⟨text.2, (unambiguous.valid g inside).value⟩

structure RawHead where
  name : Str
  target : Str
  version : Str
  fields : List Field
  deriving DecidableEq

def RawHead.line (raw : RawHead) : Str :=
  raw.name ++ unit ' ' :: (raw.target ++ unit ' ' :: raw.version)

def RawHead.encode (raw : RawHead) : Bytes := encodeLine raw.line ++ encodeFields raw.fields

def RawHead.http11 (raw : RawHead) : Bool := raw.version == str "HTTP/1.1"

/-- What makes the bytes of a head fall apart into its parts again. -/
structure RawHead.Lexical (raw : RawHead) : Prop where
  name : RequestHeaders.token raw.name = true
  space : unit ' ' ∉ raw.target
  version : raw.version = str "HTTP/1.1" ∨ raw.version = str "HTTP/1.0"
  line : LineText raw.line
  lines : ∀ f ∈ raw.fields, FieldLine f

structure RawHead.Valid (raw : RawHead) : Prop extends raw.Lexical where
  target : raw.target ≠ []
  size : (encodeLine raw.line).length ≤ 8194
  fields : FieldLines raw.fields
  unambiguous : Unambiguous raw.fields

inductive RawHead.Announces (raw : RawHead) : Body → Prop
  | nothing (noLength : valuesOf lengthKey raw.fields = [])
      (noCoding : valuesOf codingKey raw.fields = []) : Announces raw .empty
  | length (value : Str) (n : Nat) (only : valuesOf lengthKey raw.fields = [value])
      (exact : Numerals.nat? 10 value = some n) (bound : n ≤ 2147483647) :
      Announces raw (if n = 0 then .empty else .fixed n)
  | chunked (value : Str) (only : valuesOf codingKey raw.fields = [value])
      (same : toLower value = str "chunked") (version : raw.version = str "HTTP/1.1") :
      Announces raw (.chunked 0)

def RawHead.head (raw : RawHead) (headers : Headers) : Head where
  request := { meth := method raw.name, target := raw.target, headers }
  http11 := raw.http11
  keepAlive := keepAlive raw.http11 headers

theorem parseInt_eq_some {s : Str} {base n : Nat} :
    parseInt s base = some n ↔ Numerals.nat? base s = some n ∧ n ≤ 2147483647 := by
  unfold parseInt
  cases Numerals.nat? base s with
  | none => simp
  | some m =>
    simp only [Option.ite_none_right_eq_some, Option.some.injEq]
    constructor
    · rintro ⟨bound, rfl⟩
      exact ⟨rfl, bound⟩
    · rintro ⟨rfl, bound⟩
      exact ⟨bound, rfl⟩

theorem framing_eq_some {raw : RawHead} {headers : Headers} {body : Body}
    (unambiguous : Unambiguous raw.fields) (collected : Collected raw.fields headers) :
    framing raw.http11 headers = some body ↔ raw.Announces body := by
  have coding := collected.get codingKey
  have length := collected.get lengthKey
  unfold framing
  rw [← lengthKey.eq_def, ← codingKey.eq_def, coding, length]
  rcases unambiguous.one codingKey (by decide) with noCoding | ⟨value, oneCoding⟩
  · rw [noCoding]
    rcases unambiguous.one lengthKey (by decide) with noLength | ⟨value, oneLength⟩
    · rw [noLength]
      constructor
      · intro same
        cases same
        exact .nothing noLength noCoding
      · intro announces
        cases announces with
        | nothing => rfl
        | length value n only => simp [noLength] at only
        | chunked value only => simp [noCoding] at only
    · obtain ⟨nonempty, digits⟩ := unambiguous.digits value (by simp [oneLength])
      have test : (value.isEmpty || anyChar value RequestHeaders.nonDigit) = false := by
        simp [nonempty, digits]
      rw [oneLength]
      simp only [joined, List.foldl_nil, test, Bool.false_eq_true, if_false]
      constructor
      · intro same
        cases parsed : parseInt value 10 with
        | none => simp [parsed] at same
        | some n =>
          obtain ⟨exact, bound⟩ := parseInt_eq_some.mp parsed
          simp only [parsed, Option.some.injEq] at same
          exact same ▸ .length value n oneLength exact bound
      · intro announces
        cases announces with
        | nothing noLength => simp [noLength] at oneLength
        | length other n only exact bound =>
          obtain rfl : other = value := by simpa [only] using oneLength
          rw [parseInt_eq_some.mpr ⟨exact, bound⟩]
        | chunked value only => simp [noCoding] at only
  · rw [oneCoding]
    simp only [joined, List.foldl_nil]
    constructor
    · intro same
      split_ifs at same with wrong
      simp only [Bool.or_eq_true, Bool.not_eq_true', not_or, Bool.not_eq_false, bne_iff_ne,
        not_not, RawHead.http11, beq_iff_eq] at wrong
      cases same
      exact .chunked value oneCoding wrong.2 wrong.1
    · intro announces
      cases announces with
      | nothing _ noCoding => simp [noCoding] at oneCoding
      | length _ n only =>
        rcases unambiguous.framing with none | none
        · simp [none] at only
        · simp [none] at oneCoding
      | chunked other only same version =>
        obtain rfl : other = value := by simpa [only] using oneCoding
        simp [same, version, RawHead.http11]

theorem split_line (raw : RawHead) (name : RequestHeaders.token raw.name = true)
    (space : unit ' ' ∉ raw.target)
    (version : raw.version = str "HTTP/1.1" ∨ raw.version = str "HTTP/1.0") :
    split raw.line (unit ' ') = [raw.name, raw.target, raw.version] := by
  have clean : unit ' ' ∉ raw.name := by
    intro member
    have range := tokenChar_range (((token_iff raw.name).mp name).2 _ member)
    exact absurd range (by decide)
  have last : unit ' ' ∉ raw.version := by
    rcases version with version | version <;> rw [version] <;> decide
  unfold split RawHead.line
  rw [List.splitOn_append_cons_self_of_not_mem clean,
    List.splitOn_append_cons_self_of_not_mem space, List.splitOn_eq_singleton last]

theorem RawHead.of_split {text name target version : Str}
    (parts : split text (unit ' ') = [name, target, version]) (fields : List Field) :
    text = RawHead.line ⟨name, target, version, fields⟩ ∧ unit ' ' ∉ target := by
  constructor
  · have whole : [unit ' '].intercalate (text.splitOn (unit ' ')) = text :=
      List.intercalate_splitOn _
    rw [split] at parts
    rw [← whole, parts]
    simp [RawHead.line, List.intercalate]
  · exact not_mem_split (s := text) (by simp [parts])

-- A head is determined by its bytes, and so is where it ends.
theorem RawHead.encode_unique {raw other : RawHead} {rest rest' : Bytes} (left : raw.Lexical)
    (right : other.Lexical) (same : raw.encode ++ rest = other.encode ++ rest') :
    raw = other ∧ rest = rest' := by
  simp only [RawHead.encode, List.append_assoc] at same
  obtain ⟨line, same⟩ := encodeLine_unique left.line right.line same
  obtain ⟨fields, rest⟩ := encodeFields_unique left.lines right.lines same
  have parts := split_line raw left.name left.space left.version
  rw [line, split_line other right.name right.space right.version] at parts
  cases raw
  cases other
  simp_all

section

variable {σ : Type} [Reader σ]

theorem requestHead_ok {text : Str} {c c' : Connection σ} {head : Head} (plain : LineText text)
    (short : (encode text).length ≤ 8192) (run : requestHead text c = .ok head c') :
    ∃ raw : RawHead, ∃ headers d, text = raw.line ∧ raw.Valid ∧ Collected raw.fields headers ∧
      head = raw.head headers ∧ Consumed c (encodeFields raw.fields) d ∧
      raw.Announces c'.body ∧ c' = { d with body := c'.body } := by
  unfold requestHead at run
  rcases parts : split text (unit ' ') with _ | ⟨name, _ | ⟨target, _ | ⟨version, _ | _⟩⟩⟩
  case cons.cons.cons.nil =>
    simp only [parts, ite_ok, throw_ok, bind_ok, and_false, false_or, Bool.or_eq_true,
      Bool.not_eq_true', not_or, Bool.not_eq_false, List.isEmpty_iff] at run
    obtain ⟨⟨token, target_ne⟩, known, after, d, read, -, rest⟩ := run
    obtain ⟨fields, consumed, lines, unambiguous, collected⟩ := headers_ok read
    obtain ⟨whole, space⟩ := RawHead.of_split parts fields
    cases found : framing (version == str "HTTP/1.1") after with
    | none => simp [found] at rest
    | some body =>
      simp only [found, setBody, bind_ok, modify_ok, pure_ok] at rest
      obtain ⟨-, -, rfl, rfl, rfl⟩ := rest
      have announced : RawHead.Announces ⟨name, target, version, fields⟩ _ :=
        (framing_eq_some unambiguous collected).mp found
      refine ⟨⟨name, target, version, fields⟩, after, d, whole, ⟨⟨token, space, ?_, ?_,
        lines.lines⟩, target_ne, ?_, lines, unambiguous⟩, collected, rfl, consumed, announced, rfl⟩
      · by_cases new : version = str "HTTP/1.1"
        · exact Or.inl new
        · exact Or.inr (by simpa [new] using known)
      · rw [← whole]
        exact plain
      · rw [← whole, length_encodeLine]
        omega
  all_goals simp [parts] at run

theorem requestHead_run {raw : RawHead} {body : Body} {c : Connection σ} {rest : Bytes}
    (valid : raw.Valid) (announces : raw.Announces body)
    (unread : c.unread = encodeFields raw.fields ++ rest) :
    ∃ headers c', requestHead raw.line c = .ok (raw.head headers) c' ∧
      Collected raw.fields headers ∧ c'.unread = rest ∧ c'.body = body := by
  obtain ⟨after, d, read, collected, unread, -⟩ :=
    headers_run unread valid.fields valid.unambiguous
  have found := (framing_eq_some valid.unambiguous collected).mpr announces
  have notBoth := valid.unambiguous.not_both collected
  refine ⟨after, { d with body }, ?_, collected, unread, rfl⟩
  rw [lengthKey, codingKey] at notBoth
  unfold requestHead
  rw [split_line raw valid.name valid.space valid.version]
  simp only [ite_ok, throw_ok, bind_ok, and_false, false_or, Bool.or_eq_true,
    Bool.not_eq_true', not_or, Bool.not_eq_false, List.isEmpty_iff]
  refine ⟨⟨valid.name, valid.target⟩, ?_, after, d, read, by simp [notBoth], ?_⟩
  · rintro ⟨notNew, notOld⟩
    exact valid.version.elim notNew notOld
  · rw [RawHead.http11] at found
    simp only [found, setBody, bind_ok, modify_ok, pure_ok]
    exact ⟨(), _, rfl, rfl, rfl⟩

theorem readRequest_ok {c c' : Connection σ} {head : Head} (run : readRequest c = .ok head c') :
    ∃ raw : RawHead, ∃ headers, c.unread = raw.encode ++ c'.unread ∧ raw.Valid ∧
      Collected raw.fields headers ∧ head = raw.head headers ∧ raw.Announces c'.body := by
  simp only [readRequest, bind_ok, get_ok, ite_ok, throw_ok, and_false, false_or] at run
  obtain ⟨_, _, ⟨rfl, rfl⟩, -, text, d, first, run⟩ := run
  obtain ⟨consumed, plain, short⟩ := line_ok first
  obtain ⟨raw, headers, e, rfl, valid, collected, same, consumedFields, announces, final⟩ :=
    requestHead_ok plain short run
  refine ⟨raw, headers, ?_, valid, collected, same, announces⟩
  have unread := (consumed.trans consumedFields).unread
  rw [final]
  exact unread

theorem readRequest_run {raw : RawHead} {body : Body} {c : Connection σ} {rest : Bytes}
    (valid : raw.Valid) (announces : raw.Announces body) (finished : c.body = .empty)
    (unread : c.unread = raw.encode ++ rest) :
    ∃ headers c', readRequest c = .ok (raw.head headers) c' ∧ Collected raw.fields headers ∧
      c'.unread = rest ∧ c'.body = body := by
  rw [RawHead.encode, List.append_assoc] at unread
  have size := valid.size
  rw [length_encodeLine] at size
  obtain ⟨d, first, unread, -⟩ := line_run 8192 unread valid.line (by omega)
  obtain ⟨headers, c', run, facts⟩ := requestHead_run valid announces unread
  refine ⟨headers, c', ?_, facts⟩
  simp only [readRequest, bind_ok, get_ok, ite_ok, throw_ok, and_false, false_or]
  exact ⟨c, c, ⟨rfl, rfl⟩, by simp [finished], raw.line, d, first, run⟩

structure RawHead.FramedAs (raw : RawHead) (head : Head) (body : Body) : Prop where
  notBoth : valuesOf lengthKey raw.fields = [] ∨ valuesOf codingKey raw.fields = []
  once : ∀ key ∈ [str "host", str "authorization", lengthKey, codingKey],
    (valuesOf key raw.fields).length ≤ 1
  length : ∀ value ∈ valuesOf lengthKey raw.fields,
    value ≠ [] ∧ anyChar value RequestHeaders.nonDigit = false ∧
      ∃ n, Numerals.nat? 10 value = some n ∧ n ≤ 2147483647 ∧
        body = if n = 0 then .empty else .fixed n
  coding : ∀ value ∈ valuesOf codingKey raw.fields,
    toLower value = str "chunked" ∧ raw.version = str "HTTP/1.1" ∧ body = .chunked 0
  neither : valuesOf lengthKey raw.fields = [] → valuesOf codingKey raw.fields = [] →
    body = .empty
  keys : head.request.headers.keys = (raw.fields.map Field.key).eraseDups
  values : ∀ key, head.request.headers.get key = joined key (valuesOf key raw.fields)

theorem RawHead.Announces.framedAs {raw : RawHead} {headers : Headers} {body : Body}
    (announces : raw.Announces body) (unambiguous : Unambiguous raw.fields)
    (collected : Collected raw.fields headers) : raw.FramedAs (raw.head headers) body where
  notBoth := unambiguous.framing
  once := by
    have all : ∀ key ∈ [str "host", str "authorization", lengthKey, codingKey],
        RequestHeaders.single key = true := by decide
    intro key member
    apply unambiguous.single
    exact all key member
  length value member := by
    obtain ⟨nonempty, digits⟩ := unambiguous.digits value member
    refine ⟨nonempty, digits, ?_⟩
    cases announces with
    | nothing noLength => simp [noLength] at member
    | length other n only exact bound =>
      obtain rfl : value = other := by simpa [only] using member
      exact ⟨n, exact, bound, rfl⟩
    | chunked other only =>
      rcases unambiguous.framing with none | none
      · simp [none] at member
      · simp [none] at only
  coding value member := by
    cases announces with
    | nothing _ noCoding => simp [noCoding] at member
    | length other n only =>
      rcases unambiguous.framing with none | none
      · simp [none] at only
      · simp [none] at member
    | chunked other only same version =>
      obtain rfl : value = other := by simpa [only] using member
      exact ⟨same, version, rfl⟩
  neither noLength noCoding := by
    cases announces with
    | nothing => rfl
    | length other n only => simp [noLength] at only
    | chunked other only => simp [noCoding] at only
  keys := collected.keys
  values := collected.get

/-- `raw` is the head at the front of what `c` had left to read. -/
theorem readRequest_framing {c c' : Connection σ} {head : Head}
    (run : readRequest c = .ok head c') :
    ∃ raw : RawHead, c.unread = raw.encode ++ c'.unread ∧ raw.Lexical ∧
      raw.FramedAs head c'.body := by
  obtain ⟨raw, headers, unread, valid, collected, rfl, announces⟩ := readRequest_ok run
  exact ⟨raw, unread, valid.toLexical, announces.framedAs valid.unambiguous collected⟩

end

def upperCoding : RawHead where
  name := str "POST"
  target := str "/"
  version := str "HTTP/1.1"
  fields := [⟨str "Transfer-Encoding", str " CHUNKED"⟩]

def upperHeaders : Headers := OrderedMap.ofList [(codingKey, str "CHUNKED")]

theorem readRequest_upperCoding :
    readRequest (Connection.new upperCoding.encode) =
      .ok (upperCoding.head upperHeaders) ⟨[], [], .chunked 0⟩ :=
  value?_eq_some.mp (by decide +kernel)

theorem readRequest_framing_upperCoding :
    ∃ raw : RawHead, upperCoding.encode = raw.encode ++ [] ∧ raw.Lexical ∧
      raw.FramedAs (upperCoding.head upperHeaders) (.chunked 0) :=
  readRequest_framing readRequest_upperCoding

theorem coding_not_exact :
    readRequest (Connection.new upperCoding.encode) =
        .ok (upperCoding.head upperHeaders) ⟨[], [], .chunked 0⟩ ∧
      (upperCoding.head upperHeaders).request.headers.get codingKey ≠ some (str "chunked") :=
  ⟨readRequest_upperCoding, by decide⟩

end HttpServer.Framing
