import HttpServer.Library.Numerals
import Mathlib.Data.List.TakeWhile

set_option autoImplicit false

/-!
# Responses as a client reads them

A client reads a status line and field lines. They tell where the body ends: before it begins, after
a number of bytes, or with the last chunk. Where only the end of the connection would tell, or the
fields contradict each other, there is no message to be read.
-/

namespace Messages

open Unicode Numerals

def ascii (s : String) : Bytes := s.toList.map fun c => UInt8.ofNat c.toNat

-- The line up to the first CR LF, and what follows it. Neither byte stands alone in a line.
def line : Bytes → Option (Bytes × Bytes)
  | [] => none
  | b :: rest =>
      if b = 0x0A then none
      else if b = 0x0D then
        match rest with
        | 0x0A :: rest => some ([], rest)
        | _ => none
      else (line rest).map fun found => (b :: found.1, found.2)

def tokenByte (b : UInt8) : Bool :=
  (0x30 ≤ b && b ≤ 0x39) || (0x41 ≤ b && b ≤ 0x5A) || (0x61 ≤ b && b ≤ 0x7A) ||
    (ascii "!#$%&'*+-.^_`|~").contains b

def blank (b : UInt8) : Bool := b == 0x20 || b == 0x09

def trimmed (value : Bytes) : Bytes :=
  ((value.dropWhile blank).reverse.dropWhile blank).reverse

abbrev Field := Bytes × Bytes

def field? (text : Bytes) : Option Field :=
  let name := text.takeWhile (· != 0x3A)
  match text.drop name.length with
  | _ :: value => if name ≠ [] ∧ name.all tokenByte then some (name, trimmed value) else none
  | [] => none

def fields : Nat → Bytes → Option (List Field × Bytes)
  | 0, _ => none
  | fuel + 1, bytes => do
      let (text, rest) ← line bytes
      if text = [] then return ([], rest)
      let first ← field? text
      let (others, rest) ← fields fuel rest
      return (first :: others, rest)

def lower (b : UInt8) : UInt8 := if 0x41 ≤ b ∧ b ≤ 0x5A then b + 0x20 else b

def values (name : Bytes) (list : List Field) : List Bytes :=
  (list.filter fun f => f.1.map lower == name.map lower).map Prod.snd

def units (bytes : Bytes) : Units := bytes.map fun b => UInt16.ofNat b.toNat

-- Chunks up to the last one, and the trailer fields behind it, which are dropped.
def chunks : Nat → Bytes → Option (Bytes × Bytes)
  | 0, _ => none
  | fuel + 1, bytes => do
      let (text, rest) ← line bytes
      let size ← nat? 16 (units (text.takeWhile (· != 0x3B)))
      if size = 0 then
        let (_, after) ← fields (rest.length + 1) rest
        return ([], after)
      let (gap, after) ← line (rest.drop size)
      if gap ≠ [] then none
      let (data, after) ← chunks fuel after
      return (rest.take size ++ data, after)

inductive Extent where
  | nothing
  | sized (n : Nat)
  | chunked
  | unending
  deriving DecidableEq

-- Where a body ends; `head` says that the request was a HEAD.
def extent (head : Bool) (status : Nat) (list : List Field) : Extent :=
  if head || status / 100 == 1 || status == 204 || status == 304 then .nothing
  else
    match values (ascii "transfer-encoding") list, values (ascii "content-length") list with
    | [coding], [] => if coding.map lower == ascii "chunked" then .chunked else .unending
    | [], [length] =>
        match nat? 10 (units length) with
        | some n => .sized n
        | none => .unending
    | _, _ => .unending

structure Message where
  status : Nat
  fields : List Field
  body : Bytes
  deriving DecidableEq

def status? (top : Bytes) : Option Nat :=
  if top.take 9 = ascii "HTTP/1.1 " ∧ (top.drop 12).head? = some 0x20 then
    nat? 10 (units ((top.drop 9).take 3))
  else none

def readBody : Extent → Bytes → Option (Bytes × Bytes)
  | .nothing, rest => some ([], rest)
  | .sized n, rest => if n ≤ rest.length then some (rest.take n, rest.drop n) else none
  | .chunked, rest => chunks (rest.length + 1) rest
  | .unending, _ => none

def read (head : Bool) (bytes : Bytes) : Option (Message × Bytes) := do
  let (top, rest) ← line bytes
  let status ← status? top
  let (list, rest) ← fields (rest.length + 1) rest
  let (body, rest) ← readBody (extent head status list) rest
  return (⟨status, list, body⟩, rest)

-- One message after another, each in answer to a request that `heads` tells about.
def readAll : List Bool → Bytes → Option (List Message × Bytes)
  | [], bytes => some ([], bytes)
  | head :: heads, bytes => do
      let (message, rest) ← read head bytes
      let (messages, rest) ← readAll heads rest
      return (message :: messages, rest)

-- Whatever follows, `bytes` are read as the whole of `message`.
def Delimits (head : Bool) (bytes : Bytes) (message : Message) : Prop :=
  ∀ rest, read head (bytes ++ rest) = some (message, rest)

structure LineText (text : Bytes) : Prop where
  noReturn : 0x0D ∉ text
  noFeed : 0x0A ∉ text

def closed (text : Bytes) : Bytes := text ++ [0x0D, 0x0A]

theorem line_closed {text : Bytes} (plain : LineText text) (rest : Bytes) :
    line (closed text ++ rest) = some (text, rest) := by
  induction text with
  | nil => rfl
  | cons b text ih =>
    have noReturn := plain.noReturn
    have noFeed := plain.noFeed
    rw [List.mem_cons, not_or] at noReturn noFeed
    have later := ih ⟨noReturn.2, noFeed.2⟩
    rw [closed] at later
    simp [closed, line, Ne.symm noReturn.1, Ne.symm noFeed.1] at later ⊢
    exact later

theorem LineText.append {s t : Bytes} (front : LineText s) (back : LineText t) : LineText (s ++ t) where
  noReturn member := (List.mem_append.mp member).elim front.noReturn back.noReturn
  noFeed member := (List.mem_append.mp member).elim front.noFeed back.noFeed

theorem line_empty (rest : Bytes) : line (closed [] ++ rest) = some ([], rest) := rfl

structure FieldText (f : Field) : Prop where
  notEmpty : f.1 ≠ []
  token : f.1.all tokenByte = true
  value : LineText f.2

def fieldLine (f : Field) : Bytes := closed (f.1 ++ 0x3A :: 0x20 :: f.2)

theorem token_ne {name : Bytes} (token : name.all tokenByte = true) {b : UInt8}
    (other : tokenByte b = false) : b ∉ name := by
  intro member
  have here := List.all_eq_true.mp token b member
  rw [other] at here
  cases here

theorem FieldText.line {f : Field} (text : FieldText f) : LineText (f.1 ++ 0x3A :: 0x20 :: f.2) := by
  have name : LineText f.1 :=
    ⟨token_ne text.token (by decide), token_ne text.token (by decide)⟩
  have value := text.value
  refine name.append ⟨?_, ?_⟩
  · simp [value.noReturn]
  · simp [value.noFeed]

@[simp] theorem trimmed_blank (value : Bytes) : trimmed (0x20 :: value) = trimmed value := by
  simp [trimmed, blank]

theorem field?_line {f : Field} (text : FieldText f) :
    field? (f.1 ++ 0x3A :: 0x20 :: f.2) = some (f.1, trimmed f.2) := by
  have colon : (0x3A : UInt8) ∉ f.1 := token_ne text.token (by decide)
  have name : (f.1 ++ 0x3A :: 0x20 :: f.2).takeWhile (· != 0x3A) = f.1 := by
    rw [List.takeWhile_append_of_pos]
    · simp
    · intro b member
      rw [bne_iff_ne]
      exact fun same => colon (same ▸ member)
  have token := text.token
  simp only [field?, name, List.drop_left]
  simp [text.notEmpty, token]

theorem trimmed_eq_self {value : Bytes} (plain : ∀ b ∈ value, blank b = false) :
    trimmed value = value := by
  have kept {list : Bytes} (same : ∀ b ∈ list, b ∈ value) : list.dropWhile blank = list := by
    cases list with
    | nil => rfl
    | cons b list => simp [plain b (same b List.mem_cons_self)]
  rw [trimmed, kept fun b member => member, kept fun b member => List.mem_reverse.mp member,
    List.reverse_reverse]

def Field.trimmed (f : Field) : Field := (f.1, Messages.trimmed f.2)

-- Well-formed field lines and the empty line behind them are read back.
theorem fields_lines {list : List Field} (texts : ∀ f ∈ list, FieldText f) {fuel : Nat}
    (enough : list.length < fuel) (rest : Bytes) :
    fields fuel (list.flatMap fieldLine ++ (closed [] ++ rest)) =
      some (list.map Field.trimmed, rest) := by
  induction list generalizing fuel with
  | nil =>
    cases fuel with
    | zero => cases enough
    | succ fuel => simp [fields, line_empty]
  | cons f list ih =>
    cases fuel with
    | zero => cases enough
    | succ fuel =>
      have text := texts f List.mem_cons_self
      have later := ih (fun g member => texts g (List.mem_cons_of_mem f member))
        (Nat.lt_of_succ_lt_succ enough)
      have some : f.1 ++ 0x3A :: 0x20 :: f.2 ≠ [] := by simp
      rw [List.flatMap_cons, fieldLine, List.append_assoc, fields, line_closed text.line]
      simp [some, field?_line text, later, Field.trimmed]

theorem length_le_lines (list : List Field) : list.length ≤ (list.flatMap fieldLine).length := by
  induction list with
  | nil => simp
  | cons f list ih =>
    rw [List.flatMap_cons, List.length_append, List.length_cons, fieldLine, closed]
    simp only [List.length_append, List.length_cons, List.length_nil]
    omega

def narrow (s : Units) : Bytes := s.map fun u => UInt8.ofNat u.toNat

def hex (n : Nat) : Bytes := narrow (numeral 16 n)

theorem units_narrow {s : Units} (small : ∀ u ∈ s, u.toNat < 0x80) : units (narrow s) = s := by
  have same : ∀ u ∈ s, UInt16.ofNat (UInt8.ofNat u.toNat).toNat = u := by
    intro u member
    have bound := small u member
    rw [toNat_ofNat (by omega), UInt16.ofNat_toNat]
  rw [units, narrow, List.map_map]
  exact (List.map_congr_left same).trans s.map_id

theorem encode_narrow {s : Units} (small : ∀ u ∈ s, u.toNat < 0x80) : encode s = narrow s := by
  induction s with
  | nil => rfl
  | cons u s ih =>
    have front := encode_append_ascii [] u s (small u List.mem_cons_self)
    rw [List.nil_append] at front
    rw [front, ih fun v member => small v (List.mem_cons_of_mem u member)]
    rfl

theorem mem_narrow {s : Units} (small : ∀ u ∈ s, u.toNat < 0x80) {b : UInt8} (member : b ∈ narrow s) :
    ∃ u ∈ s, u.toNat = b.toNat := by
  obtain ⟨u, inside, rfl⟩ := List.mem_map.mp member
  have bound := small u inside
  exact ⟨u, inside, (toNat_ofNat (by omega)).symm⟩

section

variable {base : Nat} (large : 1 < base) (small : base ≤ 16)

include large small

theorem numeral_ascii (n : Nat) : ∀ u ∈ numeral base n, u.toNat < 0x80 := by
  intro u member
  have range := numeral_range base large small n u member
  omega

theorem nat?_narrow (n : Nat) : nat? base (units (narrow (numeral base n))) = some n := by
  rw [units_narrow (numeral_ascii large small n), nat?_numeral large small]

theorem narrow_range (n : Nat) {b : UInt8} (member : b ∈ narrow (numeral base n)) :
    0x30 ≤ b.toNat ∧ b.toNat ≤ 0x39 ∨ 0x61 ≤ b.toNat ∧ b.toNat ≤ 0x7A ∨
      0x41 ≤ b.toNat ∧ b.toNat ≤ 0x5A := by
  obtain ⟨u, inside, same⟩ := mem_narrow (numeral_ascii large small n) member
  rw [← same]
  exact numeral_range base large small n u inside

theorem narrow_line (n : Nat) : LineText (narrow (numeral base n)) where
  noReturn member := by
    have range := narrow_range large small n member
    have value : (0x0D : UInt8).toNat = 13 := rfl
    omega
  noFeed member := by
    have range := narrow_range large small n member
    have value : (0x0A : UInt8).toNat = 10 := rfl
    omega

end

-- A decimal that stands alone in a field tells its number.
theorem decimal_value (n : Nat) :
    nat? 10 (units (trimmed (narrow (numeral 10 n)))) = some n := by
  have plain : ∀ b ∈ narrow (numeral 10 n), blank b = false := by
    intro b member
    have range := narrow_range (by decide) (by decide) n member
    rw [blank, Bool.or_eq_false_iff, beq_eq_false_iff_ne, beq_eq_false_iff_ne]
    constructor
    · rintro rfl
      exact absurd range (by decide)
    · rintro rfl
      exact absurd range (by decide)
  rw [trimmed_eq_self plain, nat?_narrow (by decide) (by decide)]

def chunk (data : Bytes) : Bytes := closed (hex data.length) ++ closed data

def lastChunk : Bytes := closed (ascii "0") ++ closed []

theorem hex_size (n : Nat) :
    nat? 16 (units ((hex n).takeWhile (· != 0x3B))) = some n := by
  have whole : (hex n).takeWhile (· != 0x3B) = hex n := by
    rw [List.takeWhile_eq_self_iff]
    intro b member
    have range := narrow_range (by decide) (by decide) n member
    rw [bne_iff_ne]
    rintro rfl
    have value : (0x3B : UInt8).toNat = 59 := rfl
    omega
  rw [whole, hex, nat?_narrow (by decide) (by decide)]

-- What is written in chunks that are not empty is read back.
theorem chunks_written {pieces : List Bytes} (notEmpty : ∀ data ∈ pieces, data ≠ []) {fuel : Nat}
    (enough : pieces.length < fuel) (rest : Bytes) :
    chunks fuel (pieces.flatMap chunk ++ (lastChunk ++ rest)) = some (pieces.flatten, rest) := by
  induction pieces generalizing fuel with
  | nil =>
    cases fuel with
    | zero => cases enough
    | succ fuel =>
      have zero : nat? 16 (units ((ascii "0").takeWhile (· != 0x3B))) = some 0 := by decide
      have plain : LineText (ascii "0") := ⟨by decide, by decide⟩
      have trailer := @fields_lines [] (by simp) ((closed []).length + rest.length + 1) (by simp) rest
      rw [List.flatMap_nil, List.nil_append] at trailer
      rw [List.flatMap_nil, List.nil_append, lastChunk, List.append_assoc, chunks,
        line_closed plain]
      simp [zero, trailer]
  | cons data pieces ih =>
    cases fuel with
    | zero => cases enough
    | succ fuel =>
      have later := ih (fun other member => notEmpty other (List.mem_cons_of_mem data member))
        (Nat.lt_of_succ_lt_succ enough)
      have size := hex_size data.length
      have positive : data.length ≠ 0 := fun none =>
        notEmpty data List.mem_cons_self (List.length_eq_zero_iff.mp none)
      have line : LineText (hex data.length) := narrow_line (by decide) (by decide) _
      rw [List.flatMap_cons, chunk, List.append_assoc, List.append_assoc, chunks, line_closed line]
      have gap (rest : Bytes) : closed data ++ rest = data ++ (closed [] ++ rest) := by
        simp [closed]
      rw [gap]
      simp [size, positive, line_empty, later]

theorem length_le_chunks (pieces : List Bytes) : pieces.length ≤ (pieces.flatMap chunk).length := by
  induction pieces with
  | nil => simp
  | cons data pieces ih =>
    rw [List.flatMap_cons, List.length_append, List.length_cons, chunk, closed]
    simp only [List.length_append, List.length_cons, List.length_nil]
    omega

def statusLine (status : Nat) (reason : Bytes) : Bytes :=
  ascii "HTTP/1.1 " ++ narrow (numeral 10 status) ++ 0x20 :: reason

def head (status : Nat) (reason : Bytes) (list : List Field) : Bytes :=
  closed (statusLine status reason) ++ list.flatMap fieldLine ++ closed []

inductive Body : Extent → Bytes → Bytes → Prop
  | nothing : Body .nothing [] []
  | sized (data : Bytes) : Body (.sized data.length) data data
  | chunked (pieces : List Bytes) (notEmpty : ∀ data ∈ pieces, data ≠ []) :
      Body .chunked (pieces.flatMap chunk ++ lastChunk) pieces.flatten

theorem readBody_written {extent : Extent} {bytes data : Bytes} (body : Body extent bytes data)
    (rest : Bytes) : readBody extent (bytes ++ rest) = some (data, rest) := by
  cases body with
  | nothing => rfl
  | sized => simp [readBody]
  | chunked pieces notEmpty =>
    have enough : pieces.length <
        (pieces.flatMap chunk ++ lastChunk ++ rest).length + 1 := by
      have shorter := length_le_chunks pieces
      simp only [List.length_append]
      omega
    rw [readBody, List.append_assoc]
    rw [List.append_assoc] at enough
    exact chunks_written notEmpty enough rest

section

variable {status : Nat} {reason : Bytes} {list : List Field}

theorem status?_line (three : (narrow (numeral 10 status)).length = 3) (reason : Bytes) :
    status? (statusLine status reason) = some status := by
  have version : (ascii "HTTP/1.1 ").length = 9 := by decide
  have front : (statusLine status reason).take 9 = ascii "HTTP/1.1 " := by
    rw [statusLine, List.append_assoc, List.take_left' version]
  have back : (statusLine status reason).drop 9 = narrow (numeral 10 status) ++ 0x20 :: reason := by
    rw [statusLine, List.append_assoc, List.drop_left' version]
  have digits : ((statusLine status reason).drop 9).take 3 = narrow (numeral 10 status) := by
    rw [back, List.take_left' three]
  have after : (statusLine status reason).drop 12 = 0x20 :: reason := by
    rw [show 12 = 9 + 3 from rfl, ← List.drop_drop, back, List.drop_left' three]
  rw [status?, front, after, digits, if_pos ⟨rfl, rfl⟩, nat?_narrow (by decide) (by decide)]

theorem statusLine_text (text : LineText reason) : LineText (statusLine status reason) := by
  have version : LineText (ascii "HTTP/1.1 ") := ⟨by decide, by decide⟩
  have digits : LineText (narrow (numeral 10 status)) := narrow_line (by decide) (by decide) status
  refine (version.append digits).append ⟨?_, ?_⟩
  · simp [text.noReturn]
  · simp [text.noFeed]

-- A head that is well formed, and the body that it tells about, make up one message.
theorem delimits {isHead : Bool} {bytes data : Bytes}
    (three : (narrow (numeral 10 status)).length = 3) (text : LineText reason)
    (texts : ∀ f ∈ list, FieldText f)
    (body : Body (extent isHead status (list.map Field.trimmed)) bytes data) :
    Delimits isHead (head status reason list ++ bytes)
      ⟨status, list.map Field.trimmed, data⟩ := by
  intro rest
  have enough : list.length < (list.flatMap fieldLine ++ (closed [] ++ (bytes ++ rest))).length + 1 := by
    have shorter := length_le_lines list
    simp only [List.length_append]
    omega
  have split : head status reason list ++ bytes ++ rest =
      closed (statusLine status reason) ++
        (list.flatMap fieldLine ++ (closed [] ++ (bytes ++ rest))) := by
    simp only [head, List.append_assoc]
  rw [split, read, line_closed (statusLine_text text)]
  simp only [Option.bind_eq_bind, Option.bind_some, status?_line three]
  rw [fields_lines texts enough, Option.bind_some, readBody_written body]
  rfl

end

inductive Exchange : List Bool → Bytes → List Message → Prop
  | done : Exchange [] [] []
  | next {isHead : Bool} {heads : List Bool} {bytes more : Bytes} {message : Message}
      {messages : List Message} (delimits : Delimits isHead bytes message)
      (later : Exchange heads more messages) :
      Exchange (isHead :: heads) (bytes ++ more) (message :: messages)

theorem Exchange.readAll {heads : List Bool} {bytes : Bytes} {messages : List Message}
    (exchange : Exchange heads bytes messages) (rest : Bytes) :
    Messages.readAll heads (bytes ++ rest) = some (messages, rest) := by
  induction exchange with
  | done => rfl
  | next delimits later ih =>
    rw [List.append_assoc, Messages.readAll, delimits]
    simp only [Option.bind_eq_bind, Option.bind_some, ih]
    rfl

end Messages
