import HttpServer.Core.Request

set_option autoImplicit false

namespace HttpServer.Framing

open Unicode Text HttpServer.Core

/-- A source of bytes: a read of at most `n` delivers a piece of what is left, an empty
piece only at the end. How the pieces fall is the transport's choice. -/
class Reader (σ : Type) where
  read : σ → Nat → Bytes × σ
  unread : σ → Bytes
  read_append : ∀ s n, (read s n).1 ++ unread (read s n).2 = unread s
  read_length : ∀ s n, (read s n).1.length ≤ n
  read_progress : ∀ s n, 0 < n → unread s ≠ [] → (read s n).1 ≠ []

instance : Reader Bytes where
  read bytes n := (bytes.take n, bytes.drop n)
  unread bytes := bytes
  read_append bytes n := List.take_append_drop n bytes
  read_length bytes n := List.length_take_le n bytes
  read_progress bytes n positive more := by
    simp only [ne_eq, List.take_eq_nil_iff, not_or]
    exact ⟨by omega, more⟩

inductive ReadError where
  | invalid
  | limit
  | readerClosed
  deriving DecidableEq

inductive Body where
  | empty
  | fixed (remaining : Nat)
  | chunked (remaining : Nat)
  deriving DecidableEq

/-- `pending` holds the bytes between the source's `start` and `end` marks. -/
structure Connection (σ : Type) where
  source : σ
  pending : Bytes
  body : Body
  deriving DecidableEq

structure Head where
  request : Request
  http11 : Bool
  keepAlive : Bool
  deriving DecidableEq

abbrev ReadM (σ : Type) := EStateM ReadError (Connection σ)

def Connection.new {σ : Type} (source : σ) : Connection σ := ⟨source, [], .empty⟩

section Reading

variable {σ : Type} [Reader σ]

def directRead (maxLen : Nat) : ReadM σ Bytes := fun c =>
  if c.pending = [] then
    let (bytes, source) := Reader.read c.source maxLen
    .ok bytes { c with source }
  else .ok (c.pending.take maxLen) { c with pending := c.pending.drop maxLen }

-- The library's `read_exactly`, which takes what it needs through `_direct_read`.
def readExactly : Nat → Nat → ReadM σ Bytes
  | _, 0 => pure []
  | 0, _ => throw .readerClosed
  | fuel + 1, n => do
      let bytes ← directRead n
      if bytes = [] then throw .readerClosed
      else return bytes ++ (← readExactly fuel (n - bytes.length))

def byte : ReadM σ UInt8 := fun c =>
  match c.pending with
  | b :: rest => .ok b { c with pending := rest }
  | [] =>
      let (bytes, source) := Reader.read c.source 8192
      match bytes with
      | [] => .error .readerClosed { c with source }
      | b :: rest => .ok b { c with source, pending := rest }

-- The first argument is how many more bytes fit: `limit + 1 - bytes.length()`.
def lineLoop : Nat → Bytes → ReadM σ Str
  | 0, _ => throw .limit
  | room + 1, bytes => do
      let b ← byte
      if b = 0x0D then
        let next ← byte
        if next ≠ 0x0A then throw .invalid
        else match decode bytes with
          | some text => return text
          | none => throw .invalid
      else if b = 0x0A ∨ b = 0x00 then throw .invalid
      else lineLoop room (bytes ++ [b])

def line (limit : Nat) : ReadM σ Str := lineLoop (limit + 1) []

def hasToken (value wanted : Str) : Bool :=
  (split (toLower value) (unit ',')).any fun item => trim item == wanted

-- The 101st field line raises, so 101 rounds are enough.
def headersLoop : Nat → Nat → Nat → Headers → ReadM σ Headers
  | 0, _, _, _ => throw .limit
  | rounds + 1, used, count, headers => do
      let text ← line (16384 - used)
      let used := used + (encode text).length + 2
      if 16384 < used then throw .limit
      else if text.isEmpty then return headers
      else if 100 < count + 1 then throw .limit
      else match find text (unit ':') with
        | none => throw .invalid
        | some colon =>
            let key := toLower (text.take colon)
            match RequestHeaders.add headers key (text.drop (colon + 1)) with
            | none => throw .invalid
            | some headers => headersLoop rounds used (count + 1) headers

def headers : ReadM σ Headers := headersLoop 101 0 0 ∅

-- `parse_int` on a string of digits of the base: exact, or an error past `Int32`.
def parseInt (s : Str) (base : Nat) : Option Nat :=
  match Numerals.nat? base s with
  | some n => if n ≤ 2147483647 then some n else none
  | none => none

def framing (http11 : Bool) (headers : Headers) : Option Body :=
  match headers.get (str "transfer-encoding") with
  | some value =>
      if !http11 || toLower value != str "chunked" then none else some (.chunked 0)
  | none =>
      match headers.get (str "content-length") with
      | some value =>
          if value.isEmpty || anyChar value RequestHeaders.nonDigit then none
          else match parseInt value 10 with
            | none => none
            | some n => some (if n = 0 then .empty else .fixed n)
      | none => some .empty

def method (name : Str) : Method :=
  if name = str "GET" then .get else if name = str "HEAD" then .head else .other name

def keepAlive (http11 : Bool) (headers : Headers) : Bool :=
  let connection := (headers.get (str "connection")).getD []
  !hasToken connection (str "close") && (http11 || hasToken connection (str "keep-alive"))

def setBody (body : Body) : ReadM σ Unit := modify fun c => { c with body }

def requestHead (text : Str) : ReadM σ Head :=
  match split text (unit ' ') with
  | [name, target, version] =>
      if !RequestHeaders.token name || target.isEmpty then throw .invalid
      else if version ≠ str "HTTP/1.1" ∧ version ≠ str "HTTP/1.0" then throw .invalid
      else do
        let http11 := version == str "HTTP/1.1"
        let headers ← headers
        if headers.contains (str "transfer-encoding") && headers.contains (str "content-length")
        then throw .invalid
        else match framing http11 headers with
          | none => throw .invalid
          | some body => do
              setBody body
              return { request := { meth := method name, target, headers }
                       http11
                       keepAlive := keepAlive http11 headers }
  | _ => throw .invalid

def readRequest : ReadM σ Head := do
  let c ← get
  if c.body ≠ .empty then throw .invalid
  else requestHead (← line 8192)

def hasBody (c : Connection σ) : Bool := c.body ≠ .empty

def nonHex (c : Nat) : Bool :=
  !(0x30 ≤ c && c ≤ 0x39 || 0x61 ≤ c && c ≤ 0x66 || 0x41 ≤ c && c ≤ 0x46)

def chunkSize (text : Str) : Option Nat :=
  let raw := (split text (unit ';')).head (List.splitOn_ne_nil _ _)
  if raw.isEmpty || anyChar raw nonHex then none else parseInt raw 16

def trailerKey (key : Str) : Bool :=
  key == str "content-length" || key == str "transfer-encoding" || key == str "host"

-- `some n`: a block of `n` bytes is open; `none`: the body has ended.
def openBlock : ReadM σ (Option Nat) := do
  let c ← get
  match c.body with
  | .empty => return none
  | .fixed n => return some n
  | .chunked (n + 1) => return some (n + 1)
  | .chunked 0 =>
      let text ← line 8192
      match chunkSize text with
      | none => throw .invalid
      | some 0 =>
          let trailers ← headers
          if trailers.keys.any trailerKey then throw .invalid
          else do
            setBody .empty
            return none
      | some (n + 1) =>
          setBody (.chunked (n + 1))
          return some (n + 1)

def expectCrlf : ReadM σ Unit := do
  let bytes ← readExactly 2 2
  if bytes ≠ [0x0D, 0x0A] then throw .invalid else return

def advanceBody (n remaining : Nat) : ReadM σ Unit := do
  let c ← get
  match c.body with
  | .fixed _ => setBody (if n = remaining then .empty else .fixed (remaining - n))
  | .chunked _ =>
      if n = remaining then expectCrlf
      setBody (.chunked (remaining - n))
  | .empty => return

-- `dst` is any buffer of `maxLen` bytes; the result is what was written into it.
def readBody (maxLen : Nat) : ReadM σ Bytes := do
  match ← openBlock with
  | none => return []
  | some remaining =>
      let bytes ← directRead (min maxLen remaining)
      if bytes = [] then throw .readerClosed
      else do
        advanceBody bytes.length remaining
        return bytes

def drainLoop : Nat → ReadM σ Unit
  | 0 => throw .readerClosed
  | fuel + 1 => do
      let bytes ← readBody 8192
      if bytes = [] then return else drainLoop fuel

def Connection.unread (c : Connection σ) : Bytes := c.pending ++ Reader.unread c.source

@[simp] theorem Connection.unread_setBody (c : Connection σ) (body : Body) :
    Connection.unread { c with body } = c.unread := rfl

-- Every round of the source's loop but the last takes at least one byte.
def drain : ReadM σ Unit := fun c => drainLoop (c.unread.length + 1) c

end Reading

end HttpServer.Framing
