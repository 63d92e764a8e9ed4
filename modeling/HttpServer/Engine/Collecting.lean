import HttpServer.Engine.Reading
import HttpServer.Native.Credits
import Mathlib.Logic.Relation

set_option autoImplicit false

namespace HttpServer.Bodies

open Unicode StateRun OrderedMap
open Native (Budget Pool PoolId hsIoReserve hsIoRelease)
open Engine (NativeError ServerError Raised mapNativeError)

structure Runtime where
  pool : PoolId
  budget : Budget
  closing : Bool
  closed : Bool

def Runtime.reserve (self : Runtime) (directory : Bool) (bytes : Int32) :
    Except NativeError Runtime :=
  if self.closing then throw .closed
  else
    match hsIoReserve self.budget self.pool directory bytes.toInt with
    | none => throw .overloaded
    | some budget => return { self with budget }

def Runtime.release (self : Runtime) (directory : Bool) (bytes : Int32) : Runtime :=
  if self.closed then self
  else { self with budget := hsIoRelease self.budget self.pool directory bytes.toInt }

section

variable {runtime : Runtime} {directory : Bool} {bytes : Int32}

theorem Runtime.reserve_cases (runtime : Runtime) (directory : Bool) (bytes : Int32) :
    (runtime.closing = true ∧ runtime.reserve directory bytes = .error .closed) ∨
    (hsIoReserve runtime.budget runtime.pool directory bytes.toInt = none ∧
      runtime.reserve directory bytes = .error .overloaded) ∨
    ∃ budget, runtime.closing = false ∧
      hsIoReserve runtime.budget runtime.pool directory bytes.toInt = some budget ∧
      runtime.reserve directory bytes = .ok { runtime with budget } := by
  unfold Runtime.reserve
  cases runtime.closing with
  | true => exact .inl ⟨rfl, rfl⟩
  | false =>
    cases hsIoReserve runtime.budget runtime.pool directory bytes.toInt with
    | none => exact .inr (.inl ⟨rfl, rfl⟩)
    | some budget => exact .inr (.inr ⟨budget, rfl, rfl, rfl⟩)

theorem Runtime.release_closed : (runtime.release directory bytes).closed = runtime.closed := by
  unfold Runtime.release
  split_ifs <;> rfl

theorem Runtime.release_closing : (runtime.release directory bytes).closing = runtime.closing := by
  unfold Runtime.release
  split_ifs <;> rfl

theorem Runtime.release_pool : (runtime.release directory bytes).pool = runtime.pool := by
  unfold Runtime.release
  split_ifs <;> rfl

theorem Runtime.release_budget (live : runtime.closed = false) :
    (runtime.release directory bytes).budget =
      hsIoRelease runtime.budget runtime.pool directory bytes.toInt := by
  rw [Runtime.release, live]
  rfl

end

/-- What the rest of the program does while a read waits. -/
structure Move where
  budget : Budget → Budget
  stops : Bool

/-- Body credits: of the pool, and of the budget that the pools share. -/
structure Share where
  owned : Int
  used : Int

/-- `granted` and `theirs` keep the books and decide nothing: the charges reserved by this call,
and what everybody else holds. -/
structure Collection where
  response : Response
  runtime : Runtime
  metadataCharge : Int32
  bodyCharge : Int32
  released : Bool
  buf : Bytes
  reserved : Int32
  moves : List Move
  granted : List Int32
  theirs : Share

abbrev Collect := EStateM (Option Raised) Collection

def owned (p : PoolId) (b : Budget) : Int := ((b.pools.get p).map (Pool.owned false)).getD 0

namespace Collection

-- Nobody gives back more than is theirs, and no pool ends under a call that uses it.
def moved (c : Collection) (move : Move) : Collection :=
  let budget := move.budget c.runtime.budget
  let theirs : Share := {
    owned := c.theirs.owned + (owned c.runtime.pool budget - owned c.runtime.pool c.runtime.budget)
    used := c.theirs.used + (budget.used false - c.runtime.budget.used false) }
  if (budget.pools.get c.runtime.pool).isSome ∧ 0 ≤ theirs.owned then
    { c with
      runtime := { c.runtime with budget, closing := c.runtime.closing || move.stops }
      theirs }
  else c

def waits (c : Collection) : Collection :=
  match c.moves with
  | [] => c
  | move :: moves => { c with moves }.moved move

-- `BodyState::close`
def close (c : Collection) : Collection :=
  let runtime :=
    match c.response.body with
    | .listing _ => if c.released then c.runtime else c.runtime.release true c.metadataCharge
    | _ => c.runtime
  { c with
    response := c.response.close
    runtime := if c.released then runtime else runtime.release false c.bodyCharge
    released := true }

-- `Response::read`, which closes a response that it has begun to read and could not.
def read : Collect Bytes := fun c =>
  match Bodies.read 65536 c.response with
  | .ok chunk response => .ok chunk { c with response }.waits
  | .error none response => .error none { c with response }
  | .error (some e) response =>
      let after := { c with response }.waits
      .error (some e) (if c.response.closed || c.response.reading then after else after.close)

def giveBack (c : Collection) : Collection :=
  { c with runtime := c.runtime.release false c.reserved }

end Collection

section

variable {α : Type}

-- A call that has not returned has not left its scope.
def deferred (last : Collection → Collection) (act : Collect α) : Collect α := fun c =>
  match act c with
  | .ok a after => .ok a (last after)
  | .error (some e) after => .error (some e) (last after)
  | .error none after => .error none after

def errdeferred (last : Collection → Collection) (act : Collect α) : Collect α := fun c =>
  match act c with
  | .ok a after => .ok a after
  | .error (some e) after => .error (some e) (last after)
  | .error none after => .error none after

end

-- One round of the loop; it says whether there is another.
def round (maxBytes : Int32) : Collect Bool := do
  let chunk ← Collection.read
  if chunk = [] then return false
  let c ← get
  if Int32.ofNat c.buf.length > maxBytes - Int32.ofNat chunk.length then
    throw (some (.server .overloaded))
  if Int32.ofNat chunk.length > (2147483647 - c.reserved) / 4 then
    throw (some (.server .overloaded))
  let charge := Int32.ofNat chunk.length * 4
  match c.runtime.reserve false charge with
  | .error e => throw (some (.server (mapNativeError (.native e))))
  | .ok runtime =>
      set { c with
        runtime
        reserved := c.reserved + charge
        granted := c.granted ++ [charge]
        buf := c.buf ++ chunk }
      return true

def collect (maxBytes : Int32) : Nat → Collect Bytes
  | 0 => throw none
  | fuel + 1 => do
      if ← round maxBytes then collect maxBytes fuel
      else return (← get).buf

-- A chunk holds a byte at the least, so what is left bounds the number of rounds.
def toBytes (maxBytes : Int32) : Collect Bytes :=
  errdeferred Collection.close do
    let c ← get
    if maxBytes < 0 || c.response.body.bodyLength - c.response.cursor > maxBytes.toInt64 then
      throw (some (.server .overloaded))
    deferred Collection.giveBack (collect maxBytes (c.response.left.length + 1))

/-- The pool owns `mine` body bytes, of `used` in all. -/
structure Credits (b : Budget) (p : PoolId) (mine used : Int) : Prop where
  present : (b.pools.get p).isSome
  mine : owned p b = mine
  used : b.used false = used

section

variable {b b' : Budget} {p : PoolId} {mine used bytes : Int}

theorem Credits.pool (credits : Credits b p mine used) :
    ∃ q, b.pools.get p = some q ∧ q.owned false = mine := by
  obtain ⟨q, present⟩ := Option.isSome_iff_exists.mp credits.present
  exact ⟨q, present, by simpa [owned, present] using credits.mine⟩

theorem credits_insert {q : Pool} {directory : Bool} (credits : Credits b p mine used)
    (present : b.pools.get p = some q) :
    Credits { b.use directory bytes with pools := b.pools.insert p (q.own directory bytes) } p
      (mine + if directory then 0 else bytes) (used + if directory then 0 else bytes) := by
  have before := credits.mine
  simp only [owned, present, Option.map_some, Option.getD_some] at before
  have changed := Native.used_use_same b directory false bytes
  refine ⟨by simp, ?_, ?_⟩
  · simp only [owned, get_insert_self, Option.map_some, Option.getD_some, Native.owned_own, before]
    cases directory <;> rfl
  · change (b.use directory bytes).used false = _
    rw [changed, credits.used]
    cases directory <;> rfl

theorem Credits.reserve (credits : Credits b p mine used)
    (granted : hsIoReserve b p false bytes = some b') :
    0 ≤ bytes ∧ Credits b' p (mine + bytes) (used + bytes) := by
  obtain ⟨rfl, positive, -⟩ := Native.reserve_some granted
  obtain ⟨q, present, -⟩ := credits.pool
  rw [modify_some present]
  exact ⟨positive, credits_insert credits present⟩

-- No more is given back than is owned, so that it is given back.
theorem Credits.release (credits : Credits b p mine used) (positive : 0 ≤ bytes)
    (enough : bytes ≤ mine) :
    Credits (hsIoRelease b p false bytes) p (mine - bytes) (used - bytes) := by
  obtain ⟨q, present, isOwned⟩ := credits.pool
  simp only [hsIoRelease, present]
  rw [if_pos ⟨positive, by omega⟩, modify_some present]
  exact credits_insert credits present

theorem Credits.release_directory (credits : Credits b p mine used) (bytes : Int) :
    Credits (hsIoRelease b p true bytes) p mine used := by
  obtain ⟨q, present, -⟩ := credits.pool
  simp only [hsIoRelease, present]
  split_ifs with enough
  · rw [modify_some present]
    have kept : Credits { b.use true (-bytes) with pools := b.pools.insert p (q.own true (-bytes)) } p
        (mine + 0) (used + 0) := credits_insert credits present
    rwa [Int.add_zero, Int.add_zero] at kept
  · exact credits

end

namespace Collection

-- The charge of the body itself, which `handle` reserved.
def held (c : Collection) : Int := if c.released then 0 else c.bodyCharge.toInt

/-- What the counters show is the others' share, the charge of the body, and `mine`. -/
structure Books (c : Collection) (mine : Int) : Prop where
  nonneg : 0 ≤ mine
  theirs : 0 ≤ c.theirs.owned
  charge : 0 ≤ c.bodyCharge.toInt
  stopped : c.runtime.closed = true → c.runtime.closing = true ∧ mine = 0
  credits : c.runtime.closed = false → Credits c.runtime.budget c.runtime.pool
    (c.theirs.owned + c.held + mine) (c.theirs.used + c.held + mine)

section

variable {c : Collection} {mine : Int}

theorem Books.held_nonneg (books : c.Books mine) : 0 ≤ c.held := by
  have charge := books.charge
  unfold held
  split_ifs <;> omega

theorem Books.response (books : c.Books mine) (response : Response) :
    Books { c with response } mine :=
  { books with }

theorem Books.moved (books : c.Books mine) (move : Move) : (c.moved move).Books mine := by
  unfold Collection.moved
  dsimp only
  split_ifs with allowed
  · obtain ⟨present, theirs⟩ := allowed
    refine ⟨books.nonneg, theirs, books.charge, ?_, ?_⟩
    · intro closed
      obtain ⟨closing, none⟩ := books.stopped closed
      exact ⟨by simp [closing], none⟩
    · intro live
      obtain ⟨-, isOwned, isUsed⟩ := books.credits live
      refine ⟨present, ?_, ?_⟩
      · dsimp only [held] at isOwned ⊢
        omega
      · dsimp only [held] at isUsed ⊢
        omega
  · exact books

theorem Books.waits (books : c.Books mine) : c.waits.Books mine := by
  unfold Collection.waits
  cases c.moves with
  | nil => exact books
  | cons move moves =>
    have next : Books { c with moves } mine := { books with }
    exact next.moved move

theorem Books.giveBack (books : c.Books mine) (exact : c.reserved.toInt = mine) :
    c.giveBack.Books 0 := by
  have theirs := books.theirs
  have held := books.held_nonneg
  refine ⟨Int.le_refl _, books.theirs, books.charge, ?_, ?_⟩
  · intro closed
    rw [Collection.giveBack, Runtime.release_closed] at closed
    rw [Collection.giveBack, Runtime.release_closing]
    exact ⟨(books.stopped closed).1, rfl⟩
  · intro live
    rw [Collection.giveBack, Runtime.release_closed] at live
    have credits := (books.credits live).release books.nonneg (by omega)
    rw [Collection.giveBack, Runtime.release_budget live, Runtime.release_pool, exact]
    simpa [Collection.held] using credits

theorem Books.release_directory (books : c.Books mine) (bytes : Int32) :
    Books { c with runtime := c.runtime.release true bytes } mine := by
  refine { books with stopped := ?_, credits := ?_ }
  · dsimp only
    rw [Runtime.release_closed, Runtime.release_closing]
    exact books.stopped
  · intro live
    dsimp only at live ⊢
    rw [Runtime.release_closed] at live
    rw [Runtime.release_budget live, Runtime.release_pool]
    exact (books.credits live).release_directory bytes.toInt

theorem Books.release_body (books : c.Books mine) (unreleased : c.released = false) :
    Books { c with runtime := c.runtime.release false c.bodyCharge, released := true } mine := by
  have nonneg := books.nonneg
  have theirs := books.theirs
  have charge := books.charge
  have isHeld : c.held = c.bodyCharge.toInt := by simp [Collection.held, unreleased]
  refine ⟨nonneg, theirs, charge, ?_, ?_⟩
  · dsimp only
    rw [Runtime.release_closed, Runtime.release_closing]
    exact books.stopped
  · intro live
    dsimp only at live ⊢
    rw [Runtime.release_closed] at live
    have credits := (books.credits live).release charge (by omega)
    rw [Runtime.release_budget live, Runtime.release_pool]
    have kept : c.theirs.owned + c.held + mine - c.bodyCharge.toInt = c.theirs.owned + 0 + mine := by
      omega
    have shared : c.theirs.used + c.held + mine - c.bodyCharge.toInt = c.theirs.used + 0 + mine := by
      omega
    rw [kept, shared] at credits
    exact credits

-- Closing gives the charge of the body back, and once only.
theorem Books.close (books : c.Books mine) : c.close.Books mine := by
  unfold Collection.close
  cases released : c.released with
  | true =>
    have same : Books { c with response := c.response.close } mine := books.response _
    cases body : c.response.body <;>
      simpa [released] using same
  | false =>
    have directory := (books.release_directory c.metadataCharge).release_body released
    have body := books.release_body released
    cases kind : c.response.body with
    | listing stream => simpa [released, kind] using directory.response c.response.close
    | empty => simpa [released, kind] using body.response c.response.close
    | bytes b => simpa [released, kind] using body.response c.response.close
    | fileRegion region => simpa [released, kind] using body.response c.response.close

end

end Collection

def Rounds (maxBytes : Int32) : Collection → Collection → Prop :=
  Relation.ReflTransGen fun c next => round maxBytes c = .ok true next

inductive Failure (maxBytes : Int32) (start : Collection) : Raised → Prop
  | exceeds (more : maxBytes.toInt < start.response.left.length) :
      Failure maxBytes start (.server .overloaded)
  | refused {c after : Collection} {chunk : Bytes} (reached : Rounds maxBytes start c)
      (read : c.read = .ok chunk after)
      (refused : hsIoReserve after.runtime.budget after.runtime.pool false (4 * chunk.length) = none) :
      Failure maxBytes start (.server .overloaded)
  | large (more : 2147483647 < 4 * (start.response.left.length : Int)) :
      Failure maxBytes start (.server .overloaded)
  | closing {c after : Collection} {chunk : Bytes} (reached : Rounds maxBytes start c)
      (read : c.read = .ok chunk after) (closing : after.runtime.closing = true) :
      Failure maxBytes start (.server .closed)
  | read {c after : Collection} {e : Raised} (reached : Rounds maxBytes start c)
      (failed : c.read = .error (some e) after) : Failure maxBytes start e

namespace Collection

/-- What is collected is the front of what `start` had left, four bytes reserved for each. -/
structure Collecting (maxBytes : Int32) (start c : Collection) : Prop where
  sound : c.response.Sound
  history : c.response.History
  whole : c.buf ++ c.response.left = start.response.left
  small : (c.buf.length : Int) ≤ maxBytes.toInt
  sum : c.reserved.toInt = (c.granted.map Int32.toInt).sum
  exact : c.reserved.toInt = 4 * c.buf.length
  books : c.Books c.reserved.toInt

structure Owing (c : Collection) : Prop where
  sum : c.reserved.toInt = (c.granted.map Int32.toInt).sum
  books : c.Books c.reserved.toInt

theorem waits_kept (c : Collection) : c.waits.response = c.response ∧ c.waits.buf = c.buf ∧
    c.waits.reserved = c.reserved ∧ c.waits.granted = c.granted := by
  unfold waits
  cases c.moves with
  | nil => exact ⟨rfl, rfl, rfl, rfl⟩
  | cons move moves =>
    dsimp only [moved]
    split_ifs <;> exact ⟨rfl, rfl, rfl, rfl⟩

section

variable {maxBytes : Int32} {start c after : Collection} {chunk : Bytes}

theorem read_ok (run : c.read = .ok chunk after) :
    ∃ response, Bodies.read 65536 c.response = .ok chunk response ∧
      after = waits { c with response } := by
  unfold Collection.read at run
  split at run
  next piece response result =>
    obtain ⟨rfl, rfl⟩ := EStateM.Result.ok.inj run
    exact ⟨response, result, rfl⟩
  next => cases run
  next => cases run

theorem read_stuck (run : c.read = .error none after) :
    ∃ response, Bodies.read 65536 c.response = .error none response := by
  unfold Collection.read at run
  split at run
  next => cases run
  next response result => exact ⟨response, result⟩
  next => cases run

theorem Owing.waits (owing : Owing c) : Owing c.waits := by
  obtain ⟨-, -, reserved, granted⟩ := c.waits_kept
  exact ⟨by rw [reserved, granted]; exact owing.sum, by rw [reserved]; exact owing.books.waits⟩

theorem Owing.close (owing : Owing c) : Owing c.close :=
  ⟨owing.sum, owing.books.close⟩

theorem Owing.response (owing : Owing c) (response : Response) : Owing { c with response } :=
  ⟨owing.sum, owing.books.response response⟩

theorem Owing.read_failed {e : Raised} (owing : Owing c) (run : c.read = .error (some e) after) :
    Owing after := by
  unfold Collection.read at run
  split at run
  next => cases run
  next => cases run
  next e' response result =>
    obtain ⟨-, rfl⟩ := EStateM.Result.error.inj run
    split_ifs
    · exact (owing.response response).waits
    · exact (owing.response response).waits.close

theorem Collecting.owing (collecting : Collecting maxBytes start c) : Owing c :=
  ⟨collecting.sum, collecting.books⟩

structure Chunk (maxBytes : Int32) (start c after : Collection) (chunk : Bytes) : Prop where
  sound : after.response.Sound
  history : after.response.History
  left : c.response.left = chunk ++ after.response.left
  short : chunk.length ≤ 65536
  ended : chunk = [] → c.response.left = []
  buf : after.buf = c.buf
  reserved : after.reserved = c.reserved
  granted : after.granted = c.granted
  owing : Owing after

theorem Collecting.read (collecting : Collecting maxBytes start c)
    (run : c.read = .ok chunk after) : Chunk maxBytes start c after chunk := by
  obtain ⟨response, result, rfl⟩ := read_ok run
  obtain ⟨delivers, -⟩ := Bodies.read_ok collecting.sound collecting.history result
  obtain ⟨same, buf, reserved, granted⟩ := waits_kept { c with response }
  have request := delivers.request
  have limit : (65536 : Int32).toInt = 65536 := by decide
  exact {
    sound := by rw [same]; exact delivers.sound
    history := by
      rw [same]
      intro region body
      have before := delivers.kind region body
      exact (delivers.file region before).2.history (collecting.history region before)
    left := by rw [same]; exact delivers.left
    short := by omega
    ended := delivers.ended
    buf
    reserved
    granted
    owing := (collecting.owing.response response).waits }

theorem length_toInt {n : Nat} (small : n < 2147483648) : (Int32.ofNat n).toInt = n :=
  Int32.toInt_ofNat_of_lt small

theorem room_iff {k n : Nat} (small : (k : Int) ≤ maxBytes.toInt) (short : n ≤ 65536) :
    Int32.ofNat k > maxBytes - Int32.ofNat n ↔ maxBytes.toInt < k + n := by
  have high := Int32.toInt_lt maxBytes
  have piece := @length_toInt n (by omega)
  have room : (maxBytes - Int32.ofNat n).toInt = maxBytes.toInt - n := by
    rw [MachineInt.sub32] <;> rw [piece] <;> omega
  rw [gt_iff_lt, Int32.lt_iff_toInt_lt, room, length_toInt (by omega)]
  omega

theorem charge_toInt {n : Nat} (short : n ≤ 65536) : (Int32.ofNat n * 4).toInt = 4 * n := by
  have piece := @length_toInt n (by omega)
  have four : (4 : Int32).toInt = 4 := by decide
  rw [MachineInt.mul32] <;> rw [piece, four] <;> omega

theorem charge_iff {reserved : Int32} {n : Nat} (nonneg : 0 ≤ reserved.toInt)
    (short : n ≤ 65536) :
    Int32.ofNat n > (2147483647 - reserved) / 4 ↔ 2147483647 < reserved.toInt + 4 * n := by
  have high := Int32.toInt_lt reserved
  have piece := @length_toInt n (by omega)
  have four : (4 : Int32).toInt = 4 := by decide
  have top : (2147483647 : Int32).toInt = 2147483647 := by decide
  have room : (2147483647 - reserved).toInt = 2147483647 - reserved.toInt := by
    rw [MachineInt.sub32] <;> rw [top] <;> omega
  have quarter : ((2147483647 - reserved) / 4).toInt = (2147483647 - reserved.toInt) / 4 := by
    rw [MachineInt.div32 (by omega) (by omega), room, four]
  rw [gt_iff_lt, Int32.lt_iff_toInt_lt, quarter, piece]
  omega

theorem round_last (read : c.read = .ok [] after) :
    Bodies.round maxBytes c = .ok false after := by
  rw [Bodies.round, bind_of_ok read]
  rfl

theorem round_read_error {e : Option Raised} (read : c.read = .error e after) :
    Bodies.round maxBytes c = .error e after := by
  rw [Bodies.round, bind_of_error read]

-- A round that has read a chunk, with the guards in plain numbers.
theorem Collecting.round_eq (collecting : Collecting maxBytes start c)
    (read : c.read = .ok chunk after) (nonempty : chunk ≠ []) :
    Bodies.round maxBytes c =
      if maxBytes.toInt < c.buf.length + chunk.length then
        .error (some (.server .overloaded)) after
      else if 2147483647 < 4 * ((c.buf.length : Int) + chunk.length) then
        .error (some (.server .overloaded)) after
      else
        match after.runtime.reserve false (Int32.ofNat chunk.length * 4) with
        | .error e => .error (some (.server (mapNativeError (.native e)))) after
        | .ok runtime => .ok true { after with
            runtime
            reserved := after.reserved + Int32.ofNat chunk.length * 4
            granted := after.granted ++ [Int32.ofNat chunk.length * 4]
            buf := after.buf ++ chunk } := by
  have piece := collecting.read read
  have nonneg := collecting.exact
  have room := @room_iff maxBytes after.buf.length chunk.length
    (by rw [piece.buf]; exact collecting.small) piece.short
  have charge := @charge_iff after.reserved chunk.length (by rw [piece.reserved]; omega) piece.short
  have sum : 2147483647 < after.reserved.toInt + 4 * (chunk.length : Int) ↔
      2147483647 < 4 * ((c.buf.length : Int) + chunk.length) := by
    rw [piece.reserved]
    omega
  rw [piece.buf] at room
  rw [Bodies.round, bind_of_ok read, if_neg nonempty,
    bind_of_ok (show (get : Collect Collection) after = .ok after after from rfl)]
  dsimp only
  rw [piece.buf]
  by_cases more : maxBytes.toInt < c.buf.length + chunk.length
  · rw [if_pos (room.mpr more), if_pos more]
    rfl
  · rw [if_neg (mt room.mp more), if_neg more]
    by_cases large : 2147483647 < 4 * ((c.buf.length : Int) + chunk.length)
    · rw [if_pos (charge.mpr (sum.mpr large)), if_pos large]
      rfl
    · rw [if_neg (mt (fun exceeds => sum.mp (charge.mp exceeds)) large), if_neg large]
      cases after.runtime.reserve false (Int32.ofNat chunk.length * 4) with
      | error e => rfl
      | ok runtime => rfl

inductive Rounded (maxBytes : Int32) (c : Collection) :
    EStateM.Result (Option Raised) Collection Bool → Prop
  | unread {e : Option Raised} {after : Collection} (read : c.read = .error e after) :
      Rounded maxBytes c (.error e after)
  | last {after : Collection} (read : c.read = .ok [] after) : Rounded maxBytes c (.ok false after)
  | exceeds {chunk : Bytes} {after : Collection} (read : c.read = .ok chunk after)
      (more : maxBytes.toInt < c.buf.length + chunk.length) :
      Rounded maxBytes c (.error (some (.server .overloaded)) after)
  | large {chunk : Bytes} {after : Collection} (read : c.read = .ok chunk after)
      (more : 2147483647 < 4 * ((c.buf.length : Int) + chunk.length)) :
      Rounded maxBytes c (.error (some (.server .overloaded)) after)
  | closing {chunk : Bytes} {after : Collection} (read : c.read = .ok chunk after)
      (closing : after.runtime.closing = true) :
      Rounded maxBytes c (.error (some (.server .closed)) after)
  | refused {chunk : Bytes} {after : Collection} (read : c.read = .ok chunk after)
      (none : hsIoReserve after.runtime.budget after.runtime.pool false
        (Int32.ofNat chunk.length * 4).toInt = none) :
      Rounded maxBytes c (.error (some (.server .overloaded)) after)
  | granted {chunk : Bytes} {after : Collection} {budget : Budget} (read : c.read = .ok chunk after)
      (nonempty : chunk ≠ []) (room : (c.buf.length : Int) + chunk.length ≤ maxBytes.toInt)
      (small : 4 * ((c.buf.length : Int) + chunk.length) ≤ 2147483647)
      (live : after.runtime.closing = false)
      (granted : hsIoReserve after.runtime.budget after.runtime.pool false
        (Int32.ofNat chunk.length * 4).toInt = some budget) :
      Rounded maxBytes c (.ok true { after with
        runtime := { after.runtime with budget }
        reserved := after.reserved + Int32.ofNat chunk.length * 4
        granted := after.granted ++ [Int32.ofNat chunk.length * 4]
        buf := after.buf ++ chunk })

theorem Collecting.rounded (collecting : Collecting maxBytes start c) :
    Rounded maxBytes c (Bodies.round maxBytes c) := by
  cases read : c.read with
  | error e after =>
    rw [round_read_error read]
    exact .unread read
  | ok chunk after =>
    by_cases nonempty : chunk = []
    · subst nonempty
      rw [round_last read]
      exact .last read
    · rw [collecting.round_eq read nonempty]
      split_ifs with more large
      · exact .exceeds read more
      · exact .large read large
      · obtain ⟨closing, result⟩ | ⟨none, result⟩ | ⟨budget, live, granted, result⟩ :=
          after.runtime.reserve_cases false (Int32.ofNat chunk.length * 4)
        · rw [result]
          exact .closing read closing
        · rw [result]
          exact .refused read none
        · rw [result]
          exact .granted read nonempty (by omega) (by omega) live granted

theorem Owing.grant {budget : Budget} {charge : Int32} (owing : Owing c)
    (live : c.runtime.closing = false) (nonneg : 0 ≤ c.reserved.toInt)
    (granted : hsIoReserve c.runtime.budget c.runtime.pool false charge.toInt = some budget)
    (moved : (c.reserved + charge).toInt = c.reserved.toInt + charge.toInt) (buf : Bytes) :
    Owing { c with
      runtime := { c.runtime with budget }
      reserved := c.reserved + charge
      granted := c.granted ++ [charge]
      buf } := by
  have books := owing.books
  have isOpen : c.runtime.closed = false := by
    by_contra closed
    rw [Bool.not_eq_false] at closed
    have closing := (books.stopped closed).1
    rw [live] at closing
    cases closing
  obtain ⟨positive, credits⟩ := (books.credits isOpen).reserve granted
  constructor
  · simp only [List.map_append, List.map_cons, List.map_nil, List.sum_append, List.sum_singleton]
    rw [moved, owing.sum]
  · refine ⟨?_, books.theirs, books.charge, ?_, ?_⟩
    · dsimp only
      omega
    · intro closed
      dsimp only at closed
      rw [isOpen] at closed
      cases closed
    · intro _
      dsimp only
      rw [moved, ← Int.add_assoc, ← Int.add_assoc]
      exact credits

theorem Collecting.granted {chunk : Bytes} {budget : Budget} (collecting : Collecting maxBytes start c)
    (read : c.read = .ok chunk after) (nonempty : chunk ≠ [])
    (room : (c.buf.length : Int) + chunk.length ≤ maxBytes.toInt)
    (small : 4 * ((c.buf.length : Int) + chunk.length) ≤ 2147483647)
    (live : after.runtime.closing = false)
    (granted : hsIoReserve after.runtime.budget after.runtime.pool false
      (Int32.ofNat chunk.length * 4).toInt = some budget) :
    Collecting maxBytes start { after with
        runtime := { after.runtime with budget }
        reserved := after.reserved + Int32.ofNat chunk.length * 4
        granted := after.granted ++ [Int32.ofNat chunk.length * 4]
        buf := after.buf ++ chunk } ∧ after.response.left.length < c.response.left.length := by
  have piece := collecting.read read
  have exact := collecting.exact
  have charge := charge_toInt piece.short
  have before : after.reserved.toInt = 4 * c.buf.length := by rw [piece.reserved, exact]
  have moved : (after.reserved + Int32.ofNat chunk.length * 4).toInt =
      after.reserved.toInt + (Int32.ofNat chunk.length * 4).toInt := by
    rw [MachineInt.add32] <;> rw [charge] <;> omega
  have owing := piece.owing.grant live (by omega) granted moved (after.buf ++ chunk)
  have some := List.length_pos_iff.mpr nonempty
  have left := congrArg List.length piece.left
  rw [List.length_append] at left
  exact ⟨{
    sound := piece.sound
    history := piece.history
    whole := by
      dsimp only
      rw [piece.buf, List.append_assoc, ← piece.left, collecting.whole]
    small := by
      dsimp only
      rw [piece.buf, List.length_append]
      push_cast
      omega
    sum := owing.sum
    exact := by
      dsimp only
      rw [moved, charge, before, piece.buf, List.length_append]
      push_cast
      omega
    books := owing.books }, by omega⟩

-- A round that goes on has moved a chunk, and has reserved for it.
theorem Collecting.round_more (collecting : Collecting maxBytes start c)
    (run : Bodies.round maxBytes c = .ok true after) :
    Collecting maxBytes start after ∧ after.response.left.length < c.response.left.length := by
  have rounded := collecting.rounded
  rw [run] at rounded
  cases rounded with
  | granted read nonempty room small live granted =>
    exact collecting.granted read nonempty room small live granted

-- The round that finds nothing has collected everything.
theorem Collecting.round_done (collecting : Collecting maxBytes start c)
    (run : Bodies.round maxBytes c = .ok false after) :
    after.buf = start.response.left ∧ (after.buf.length : Int) ≤ maxBytes.toInt ∧ Owing after := by
  have rounded := collecting.rounded
  rw [run] at rounded
  cases rounded with
  | last read =>
    have piece := collecting.read read
    have whole := collecting.whole
    rw [piece.ended rfl, List.append_nil] at whole
    rw [piece.buf]
    exact ⟨whole, collecting.small, piece.owing⟩

theorem Collecting.round_failed {e : Raised} (collecting : Collecting maxBytes start c)
    (reached : Rounds maxBytes start c)
    (run : Bodies.round maxBytes c = .error (some e) after) :
    Owing after ∧ Failure maxBytes start e := by
  -- What was collected and the chunk that is too much were all left at the start.
  have total {chunk : Bytes} (read : c.read = .ok chunk after) :
      c.buf.length + chunk.length ≤ start.response.left.length := by
    have whole := congrArg List.length collecting.whole
    rw [(collecting.read read).left, List.length_append, List.length_append] at whole
    omega
  have rounded := collecting.rounded
  rw [run] at rounded
  cases rounded with
  | unread read => exact ⟨collecting.owing.read_failed read, .read reached read⟩
  | exceeds read more =>
    have total := total read
    exact ⟨(collecting.read read).owing, .exceeds (by omega)⟩
  | large read more =>
    have total := total read
    exact ⟨(collecting.read read).owing, .large (by omega)⟩
  | closing read closing => exact ⟨(collecting.read read).owing, .closing reached read closing⟩
  | refused read none =>
    rw [charge_toInt (collecting.read read).short] at none
    exact ⟨(collecting.read read).owing, .refused reached read none⟩

theorem Collecting.round_stuck (collecting : Collecting maxBytes start c)
    (run : Bodies.round maxBytes c = .error none after) :
    ∃ response, Bodies.read 65536 c.response = .error none response := by
  have rounded := collecting.rounded
  rw [run] at rounded
  cases rounded with
  | unread read => exact read_stuck read

-- A read that never answers.
def Stuck (maxBytes : Int32) (start : Collection) : Prop :=
  ∃ c response, Rounds maxBytes start c ∧ Bodies.read 65536 c.response = .error none response

def Collected (maxBytes : Int32) (start : Collection) :
    EStateM.Result (Option Raised) Collection Bytes → Prop
  | .ok bytes after =>
      bytes = start.response.left ∧ (bytes.length : Int) ≤ maxBytes.toInt ∧ Owing after
  | .error (some e) after => Failure maxBytes start e ∧ Owing after
  | .error none _ => Stuck maxBytes start

theorem Collecting.collect {fuel : Nat} (collecting : Collecting maxBytes start c)
    (reached : Rounds maxBytes start c) (enough : c.response.left.length < fuel) :
    Collected maxBytes start (Bodies.collect maxBytes fuel c) := by
  -- Every round that goes on leaves less to read.
  induction fuel generalizing c with
  | zero => omega
  | succ fuel ih =>
    rw [Bodies.collect]
    cases run : Bodies.round maxBytes c with
    | error e after =>
      rw [bind_of_error run]
      cases e with
      | none =>
        obtain ⟨response, failed⟩ := collecting.round_stuck run
        exact ⟨c, response, reached, failed⟩
      | some e =>
        obtain ⟨owing, failure⟩ := collecting.round_failed reached run
        exact ⟨failure, owing⟩
    | ok again after =>
      rw [bind_of_ok run]
      cases again with
      | true =>
        obtain ⟨next, shorter⟩ := collecting.round_more run
        exact ih next (reached.tail run) (by omega)
      | false => exact collecting.round_done run

theorem Collecting.rounds (collecting : Collecting maxBytes start start)
    (reached : Rounds maxBytes start c) : Collecting maxBytes start c := by
  induction reached with
  | refl => exact collecting
  | tail _ run ih => exact (ih.round_more run).1

structure Begins (c : Collection) : Prop where
  sound : c.response.Sound
  history : c.response.History
  cursor : 0 ≤ c.response.cursor.toInt
  buf : c.buf = []
  reserved : c.reserved = 0
  granted : c.granted = []
  books : c.Books 0

structure Settled (c : Collection) : Prop where
  sum : c.reserved.toInt = (c.granted.map Int32.toInt).sum
  books : c.Books 0

theorem Begins.collecting (begins : Begins c) (nonneg : 0 ≤ maxBytes.toInt) :
    Collecting maxBytes c c where
  sound := begins.sound
  history := begins.history
  whole := by rw [begins.buf]; rfl
  small := by rw [begins.buf]; exact nonneg
  sum := by rw [begins.reserved, begins.granted]; rfl
  exact := by rw [begins.reserved, begins.buf]; rfl
  books := by rw [begins.reserved]; exact begins.books

theorem Begins.settled (begins : Begins c) : Settled c :=
  ⟨by rw [begins.reserved, begins.granted]; rfl, begins.books⟩

theorem Owing.settled (owing : Owing c) : Settled c.giveBack :=
  ⟨owing.sum, owing.books.giveBack rfl⟩

theorem Settled.close (settled : Settled c) : Settled c.close :=
  ⟨settled.sum, settled.books.close⟩

-- The check in advance refuses nothing that would fit; a listing has no length to check.
theorem Begins.exceeds (begins : Begins c) (nonneg : 0 ≤ maxBytes.toInt)
    (more : c.response.body.bodyLength - c.response.cursor > maxBytes.toInt64) :
    maxBytes.toInt < c.response.left.length := by
  have low := begins.cursor
  have top := Int64.toInt_lt c.response.cursor
  have fits := begins.sound.body
  rw [gt_iff_lt, Int64.lt_iff_toInt_lt, Int32.toInt_toInt64] at more
  unfold Response.left
  cases body : c.response.body with
  | empty =>
    have none : c.response.cursor.toInt = 0 := by simpa [body, PlanBody.Fits] using fits
    have zero : (0 : Int64).toInt = 0 := by decide
    rw [body, PlanBody.bodyLength, MachineInt.sub64 (by omega) (by omega), zero] at more
    omega
  | bytes b =>
    have bound := b.bound
    have length : (Int64.ofNat b.data.length).toInt = b.data.length :=
      Int64.toInt_ofNat_of_lt (by omega)
    rw [body, PlanBody.bodyLength, MachineInt.sub64 (by omega) (by omega), length] at more
    rw [PlanBody.left, List.length_drop]
    omega
  | fileRegion region =>
    have length := region.bytes_length
    have size := region.size
    have high := Int64.toInt_lt region.length
    rw [body, PlanBody.bodyLength, MachineInt.sub64 (by omega) (by omega)] at more
    rw [PlanBody.left, List.length_drop]
    omega
  | listing stream =>
    have minus : (-1 : Int64).toInt = -1 := by decide
    rw [body, PlanBody.bodyLength, MachineInt.sub64 (by omega) (by omega), minus] at more
    omega

end

end Collection

/-- What a call is owed: the whole remainder, or a failure with its reason; in either case no credit
of its own is left, and no sum of charges has wrapped on the way. -/
structure Bounded (maxBytes : Int32) (c : Collection)
    (result : EStateM.Result (Option Raised) Collection Bytes) : Prop where
  returned : ∀ bytes after, result = .ok bytes after →
    bytes = c.response.left ∧ (bytes.length : Int) ≤ maxBytes.toInt ∧ after.Settled
  raised : ∀ e after, result = .error (some e) after →
    Failure maxBytes c e ∧ after.response.closed = true ∧ after.released = true ∧ after.Settled
  stuck : ∀ after, result = .error none after → Collection.Stuck maxBytes c
  sums : 0 ≤ maxBytes.toInt → ∀ d, Rounds maxBytes c d →
    d.reserved.toInt = (d.granted.map Int32.toInt).sum ∧ d.reserved.toInt = 4 * d.buf.length

theorem toBytes_eq (maxBytes : Int32) (c : Collection) :
    toBytes maxBytes c =
      if maxBytes < 0 || c.response.body.bodyLength - c.response.cursor > maxBytes.toInt64 then
        .error (some (.server .overloaded)) c.close
      else
        match collect maxBytes (c.response.left.length + 1) c with
        | .ok bytes after => .ok bytes after.giveBack
        | .error (some e) after => .error (some e) after.giveBack.close
        | .error none after => .error none after := by
  rw [toBytes, errdeferred, bind_of_ok (show (get : Collect Collection) c = .ok c c from rfl)]
  by_cases checked : maxBytes < 0 ||
      c.response.body.bodyLength - c.response.cursor > maxBytes.toInt64
  · rw [if_pos checked, if_pos checked]
    rfl
  · rw [if_neg checked, if_neg checked]
    unfold deferred
    beta_reduce
    cases collect maxBytes (c.response.left.length + 1) c with
    | ok bytes after => rfl
    | error e after => cases e <;> rfl

/-- Every body, cursor and limit, and whatever the budget and the rest of the program do. -/
theorem toBytes_bounded {c : Collection} (maxBytes : Int32) (begins : c.Begins) :
    Bounded maxBytes c (toBytes maxBytes c) := by
  have zero : (0 : Int32).toInt = 0 := by decide
  have sums : 0 ≤ maxBytes.toInt → ∀ d, Rounds maxBytes c d →
      d.reserved.toInt = (d.granted.map Int32.toInt).sum ∧ d.reserved.toInt = 4 * d.buf.length := by
    intro nonneg d reached
    have collecting := (begins.collecting nonneg).rounds reached
    exact ⟨collecting.sum, collecting.exact⟩
  rw [toBytes_eq]
  by_cases checked : maxBytes < 0 ||
      c.response.body.bodyLength - c.response.cursor > maxBytes.toInt64
  · rw [if_pos checked]
    have exceeds : maxBytes.toInt < c.response.left.length := by
      rw [Bool.or_eq_true, decide_eq_true_eq, decide_eq_true_eq, Int32.lt_iff_toInt_lt, zero]
        at checked
      by_cases negative : maxBytes.toInt < 0
      · omega
      · exact begins.exceeds (by omega) (checked.resolve_left negative)
    refine ⟨?_, ?_, ?_, sums⟩
    · intro bytes after result
      cases result
    · intro e after result
      obtain ⟨same, rfl⟩ := EStateM.Result.error.inj result
      obtain rfl := Option.some.inj same
      exact ⟨.exceeds exceeds, rfl, rfl, begins.settled.close⟩
    · intro after result
      cases result
  · rw [if_neg checked]
    have nonneg : 0 ≤ maxBytes.toInt := by
      rw [Bool.or_eq_true, not_or, decide_eq_true_eq, Int32.lt_iff_toInt_lt, zero] at checked
      omega
    have outcome := (begins.collecting nonneg).collect .refl (Nat.lt_succ_self _)
    cases result : collect maxBytes (c.response.left.length + 1) c with
    | ok bytes final =>
      rw [result] at outcome
      obtain ⟨whole, short, owing⟩ := outcome
      refine ⟨?_, ?_, ?_, sums⟩
      · intro bytes after result
        obtain ⟨rfl, rfl⟩ := EStateM.Result.ok.inj result
        exact ⟨whole, short, owing.settled⟩
      · intro e after result
        cases result
      · intro after result
        cases result
    | error e final =>
      rw [result] at outcome
      cases e with
      | none =>
        refine ⟨?_, ?_, ?_, sums⟩
        · intro bytes after result
          cases result
        · intro e after result
          cases result
        · intro after _
          exact outcome
      | some e =>
        obtain ⟨failure, owing⟩ := outcome
        refine ⟨?_, ?_, ?_, sums⟩
        · intro bytes after result
          cases result
        · intro e' after result
          obtain ⟨same, rfl⟩ := EStateM.Result.error.inj result
          obtain rfl := Option.some.inj same
          exact ⟨failure, rfl, rfl, owing.settled.close⟩
        · intro after result
          cases result

def shelf : Pool where
  capacity := 4
  workerLimit := 1
  connectionLimit := 8
  bodyLimit := 64
  directoryLimit := 64
  stopping := false
  count := 0
  active := 0
  bodyOwned := 6
  directoryOwned := 0

-- Somebody else reserves while the first read waits.
def visitor : Collection where
  response := Response.start (.fileRegion greetingPart) 3 (quiet 60)
  runtime := {
    pool := 0
    budget := {
      stopping := false
      refs := 1
      queued := 0
      active := 0
      connections := 0
      body := 6
      directory := 0
      threadCount := 1
      pools := OrderedMap.ofList [(0, shelf)]
      queue := []
      workers := ∅ }
    closing := false
    closed := false }
  metadataCharge := 0
  bodyCharge := 6
  released := false
  buf := []
  reserved := 0
  moves := [⟨fun b => (hsIoReserve b 0 false 20).getD b, false⟩]
  granted := []
  theirs := ⟨0, 0⟩

def result? : EStateM.Result (Option Raised) Collection Bytes → Option Bytes
  | .ok bytes _ => some bytes
  | .error _ _ => none

theorem visitor_begins : visitor.Begins where
  sound := start_sound trivial (by decide)
  history := by
    intro region body
    obtain rfl := PlanBody.fileRegion.inj body
    exact .unchanged fun moment member => congrArg Native.Moment.file (List.mem_replicate.mp member).2
  cursor := by decide
  buf := rfl
  reserved := rfl
  granted := rfl
  books := by
    refine ⟨by decide, by decide, by decide, by simp [visitor], fun _ => ⟨by decide, by decide, by decide⟩⟩

theorem toBytes_bounded_visitor : ∃ after,
    toBytes 7 visitor = .ok greetingPart.bytes after ∧ after.Settled := by
  have finished : result? (toBytes 7 visitor) = some greetingPart.bytes := by decide +kernel
  have bounded := toBytes_bounded 7 visitor_begins
  cases run : toBytes 7 visitor with
  | error e after => simp [run, result?] at finished
  | ok bytes after =>
    rw [run] at finished bounded
    obtain rfl := Option.some.inj finished
    exact ⟨after, rfl, (bounded.returned _ after rfl).2.2⟩

end HttpServer.Bodies
