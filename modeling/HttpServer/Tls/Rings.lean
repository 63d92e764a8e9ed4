import HttpServer.Library.Cells

set_option autoImplicit false

/-!
# The ciphertext rings of a TLS connection

The TLS engine calls `hs_tls_bio_send` and `hs_tls_bio_recv`, the transport calls the functions
that are exported to it. All of them run on one thread and none is interrupted.
-/

namespace HttpServer.Tls

-- `HS_TLS_BUF_CAP`.
def bufCap : Nat := 16384 + 512

def recordCap : Nat := 16384

def drainCap : Nat := 16384 + 512

-- `HS_TLS_ERR`.
def tlsErr (code : Int) : Int := -(1000000 - code)

def badHandle : Int := tlsErr (-0x7F02)

def overflow : Int := tlsErr (-0x7F03)

-- `MBEDTLS_ERR_SSL_WANT_READ`.
def wantRead : Int := -0x6900

-- `MBEDTLS_ERR_SSL_WANT_WRITE`.
def wantWrite : Int := -0x6880

-- Arithmetic of `size_t`.
def sizeT (n : Nat) : Nat := n % 2 ^ 64

/-- The bytes that a pointer and a length name; no object is longer than `PTRDIFF_MAX`. -/
structure Buffer where
  bytes : List UInt8
  small : bytes.length < 2 ^ 63

/-- `hs_tls_conn_t`; `live` is that its `magic` is `HS_TLS_CONN_MAGIC`. -/
structure Conn where
  live : Bool
  -- ciphertext from the peer, fed by the transport
  input : Cells UInt8 bufCap
  inLen : Nat
  -- ciphertext for the peer, drained by the transport
  output : Cells UInt8 bufCap
  outLen : Nat
  inFits : inLen ≤ bufCap
  outFits : outLen ≤ bufCap

namespace Conn

-- `http_server_tls_conn_new`; `input` and `output` are what `malloc` returned.
def new (input output : Cells UInt8 bufCap) : Conn where
  live := true
  input := input
  inLen := 0
  output := output
  outLen := 0
  inFits := Nat.zero_le bufCap
  outFits := Nat.zero_le bufCap

def inBytes (c : Conn) : List UInt8 := c.input.read 0 c.inLen

def outBytes (c : Conn) : List UInt8 := c.output.read 0 c.outLen

variable (c : Conn)

theorem length_inBytes : c.inBytes.length = c.inLen :=
  c.input.length_read (by rw [Nat.zero_add]; exact c.inFits)

theorem length_outBytes : c.outBytes.length = c.outLen :=
  c.output.length_read (by rw [Nat.zero_add]; exact c.outFits)

theorem room_of_not_full {c : Conn} {buf : Buffer}
    (full : ¬ bufCap < sizeT (c.outLen + buf.bytes.length)) :
    c.outLen + buf.bytes.length ≤ bufCap := by
  have fits := c.outFits
  have small := buf.small
  unfold sizeT bufCap at *
  omega

theorem room_of_fits {fill n : Nat} (fits : fill ≤ bufCap) : 0 + (fill - n) ≤ bufCap := by
  omega

-- The result, and the connection afterwards.
def bioSend (buf : Buffer) : Int × Conn :=
  if full : bufCap < sizeT (c.outLen + buf.bytes.length) then
    let take := bufCap - c.outLen
    if take = 0 then (wantWrite, c)
    else
      (take, { c with
        output := c.output.write c.outLen (buf.bytes.take take)
          (by have fits := c.outFits; rw [List.length_take]; omega)
        outLen := c.outLen + take
        outFits := by have fits := c.outFits; omega })
  else
    (buf.bytes.length, { c with
      output := c.output.write c.outLen buf.bytes (room_of_not_full full)
      outLen := c.outLen + buf.bytes.length
      outFits := room_of_not_full full })

-- The result, the bytes that were put in the caller's buffer of `len` bytes, and the connection.
def bioRecv (len : Nat) : Int × List UInt8 × Conn :=
  if c.inLen = 0 then (wantRead, [], c)
  else
    let n := min len c.inLen
    (n, c.input.read 0 n, { c with
      input := c.input.move 0 n (c.inLen - n) (room_of_fits c.inFits)
      inLen := c.inLen - n
      inFits := Nat.le_trans (Nat.sub_le c.inLen n) c.inFits })

-- `len` is an `int32_t`, so that the sum does not wrap.
def feed {size : Nat} (buf : Cells UInt8 size) (len : Int) : Int × Conn :=
  if !c.live then (badHandle, c)
  else if len ≤ 0 then (0, c)
  else if full : bufCap < c.inLen + len.toNat then (overflow, c)
  else
    (len, { c with
      input := c.input.write c.inLen (buf.read 0 len.toNat)
        (by have most := buf.length_read_le 0 len.toNat; omega)
      inLen := c.inLen + len.toNat
      inFits := Nat.le_of_not_lt full })

def inSpace : Int := if !c.live then badHandle else (bufCap : Int) - c.inLen

-- The result, the caller's buffer and the connection.
def takeOutput (buf : Cells UInt8 drainCap) (cap : Int) : Int × Cells UInt8 drainCap × Conn :=
  if !c.live then (badHandle, buf, c)
  else if cap ≤ 0 ∨ c.outLen = 0 then (0, buf, c)
  else
    let n := min cap.toNat c.outLen
    (n, buf.write 0 (c.output.read 0 n)
        (by
          have most := c.output.length_read_le 0 n
          have fits : c.outLen ≤ drainCap := c.outFits
          omega),
      { c with
        output := c.output.move 0 n (c.outLen - n) (room_of_fits c.outFits)
        outLen := c.outLen - n
        outFits := Nat.le_trans (Nat.sub_le c.outLen n) c.outFits })

def outputPending : Int := if !c.live then badHandle else c.outLen

variable {c}

@[simp] theorem bioSend_live (buf : Buffer) : (c.bioSend buf).2.live = c.live := by
  unfold bioSend
  dsimp only
  split_ifs <;> rfl

@[simp] theorem bioSend_inBytes (buf : Buffer) : (c.bioSend buf).2.inBytes = c.inBytes := by
  unfold bioSend
  dsimp only
  split_ifs <;> rfl

@[simp] theorem bioSend_inLen (buf : Buffer) : (c.bioSend buf).2.inLen = c.inLen := by
  unfold bioSend
  dsimp only
  split_ifs <;> rfl

-- What the engine is told to have been taken is what the ring grew by.
theorem bioSend_outBytes (buf : Buffer) :
    (c.bioSend buf).2.outBytes = c.outBytes ++ buf.bytes.take (c.bioSend buf).1.toNat := by
  have small := buf.small
  have fits := c.outFits
  unfold bioSend
  dsimp only
  split_ifs with full none
  · simp [wantWrite]
  · have enough : (buf.bytes.take (bufCap - c.outLen)).length = bufCap - c.outLen := by
      rw [List.length_take]
      unfold sizeT bufCap at *
      omega
    exact c.output.read_write_behind (by omega) enough
  · rw [Int.toNat_natCast, List.take_length]
    exact c.output.read_write_behind (room_of_not_full full) rfl

@[simp] theorem bioRecv_live (len : Nat) : (c.bioRecv len).2.2.live = c.live := by
  unfold bioRecv
  split_ifs <;> rfl

@[simp] theorem bioRecv_outBytes (len : Nat) : (c.bioRecv len).2.2.outBytes = c.outBytes := by
  unfold bioRecv
  split_ifs <;> rfl

theorem bioRecv_inLen (len : Nat) : (c.bioRecv len).2.2.inLen ≤ c.inLen := by
  unfold bioRecv
  split_ifs
  · exact Nat.le_refl _
  · exact Nat.sub_le _ _

theorem bioRecv_inBytes (len : Nat) : c.inBytes = (c.bioRecv len).2.1 ++ (c.bioRecv len).2.2.inBytes := by
  unfold bioRecv
  split_ifs
  · rfl
  · have moved := c.input.read_move_front (Nat.min_le_right len c.inLen) c.inFits
      (room_of_fits c.inFits)
    exact moved.symm

theorem feed_taken {size : Nat} (buf : Cells UInt8 size) {n : Nat} (live : c.live = true)
    (some : 0 < n) (inside : n ≤ size) (room : c.inLen + n ≤ bufCap) :
    (c.feed buf n).1 = n ∧ (c.feed buf n).2.live = true ∧ (c.feed buf n).2.inLen = c.inLen + n ∧
      (c.feed buf n).2.inBytes = c.inBytes ++ buf.read 0 n ∧
      (c.feed buf n).2.outBytes = c.outBytes := by
  have taken : (buf.read 0 n).length = n := buf.length_read (by omega)
  have behind := c.input.read_write_behind (by omega : c.inLen + (buf.read 0 n).length ≤ bufCap) taken
  have positive : ¬ (n : Int) ≤ 0 := by omega
  have fits : ¬ bufCap < c.inLen + (n : Int).toNat := by omega
  unfold feed
  rw [dif_neg fits]
  simp only [live, Bool.not_true, Bool.false_eq_true, if_false, positive, true_and]
  exact ⟨rfl, behind, rfl⟩

-- A call that does not return `len` has changed nothing.
theorem feed_refused {size : Nat} {buf : Cells UInt8 size} {len : Int}
    (refused : (c.feed buf len).1 ≠ len) : (c.feed buf len).2 = c := by
  unfold feed at refused ⊢
  split_ifs with dead none full
  · rfl
  · rfl
  · rfl
  · rw [if_neg dead, if_neg none, dif_neg full] at refused
    exact absurd rfl refused

theorem takeOutput_live (buf : Cells UInt8 drainCap) (cap : Int) :
    (c.takeOutput buf cap).2.2.live = c.live := by
  unfold takeOutput
  split_ifs <;> rfl

theorem takeOutput_inLen (buf : Cells UInt8 drainCap) (cap : Int) :
    (c.takeOutput buf cap).2.2.inLen = c.inLen := by
  unfold takeOutput
  split_ifs <;> rfl

theorem takeOutput_inBytes (buf : Cells UInt8 drainCap) (cap : Int) :
    (c.takeOutput buf cap).2.2.inBytes = c.inBytes := by
  unfold takeOutput
  split_ifs <;> rfl

-- What is pending is taken as a whole: it is now at the front of `buf`.
theorem takeOutput_pending (buf : Cells UInt8 drainCap) (live : c.live = true) :
    (c.takeOutput buf c.outputPending).1 = c.outLen ∧
      (c.takeOutput buf c.outputPending).2.1.read 0 c.outLen = c.outBytes ∧
      (c.takeOutput buf c.outputPending).2.2.outBytes = [] := by
  have pending : c.outputPending = c.outLen := by simp [outputPending, live]
  rw [pending]
  by_cases empty : c.outLen = 0
  · have nothing : c.takeOutput buf c.outLen = (0, buf, c) := by simp [takeOutput, live, empty]
    have bytes : c.outBytes = [] := by rw [outBytes, empty, Cells.read_zero]
    rw [nothing, empty, bytes]
    exact ⟨rfl, rfl, rfl⟩
  · have fits : c.outLen ≤ drainCap := c.outFits
    have size : (c.output.read 0 c.outLen).length = c.outLen := c.length_outBytes
    have some : ¬ ((c.outLen : Int) ≤ 0 ∨ c.outLen = 0) := by omega
    unfold takeOutput
    simp only [live, Bool.not_true, Bool.false_eq_true, if_false, some, Int.toNat_natCast,
      Nat.min_self, Nat.sub_self]
    exact ⟨trivial, buf.read_write (by omega) size, Cells.read_zero _ 0⟩

end Conn

end HttpServer.Tls
