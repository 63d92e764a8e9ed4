import HttpServer.Library.Fifo
import HttpServer.Tls.Rings
import Mathlib.Logic.Function.Basic

set_option autoImplicit false

/-!
# A reading and a writing task on one TLS connection

All tasks run on one thread. A task runs on until it waits for a gate or for the socket, so one
step is a call of the engine into a ring, a part of `feed_input` or `drain_output` between two
suspensions, or what the socket does meanwhile. Either task may be in either function.
-/

namespace HttpServer.Tls

inductive Task where
  | reader | writer
  deriving DecidableEq

inductive Place where
  -- it is in neither function
  | away
  | atInputGate
  -- `reader.read(in_scratch, max_len=cap)`, before and after the bytes have come
  | reading (cap : Nat)
  | read (n : Nat)
  | atOutputGate
  -- `writer.write(out_scratch[0:n])`, when the socket has taken `sent` of the bytes
  | writing (n sent : Nat)

inductive Outcome where
  -- `feed_input` returns; `false` is the end of the stream
  | fed (more : Bool)
  -- `drain_output` returns
  | drained
  -- `TlsUnexpectedEof`
  | unexpectedEof
  -- `TlsError::from_bridge(code)`
  | bridge (code : Int)
  -- the socket, or the cancelled wait, raises
  | raised

/-- `TlsConn`, the bridge's connection behind its `handle`, and what has happened so far. -/
structure State where
  conn : Conn
  inScratch : Cells UInt8 recordCap
  outScratch : Cells UInt8 drainCap
  inputGate : Option Task
  outputGate : Option Task
  closed : Bool
  place : Task → Place
  -- a socket write has raised with bytes of it unsent; the stream has ended there
  broken : Bool
  outcomes : List (Task × Outcome)
  /- history: what came from the socket, what the engine got of it, what the engine gave, and what
  the socket took of that -/
  received : List UInt8
  handedOut : List UInt8
  accepted : List UInt8
  written : List UInt8

namespace State

-- `TlsConn::create`.
def initial (input output : Cells UInt8 bufCap) : State where
  conn := .new input output
  inScratch := List.Vector.replicate recordCap 0
  outScratch := List.Vector.replicate drainCap 0
  inputGate := none
  outputGate := none
  closed := false
  place _ := .away
  broken := false
  outcomes := []
  received := []
  handedOut := []
  accepted := []
  written := []

def goto (s : State) (t : Task) (p : Place) : State := { s with place := Function.update s.place t p }

-- `defer self.input_gate.release()`.
def endFeed (s : State) (t : Task) (o : Outcome) : State :=
  { s.goto t .away with inputGate := none, outcomes := s.outcomes ++ [(t, o)] }

-- `defer self.output_gate.release()`.
def endDrain (s : State) (t : Task) (o : Outcome) : State :=
  { s.goto t .away with outputGate := none, outcomes := s.outcomes ++ [(t, o)] }

-- `feed_input` behind its gate, as far as the socket read.
def feedInput (s : State) (t : Task) : State :=
  if s.closed then s.endFeed t .unexpectedEof
  else
    let space := s.conn.inSpace
    if 0 < space then s.goto t (.reading (min space recordCap).toNat)
    else s.endFeed t (.fed true)

-- `feed_input` when the read has returned `n`.
def feedRead (s : State) (t : Task) (n : Nat) : State :=
  if s.closed then s.endFeed t .unexpectedEof
  else if n = 0 then s.endFeed t (.fed false)
  else
    let r := (s.conn.feed s.inScratch n).1
    let fed := { s with conn := (s.conn.feed s.inScratch n).2 }
    if r = n then fed.endFeed t (.fed true) else fed.endFeed t (.bridge r)

-- The loop of `drain_output`, as far as the next socket write.
def drainLoop (s : State) (t : Task) : State :=
  let pending := s.conn.outputPending
  if 0 < pending then
    let n := (s.conn.takeOutput s.outScratch pending).1
    let taken := { s with
      outScratch := (s.conn.takeOutput s.outScratch pending).2.1
      conn := (s.conn.takeOutput s.outScratch pending).2.2 }
    if 0 < n then taken.goto t (.writing n.toNat 0) else taken.endDrain t .drained
  else s.endDrain t .drained

-- `drain_output` behind its gate.
def drainOutput (s : State) (t : Task) : State :=
  if s.closed then s.endDrain t .unexpectedEof else s.drainLoop t

end State

inductive Label where
  | bioSend (buf : Buffer)
  | bioRecv (len : Nat)
  | feedInput (t : Task)
  | drainOutput (t : Task)
  -- the gate that `t` waits for is given to it
  | acquire (t : Task)
  | cancel (t : Task)
  | readReturns (t : Task) (bytes : List UInt8)
  | readRaises (t : Task)
  -- `t` goes on with what the read has returned
  | resume (t : Task)
  -- the socket takes the next `k` bytes
  | writes (t : Task) (k : Nat)
  | writeReturns (t : Task)
  | writeRaises (t : Task)

def step : Label → State → Option State
  | .bioSend buf, s =>
    some { s with
      conn := (s.conn.bioSend buf).2
      accepted := s.accepted ++ buf.bytes.take (s.conn.bioSend buf).1.toNat }
  | .bioRecv len, s =>
    some { s with
      conn := (s.conn.bioRecv len).2.2
      handedOut := s.handedOut ++ (s.conn.bioRecv len).2.1 }
  | .feedInput t, s =>
    match s.place t with
    | .away => some (s.goto t .atInputGate)
    | _ => none
  | .drainOutput t, s =>
    match s.place t with
    | .away => some (s.goto t .atOutputGate)
    | _ => none
  | .acquire t, s =>
    match s.place t with
    | .atInputGate =>
      if s.inputGate = none then some ({ s with inputGate := some t }.feedInput t) else none
    | .atOutputGate =>
      if s.outputGate = none then some ({ s with outputGate := some t }.drainOutput t) else none
    | _ => none
  | .cancel t, s =>
    match s.place t with
    | .atInputGate | .atOutputGate =>
      some { s.goto t .away with outcomes := s.outcomes ++ [(t, .raised)] }
    | _ => none
  | .readReturns t bytes, s =>
    match s.place t with
    | .reading cap =>
      -- the reader stays within `max_len`, and `max_len` within the array
      if room : bytes.length ≤ cap ∧ cap ≤ recordCap then
        some ({ s with
          inScratch := s.inScratch.write 0 bytes (by omega)
          received := s.received ++ bytes }.goto t (.read bytes.length))
      else none
    | _ => none
  | .readRaises t, s =>
    match s.place t with
    | .reading _ => some (s.endFeed t .raised)
    | _ => none
  | .resume t, s =>
    match s.place t with
    | .read n => some (s.feedRead t n)
    | _ => none
  | .writes t k, s =>
    match s.place t with
    | .writing n sent =>
      if s.broken = false ∧ sent + k ≤ n then
        some ({ s with written := s.written ++ s.outScratch.read sent k }.goto t
          (.writing n (sent + k)))
      else none
    | _ => none
  | .writeReturns t, s =>
    match s.place t with
    | .writing n sent => if sent = n then some (s.drainLoop t) else none
    | _ => none
  | .writeRaises t, s =>
    match s.place t with
    | .writing n sent => some { s.endDrain t .raised with broken := s.broken || sent < n }
    | _ => none

-- A new connection; `input` and `output` are what its rings hold before the first call.
def machine (input output : Cells UInt8 bufCap) : Machine State Label where
  init := .initial input output
  step := step

end HttpServer.Tls
