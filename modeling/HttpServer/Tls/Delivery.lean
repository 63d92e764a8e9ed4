import HttpServer.Tls.Gates

set_option autoImplicit false

/-!
# The rings deliver what is put in them

Each direction is a queue: from the socket through `in_scratch` and the input ring to the engine,
and from the engine through the output ring and `out_scratch` to the socket.
-/

namespace HttpServer.Tls

namespace State

-- Bytes that a socket read has returned and that are not in the ring yet.
def inFlight (s : State) : List UInt8 :=
  match s.inputGate.map s.place with
  | some (.read n) => s.inScratch.read 0 n
  | _ => []

-- Bytes that have left the ring and that the socket has not taken yet.
def unsent (s : State) : List UInt8 :=
  match s.outputGate.map s.place with
  | some (.writing n sent) => s.outScratch.read sent (n - sent)
  | _ => []

def inbound (s : State) : Fifo UInt8 where
  put := s.received
  held := s.conn.inBytes ++ s.inFlight
  got := s.handedOut

def outbound (s : State) : Fifo UInt8 where
  put := s.accepted
  held := s.unsent ++ s.conn.outBytes
  got := s.written

section

variable {s s' : State} {t : Task}

theorem inFlight_free (free : s.inputGate = none) : s.inFlight = [] := by
  simp [inFlight, free]

theorem inFlight_reading {cap : Nat} (gate : s.inputGate = some t)
    (reading : s.place t = .reading cap) : s.inFlight = [] := by
  simp [inFlight, gate, reading]

theorem inFlight_read {n : Nat} (gate : s.inputGate = some t) (read : s.place t = .read n) :
    s.inFlight = s.inScratch.read 0 n := by
  simp [inFlight, gate, read]

theorem holder_place {gate : Option Task} {place : Task → Place} {p : Place} (other : gate ≠ some t) :
    gate.map (Function.update place t p) = gate.map place := by
  cases gate with
  | none => rfl
  | some holder =>
    have different : holder ≠ t := fun same => other (by rw [same])
    rw [Option.map_some, Option.map_some, Function.update_of_ne different]

theorem inFlight_other {p : Place} (gate : s'.inputGate = s.inputGate) (other : s.inputGate ≠ some t)
    (scratch : s'.inScratch = s.inScratch) (place : s'.place = Function.update s.place t p) :
    s'.inFlight = s.inFlight := by
  unfold inFlight
  rw [gate, scratch, place, holder_place other]

theorem unsent_free (free : s.outputGate = none) : s.unsent = [] := by
  simp [unsent, free]

theorem unsent_writing {n sent : Nat} (gate : s.outputGate = some t)
    (writing : s.place t = .writing n sent) : s.unsent = s.outScratch.read sent (n - sent) := by
  simp [unsent, gate, writing]

theorem unsent_other {p : Place} (gate : s'.outputGate = s.outputGate)
    (other : s.outputGate ≠ some t) (scratch : s'.outScratch = s.outScratch)
    (place : s'.place = Function.update s.place t p) : s'.unsent = s.unsent := by
  unfold unsent
  rw [gate, scratch, place, holder_place other]

theorem Safe.length_unsent (safe : s.Safe) : s.unsent.length ≤ drainCap := by
  unfold unsent
  split
  · rename_i n sent writing
    obtain ⟨t, gate, place⟩ := Option.map_eq_some_iff.mp writing
    have fits := safe.here place
    have most := s.outScratch.length_read_le sent (n - sent)
    have small := fits.2.2
    omega
  · exact Nat.zero_le drainCap

theorem inbound_rest (received : s'.received = s.received)
    (held : s'.conn.inBytes ++ s'.inFlight = s.conn.inBytes ++ s.inFlight)
    (handedOut : s'.handedOut = s.handedOut) : Fifo.Step bufCap s.inbound s'.inbound := by
  have same : s'.inbound = s.inbound := by
    unfold inbound
    rw [received, held, handedOut]
  rw [same]
  exact .rest _

theorem outbound_rest (accepted : s'.accepted = s.accepted)
    (held : s'.unsent ++ s'.conn.outBytes = s.unsent ++ s.conn.outBytes)
    (written : s'.written = s.written) :
    Fifo.Step (drainCap + bufCap) s.outbound s'.outbound := by
  have same : s'.outbound = s.outbound := by
    unfold outbound
    rw [accepted, held, written]
  rw [same]
  exact .rest _

theorem inbound_aside {p : Place} (other : s.inputGate ≠ some t) (gate : s'.inputGate = s.inputGate)
    (scratch : s'.inScratch = s.inScratch) (place : s'.place = Function.update s.place t p)
    (received : s'.received = s.received) (ring : s'.conn.inBytes = s.conn.inBytes)
    (handedOut : s'.handedOut = s.handedOut) : Fifo.Step bufCap s.inbound s'.inbound :=
  inbound_rest received (by rw [ring, inFlight_other gate other scratch place]) handedOut

theorem outbound_aside {p : Place} (other : s.outputGate ≠ some t)
    (gate : s'.outputGate = s.outputGate) (scratch : s'.outScratch = s.outScratch)
    (place : s'.place = Function.update s.place t p) (accepted : s'.accepted = s.accepted)
    (ring : s'.conn.outBytes = s.conn.outBytes) (written : s'.written = s.written) :
    Fifo.Step (drainCap + bufCap) s.outbound s'.outbound :=
  outbound_rest accepted (by rw [ring, unsent_other gate other scratch place]) written

end

end State

-- The drain moves no input.
theorem State.drainLoop_inbound {s : State} {t : Task} (safe : s.Safe) (other : s.inputGate ≠ some t) :
    Fifo.Step bufCap s.inbound ({ s with outputGate := some t }.drainLoop t).inbound := by
  rcases State.drainLoop_cases (s := { s with outputGate := some t }) (t := t) safe.live with
    ⟨conn, buf, n, -, -, ring, -, -, -, writes⟩ | ⟨-, empty⟩
  · rw [writes]
    exact State.inbound_aside other rfl rfl rfl rfl ring rfl
  · rw [empty]
    exact State.inbound_aside other rfl rfl rfl rfl rfl rfl

theorem Moves.inbound {s s' : State} (safe : s.Safe) (move : Moves s s') :
    Fifo.Step bufCap s.inbound s'.inbound := by
  cases move with
  | bioSend buf => exact State.inbound_rest rfl (congrArg (· ++ _) (Conn.bioSend_inBytes buf)) rfl
  | bioRecv len =>
    refine .leave (s.conn.bioRecv len).2.1 rfl ?_ rfl
    have bytes := Conn.bioRecv_inBytes (c := s.conn) len
    simp only [State.inbound]
    rw [bytes, List.append_assoc]
    rfl
  | @call t p away gate =>
    have fits := safe.here away
    exact State.inbound_aside fits.1 rfl rfl rfl rfl rfl rfl
  | @cancel t gate =>
    exact State.inbound_aside (safe.waiting gate).1 rfl rfl rfl rfl rfl rfl
  | @acquireInput t gate free =>
    have before := State.inFlight_free free
    rcases State.feedInput_cases (s := { s with inputGate := some t }) (t := t) safe.live safe.opened with
      ⟨cap, -, -, reads⟩ | full
    · rw [reads]
      have after := State.inFlight_reading (s := { s with inputGate := some t }.goto t (.reading cap)) rfl
        (Function.update_self t (.reading cap) s.place)
      exact State.inbound_rest rfl (congrArg _ (after.trans before.symm)) rfl
    · rw [full]
      exact State.inbound_rest rfl (congrArg _ ((State.inFlight_free rfl).trans before.symm)) rfl
  | @acquireOutput t gate free =>
    have fits := safe.here gate
    rw [State.drainOutput_opened safe.opened]
    exact State.drainLoop_inbound safe fits.1
  | @readReturns t cap bytes reading less room =>
    obtain ⟨⟨mine, -⟩, -, enough⟩ := safe.here reading
    have before := State.inFlight_reading mine reading
    have copied := s.inScratch.read_write room rfl
    have after := State.inFlight_read (s := { s with
      inScratch := s.inScratch.write 0 bytes room
      received := s.received ++ bytes }.goto t (.read bytes.length)) mine
      (Function.update_self t (.read bytes.length) s.place)
    have held := after.trans copied
    refine .enter bytes rfl ?_ rfl ?_
    · simp only [State.inbound, held, before, List.append_nil]
      rfl
    · have size := s.conn.length_inBytes
      simp only [State.inbound, held, List.length_append]
      change s.conn.inBytes.length + bytes.length ≤ bufCap
      omega
  | @readRaises t cap reading =>
    have fits := safe.here reading
    have before := State.inFlight_reading fits.1.1 reading
    exact State.inbound_rest rfl (congrArg _ ((State.inFlight_free rfl).trans before.symm)) rfl
  | @resume t n read =>
    obtain ⟨⟨mine, -⟩, small, enough⟩ := safe.here read
    obtain ⟨conn, more, -, bytes, -, ends⟩ :=
      State.feedRead_cases (t := t) safe.live safe.opened small enough
    have before := State.inFlight_read mine read
    have after : ({ s with conn := conn }.endFeed t (.fed more)).inFlight = [] := State.inFlight_free rfl
    rw [ends]
    refine State.inbound_rest rfl ?_ rfl
    rw [after, before, List.append_nil]
    exact bytes
  | @writes t n sent k writing whole more =>
    have fits := safe.here writing
    exact State.inbound_aside fits.1.1 rfl rfl rfl rfl rfl rfl
  | @writeReturns t n writing =>
    obtain ⟨⟨other, mine⟩, -, -⟩ := safe.here writing
    have step := State.drainLoop_inbound safe other
    rw [State.holding mine] at step
    exact step
  | @writeRaises t n sent writing =>
    have fits := safe.here writing
    exact State.inbound_aside fits.1.1 rfl rfl rfl rfl rfl rfl

-- Bytes go from the ring to `out_scratch`.
theorem State.drainLoop_outbound {s : State} {t : Task} (safe : s.Safe) (sent : s.unsent = []) :
    Fifo.Step (drainCap + bufCap) s.outbound ({ s with outputGate := some t }.drainLoop t).outbound := by
  rcases State.drainLoop_cases (s := { s with outputGate := some t }) (t := t) safe.live with
    ⟨conn, buf, n, -, -, -, -, bytes, rest, writes⟩ | ⟨-, empty⟩
  · rw [writes]
    have after := State.unsent_writing (s := { s with
      outputGate := some t
      conn := conn
      outScratch := buf }.goto t (.writing n 0)) rfl (Function.update_self t (.writing n 0) s.place)
    have held := after.trans bytes
    refine State.outbound_rest rfl ?_ rfl
    rw [held, sent, List.nil_append]
    change s.conn.outBytes ++ conn.outBytes = s.conn.outBytes
    rw [rest, List.append_nil]
  · rw [empty]
    refine State.outbound_rest rfl ?_ rfl
    rw [sent, State.unsent_free rfl]
    rfl

-- Of the steps only a raising write loses bytes.
theorem Moves.outbound {s s' : State} (safe : s.Safe) (move : Moves s s') (whole : s'.broken = false) :
    Fifo.Step (drainCap + bufCap) s.outbound s'.outbound := by
  cases move with
  | bioSend buf =>
    have bytes := Conn.bioSend_outBytes (c := s.conn) buf
    have fits := (s.conn.bioSend buf).2.outFits
    have size := (s.conn.bioSend buf).2.length_outBytes
    have chunk := safe.length_unsent
    refine .enter (buf.bytes.take (s.conn.bioSend buf).1.toNat) rfl ?_ rfl ?_
    · simp only [State.outbound, List.append_assoc]
      rw [← bytes]
      rfl
    · simp only [State.outbound, List.length_append]
      change s.unsent.length + (s.conn.bioSend buf).2.outBytes.length ≤ drainCap + bufCap
      omega
  | bioRecv len =>
    refine State.outbound_rest rfl ?_ rfl
    exact congrArg _ (Conn.bioRecv_outBytes len)
  | @call t p away gate =>
    have fits := safe.here away
    exact State.outbound_aside fits.2 rfl rfl rfl rfl rfl rfl
  | @cancel t gate =>
    exact State.outbound_aside (safe.waiting gate).2 rfl rfl rfl rfl rfl rfl
  | @acquireInput t gate free =>
    have fits := safe.here gate
    rcases State.feedInput_cases (s := { s with inputGate := some t }) (t := t) safe.live safe.opened with
      ⟨cap, -, -, reads⟩ | full
    · rw [reads]
      exact State.outbound_aside fits.2 rfl rfl rfl rfl rfl rfl
    · rw [full]
      exact State.outbound_aside fits.2 rfl rfl rfl rfl rfl rfl
  | @acquireOutput t gate free =>
    rw [State.drainOutput_opened safe.opened]
    exact State.drainLoop_outbound safe (State.unsent_free free)
  | @readReturns t cap bytes reading less room =>
    have fits := safe.here reading
    exact State.outbound_aside fits.1.2 rfl rfl rfl rfl rfl rfl
  | @readRaises t cap reading =>
    have fits := safe.here reading
    exact State.outbound_aside fits.1.2 rfl rfl rfl rfl rfl rfl
  | @resume t n read =>
    obtain ⟨⟨-, other⟩, small, enough⟩ := safe.here read
    obtain ⟨conn, more, -, -, ring, ends⟩ :=
      State.feedRead_cases (t := t) safe.live safe.opened small enough
    rw [ends]
    exact State.outbound_aside other rfl rfl rfl rfl ring rfl
  | @writes t n sent k writing whole more =>
    obtain ⟨⟨-, mine⟩, -, -⟩ := safe.here writing
    have before := State.unsent_writing mine writing
    have after := State.unsent_writing (s := { s with
      written := s.written ++ s.outScratch.read sent k }.goto t (.writing n (sent + k))) mine
      (Function.update_self t (.writing n (sent + k)) s.place)
    refine .leave (s.outScratch.read sent k) rfl ?_ rfl
    have split : n - sent = k + (n - (sent + k)) := by omega
    simp only [State.outbound, before, after]
    rw [split, Cells.read_add, List.append_assoc]
    rfl
  | @writeReturns t n writing =>
    obtain ⟨⟨-, mine⟩, -, -⟩ := safe.here writing
    have sent : s.unsent = [] := by
      rw [State.unsent_writing mine writing, Nat.sub_self, Cells.read_zero]
    have step := State.drainLoop_outbound (t := t) safe sent
    rw [State.holding mine] at step
    exact step
  | @writeRaises t n sent writing =>
    obtain ⟨⟨-, mine⟩, part, -⟩ := safe.here writing
    have done : sent = n := by
      simp only [Bool.or_eq_false_iff, decide_eq_false_iff_not] at whole
      omega
    have before : s.unsent = [] := by
      rw [State.unsent_writing mine writing, done, Nat.sub_self, Cells.read_zero]
    refine State.outbound_rest rfl ?_ rfl
    rw [before, State.unsent_free rfl]
    rfl

namespace State

-- What the socket and the engine see of the way out.
def outlet (s : State) : List UInt8 × List UInt8 × Bool := (s.accepted, s.written, s.broken)

variable (s : State) (t : Task)

theorem feedInput_outlet : (s.feedInput t).outlet = s.outlet := by
  unfold feedInput
  dsimp only
  split_ifs <;> rfl

theorem feedRead_outlet (n : Nat) : (s.feedRead t n).outlet = s.outlet := by
  unfold feedRead
  dsimp only
  split_ifs <;> rfl

theorem drainLoop_outlet : (s.drainLoop t).outlet = s.outlet := by
  unfold drainLoop
  dsimp only
  split_ifs <;> rfl

theorem drainOutput_outlet : (s.drainOutput t).outlet = s.outlet := by
  unfold drainOutput
  split_ifs
  · rfl
  · exact drainLoop_outlet s t

end State

/-- The end of the stream stays, and behind it nothing is written. -/
structure Cut (s s' : State) : Prop where
  stays : s.broken = true → s'.broken = true
  written : s'.broken = true → s'.written = s.written
  accepted : s.accepted <+: s'.accepted

theorem Cut.of_outlet {s s' : State} (same : s'.outlet = s.outlet) : Cut s s' := by
  simp only [State.outlet, Prod.mk.injEq] at same
  obtain ⟨accepted, written, broken⟩ := same
  exact ⟨fun ended => broken.trans ended, fun _ => written, by rw [accepted]⟩

theorem Moves.cut {s s' : State} (move : Moves s s') : Cut s s' := by
  cases move with
  | bioSend buf => exact ⟨id, fun _ => rfl, List.prefix_append ..⟩
  | bioRecv | call | cancel | readReturns | readRaises => exact .of_outlet rfl
  | @acquireInput t gate free => exact .of_outlet (State.feedInput_outlet { s with inputGate := some t } t)
  | @acquireOutput t gate free =>
    exact .of_outlet (State.drainOutput_outlet { s with outputGate := some t } t)
  | @resume t n read => exact .of_outlet (State.feedRead_outlet s t n)
  | @writeReturns t n writing => exact .of_outlet (State.drainLoop_outlet s t)
  | @writes t n sent k writing whole more =>
    refine ⟨id, fun ended => ?_, List.prefix_rfl⟩
    exact absurd (whole.symm.trans ended) (by decide)
  | @writeRaises t n sent writing =>
    refine ⟨fun ended => ?_, fun _ => rfl, List.prefix_rfl⟩
    change (s.broken || decide (sent < n)) = true
    rw [ended, Bool.true_or]

section

variable {input output : Cells UInt8 bufCap} {s : State}

theorem safe_of_reachable (reached : (machine input output).Reachable s) : s.Safe := by
  apply reached.invariant (P := State.Safe)
  · exact ⟨rfl, rfl, fun t => ⟨by simp [machine, State.initial], by simp [machine, State.initial]⟩,
      by simp [machine, State.initial]⟩
  · intro s label next safe move
    exact (moves_of_step move).safe safe

theorem start_sound : ((machine input output).init.inbound.Sound bufCap) ∧
    (machine input output).init.outbound.Sound (drainCap + bufCap) :=
  ⟨Fifo.empty_sound, Fifo.empty_sound⟩

theorem inbound_sound (reached : (machine input output).Reachable s) : s.inbound.Sound bufCap := by
  have view := Fifo.sound_of_view State.inbound (fun _ => False) (fun s => safe_of_reachable)
    start_sound.1
    (fun s label next safe move _ => ⟨id, (moves_of_step move).inbound safe⟩)
    (fun s label next safe move ended => ended.elim) reached
  exact view.1 id

theorem outbound_sound (reached : (machine input output).Reachable s) :
    (s.broken = false → s.outbound.Sound (drainCap + bufCap)) ∧ s.written <+: s.accepted := by
  have view := Fifo.sound_of_view State.outbound (fun s => s.broken = true)
    (fun s => safe_of_reachable) start_sound.2 ?_ ?_ reached
  · refine ⟨fun whole => view.1 ?_, view.2⟩
    rw [whole]
    decide
  · intro s label next safe move whole
    have step := moves_of_step move
    exact ⟨fun ended => whole (step.cut.stays ended), step.outbound safe (by simpa using whole)⟩
  · intro s label next safe move ended
    have cut := (moves_of_step move).cut
    exact ⟨cut.written ended, cut.accepted⟩

end

section

variable {input output : Cells UInt8 bufCap} {s s' : State} {t : Task}

theorem settled (reached : (machine input output).Reachable s) (away : ∀ t, s.place t = .away)
    (whole : s.broken = false) (drunk : s.conn.inBytes = []) (drained : s.conn.outBytes = []) :
    s.handedOut = s.received ∧ s.written = s.accepted := by
  obtain ⟨input, output⟩ := (safe_of_reachable reached).gates_free away
  have into := (inbound_sound reached).order
  have out := ((outbound_sound reached).1 whole).order
  simp only [State.inbound, State.inFlight_free input, drunk, List.append_nil] at into
  simp only [State.outbound, State.unsent_free output, drained, List.append_nil] at out
  exact ⟨into, out⟩

theorem drainLoop_drained (safe : s.Safe)
    (ended : ({ s with outputGate := some t }.drainLoop t).outputGate = none) :
    ({ s with outputGate := some t }.drainLoop t).conn.outBytes = [] := by
  rcases State.drainLoop_cases (s := { s with outputGate := some t }) (t := t) safe.live with
    ⟨conn, buf, n, -, -, -, -, -, -, writes⟩ | ⟨empty, ends⟩
  · rw [writes] at ended
    cases ended
  · rw [ends]
    exact empty

-- When a write returns and `drain_output` with it, all that the engine gave has been written.
theorem flushed (reached : (machine input output).Reachable s)
    (move : (machine input output).step (.writeReturns t) s = some s') (ended : s'.outputGate = none)
    (whole : s.broken = false) : s'.written = s'.accepted := by
  have safe := safe_of_reachable reached
  have after := reached.next move
  simp only [machine, step] at move
  split at move
  · rename_i n sent writing
    have fits := safe.here writing
    have held := State.holding fits.1.2
    split at move <;> cases move
    have outlet := State.drainLoop_outlet s t
    simp only [State.outlet, Prod.mk.injEq] at outlet
    have empty := drainLoop_drained (t := t) safe (by rw [held]; exact ended)
    rw [held] at empty
    have order := ((outbound_sound after).1 (outlet.2.2.trans whole)).order
    simp only [State.outbound, State.unsent_free ended, empty, List.append_nil] at order
    exact order
  · cases move

end

/-- Two bounded queues, neither of which loses, doubles or reorders a byte. -/
structure Delivers (s : State) : Prop where
  -- the engine has got what came from the socket, but for what is still on the way
  handedOut : s.handedOut ++ s.conn.inBytes ++ s.inFlight = s.received
  -- the socket has got what the engine gave, but for what is still on the way
  written : s.broken = false → s.written ++ s.unsent ++ s.conn.outBytes = s.accepted
  -- and also when a write has raised, nothing else
  front : s.written <+: s.accepted
  inLen : s.conn.inLen ≤ bufCap
  outLen : s.conn.outLen ≤ bufCap
  -- the next `feed` is not refused, and none has been
  feeds : ∀ t n, s.place t = .read n → (s.conn.feed s.inScratch n).1 = n
  fed : ∀ t code, (t, .bridge code) ∉ s.outcomes
  -- a `feed` that is refused changes nothing
  refused : ∀ {size : Nat} (buf : Cells UInt8 size) (len : Int),
    (s.conn.feed buf len).1 ≠ len → (s.conn.feed buf len).2 = s.conn

theorem State.Safe.feeds {s : State} {t : Task} {n : Nat} (safe : s.Safe) (read : s.place t = .read n) :
    (s.conn.feed s.inScratch n).1 = n := by
  have fits := safe.here read
  by_cases none : n = 0
  · simp [none, Conn.feed, safe.live]
  · exact (Conn.feed_taken s.inScratch safe.live (Nat.pos_of_ne_zero none) fits.2.1 fits.2.2).1

/-- In every interleaving of the calls of the engine with the runs of `feed_input` and
`drain_output` by the two tasks. -/
theorem rings_deliver {input output : Cells UInt8 bufCap} {s : State}
    (reached : (machine input output).Reachable s) : Delivers s where
  handedOut := by
    have order := (inbound_sound reached).order
    simp only [State.inbound, ← List.append_assoc] at order
    exact order
  written whole := by
    have order := ((outbound_sound reached).1 whole).order
    simp only [State.outbound, ← List.append_assoc] at order
    exact order
  front := (outbound_sound reached).2
  inLen := s.conn.inFits
  outLen := s.conn.outFits
  feeds t n read := (safe_of_reachable reached).feeds read
  fed := (safe_of_reachable reached).fed
  refused buf len := Conn.feed_refused

def blank : Cells UInt8 bufCap := List.Vector.replicate bufCap 0

def crossing : List Label :=
  [.bioSend ⟨[1, 2, 3], by decide⟩, .drainOutput .writer, .acquire .writer, .writes .writer 2,
    .feedInput .reader, .acquire .reader, .bioSend ⟨[4], by decide⟩,
    .readReturns .reader [7, 8], .writes .writer 1, .resume .reader, .drainOutput .reader,
    .bioRecv 1, .writeReturns .writer]

theorem rings_deliver_crossing :
    ∃ s, (machine blank blank).exec crossing (machine blank blank).init = some s ∧
      (s.written, s.handedOut) = ([1, 2, 3], [7]) ∧ Delivers s := by
  have run : ((machine blank blank).exec crossing (machine blank blank).init).map
      (fun s => (s.written, s.handedOut)) = some ([1, 2, 3], [7]) := by
    rfl
  obtain ⟨s, ends, bytes⟩ := Option.map_eq_some_iff.mp run
  exact ⟨s, ends, bytes, rings_deliver (Machine.reachable_of_exec ends)⟩

end HttpServer.Tls
