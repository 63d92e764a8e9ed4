import HttpServer.Tls.Transport

set_option autoImplicit false

/-!
# Who is inside of the two functions

A gate has one holder, so the room that was measured before a read is still there behind it.
-/

namespace HttpServer.Tls

/-- Every step, without the labels. -/
inductive Moves (s : State) : State → Prop
  | bioSend (buf : Buffer) : Moves s { s with
      conn := (s.conn.bioSend buf).2
      accepted := s.accepted ++ buf.bytes.take (s.conn.bioSend buf).1.toNat }
  | bioRecv (len : Nat) : Moves s { s with
      conn := (s.conn.bioRecv len).2.2
      handedOut := s.handedOut ++ (s.conn.bioRecv len).2.1 }
  | call {t : Task} {p : Place} (away : s.place t = .away) (gate : p = .atInputGate ∨ p = .atOutputGate) :
      Moves s (s.goto t p)
  | cancel {t : Task} (gate : s.place t = .atInputGate ∨ s.place t = .atOutputGate) :
      Moves s { s.goto t .away with outcomes := s.outcomes ++ [(t, .raised)] }
  | acquireInput {t : Task} (gate : s.place t = .atInputGate) (free : s.inputGate = none) :
      Moves s ({ s with inputGate := some t }.feedInput t)
  | acquireOutput {t : Task} (gate : s.place t = .atOutputGate) (free : s.outputGate = none) :
      Moves s ({ s with outputGate := some t }.drainOutput t)
  | readReturns {t : Task} {cap : Nat} (bytes : List UInt8) (reading : s.place t = .reading cap)
      (fits : bytes.length ≤ cap) (room : 0 + bytes.length ≤ recordCap) :
      Moves s ({ s with
        inScratch := s.inScratch.write 0 bytes room
        received := s.received ++ bytes }.goto t (.read bytes.length))
  | readRaises {t : Task} {cap : Nat} (reading : s.place t = .reading cap) :
      Moves s (s.endFeed t .raised)
  | resume {t : Task} {n : Nat} (read : s.place t = .read n) : Moves s (s.feedRead t n)
  | writes {t : Task} {n sent : Nat} (k : Nat) (writing : s.place t = .writing n sent)
      (whole : s.broken = false) (more : sent + k ≤ n) :
      Moves s ({ s with written := s.written ++ s.outScratch.read sent k }.goto t
        (.writing n (sent + k)))
  | writeReturns {t : Task} {n : Nat} (writing : s.place t = .writing n n) : Moves s (s.drainLoop t)
  | writeRaises {t : Task} {n sent : Nat} (writing : s.place t = .writing n sent) :
      Moves s { s.endDrain t .raised with broken := s.broken || sent < n }

theorem moves_of_step {label : Label} {s s' : State} (move : step label s = some s') : Moves s s' := by
  cases label with
  | bioSend buf =>
    cases move
    exact .bioSend buf
  | bioRecv len =>
    cases move
    exact .bioRecv len
  | feedInput t =>
    simp only [step] at move
    split at move <;> cases move
    exact .call ‹_› (.inl rfl)
  | drainOutput t =>
    simp only [step] at move
    split at move <;> cases move
    exact .call ‹_› (.inr rfl)
  | acquire t =>
    simp only [step] at move
    split at move
    · split at move <;> cases move
      exact .acquireInput ‹_› ‹_›
    · split at move <;> cases move
      exact .acquireOutput ‹_› ‹_›
    · cases move
  | cancel t =>
    simp only [step] at move
    split at move <;> cases move
    · exact .cancel (.inl ‹_›)
    · exact .cancel (.inr ‹_›)
  | readReturns t bytes =>
    simp only [step] at move
    split at move
    · split at move <;> cases move
      rename_i reading room
      exact .readReturns bytes reading room.1 (by omega)
    · cases move
  | readRaises t =>
    simp only [step] at move
    split at move <;> cases move
    exact .readRaises ‹_›
  | resume t =>
    simp only [step] at move
    split at move <;> cases move
    exact .resume ‹_›
  | writes t k =>
    simp only [step] at move
    split at move
    · split at move <;> cases move
      rename_i writing free
      exact .writes k writing free.1 free.2
    · cases move
  | writeReturns t =>
    simp only [step] at move
    split at move
    · split at move <;> cases move
      rename_i writing done
      subst done
      exact .writeReturns writing
    · cases move
  | writeRaises t =>
    simp only [step] at move
    split at move <;> cases move
    exact .writeRaises ‹_›

namespace State

-- What holds while `t` is at a place: who has the gates, and the room that it may count on.
def Fits (s : State) (t : Task) : Place → Prop
  | .reading cap => (s.inputGate = some t ∧ s.outputGate ≠ some t) ∧
      cap ≤ recordCap ∧ s.conn.inLen + cap ≤ bufCap
  | .read n => (s.inputGate = some t ∧ s.outputGate ≠ some t) ∧
      n ≤ recordCap ∧ s.conn.inLen + n ≤ bufCap
  | .writing n sent => (s.inputGate ≠ some t ∧ s.outputGate = some t) ∧ sent ≤ n ∧ n ≤ drainCap
  | _ => s.inputGate ≠ some t ∧ s.outputGate ≠ some t

structure Safe (s : State) : Prop where
  live : s.conn.live = true
  opened : s.closed = false
  fits : ∀ t, s.Fits t (s.place t)
  fed : ∀ t code, (t, .bridge code) ∉ s.outcomes

variable {s s' : State} {t u : Task}

theorem Safe.here {p : Place} (safe : s.Safe) (place : s.place t = p) : s.Fits t p := by
  rw [← place]
  exact safe.fits t

theorem Safe.waiting (safe : s.Safe) (gate : s.place t = .atInputGate ∨ s.place t = .atOutputGate) :
    s.inputGate ≠ some t ∧ s.outputGate ≠ some t :=
  gate.elim safe.here safe.here

theorem Fits.frame {p : Place} (fits : s.Fits u p) (input : s'.inputGate = some u ↔ s.inputGate = some u)
    (output : s'.outputGate = some u ↔ s.outputGate = some u)
    (room : s.inputGate = some u → s'.conn.inLen ≤ s.conn.inLen) : s'.Fits u p := by
  cases p with
  | reading cap =>
    obtain ⟨⟨mine, other⟩, small, enough⟩ := fits
    have less := room mine
    exact ⟨⟨input.mpr mine, fun held => other (output.mp held)⟩, small, by omega⟩
  | read n =>
    obtain ⟨⟨mine, other⟩, small, enough⟩ := fits
    have less := room mine
    exact ⟨⟨input.mpr mine, fun held => other (output.mp held)⟩, small, by omega⟩
  | writing n sent =>
    obtain ⟨⟨other, mine⟩, part, small⟩ := fits
    exact ⟨⟨fun held => other (input.mp held), output.mpr mine⟩, part, small⟩
  | away | atInputGate | atOutputGate =>
    exact ⟨fun held => fits.1 (input.mp held), fun held => fits.2 (output.mp held)⟩

-- A gate that only `t` takes or gives back is the same gate for the others.
theorem others_gate {before after : Option Task} (was : before = some t ∨ before = none)
    (now : after = some t ∨ after = none) (other : u ≠ t) : after = some u ↔ before = some u := by
  rcases was with rfl | rfl <;> rcases now with rfl | rfl <;> simp [other.symm]

theorem Safe.still (safe : s.Safe) (live : s'.conn.live = true) (opened : s'.closed = s.closed)
    (place : s'.place = s.place) (input : s'.inputGate = s.inputGate)
    (output : s'.outputGate = s.outputGate) (room : s'.conn.inLen ≤ s.conn.inLen)
    (outcomes : s'.outcomes = s.outcomes) : s'.Safe where
  live := live
  opened := opened.trans safe.opened
  fits u := by
    rw [place]
    exact (safe.fits u).frame (by rw [input]) (by rw [output]) fun _ => room
  fed := by
    rw [outcomes]
    exact safe.fed

theorem Safe.moved {p : Place} (safe : s.Safe) (live : s'.conn.live = true)
    (opened : s'.closed = s.closed) (place : s'.place = Function.update s.place t p)
    (input : ∀ u, u ≠ t → (s'.inputGate = some u ↔ s.inputGate = some u))
    (output : ∀ u, u ≠ t → (s'.outputGate = some u ↔ s.outputGate = some u))
    (room : ∀ u, u ≠ t → s.inputGate = some u → s'.conn.inLen ≤ s.conn.inLen)
    (arrives : s'.Fits t p) (outcomes : ∀ u code, (u, .bridge code) ∉ s'.outcomes) : s'.Safe where
  live := live
  opened := opened.trans safe.opened
  fits u := by
    rw [place]
    by_cases same : u = t
    · subst same
      rw [Function.update_self]
      exact arrives
    · rw [Function.update_of_ne same]
      exact (safe.fits u).frame (input u same) (output u same) (room u same)
  fed := outcomes

theorem feedInput_cases (live : s.conn.live = true) (opened : s.closed = false) :
    (∃ cap, cap ≤ recordCap ∧ s.conn.inLen + cap ≤ bufCap ∧
      s.feedInput t = s.goto t (.reading cap)) ∨ s.feedInput t = s.endFeed t (.fed true) := by
  have fits := s.conn.inFits
  have space : s.conn.inSpace = bufCap - s.conn.inLen := by simp [Conn.inSpace, live]
  simp only [feedInput, opened, space, Bool.false_eq_true, if_false]
  split_ifs with some
  · exact .inl ⟨_, by omega, by omega, rfl⟩
  · exact .inr rfl

-- `feed` is not refused: there is still the room that was there before the read.
theorem feedRead_cases {n : Nat} (live : s.conn.live = true) (opened : s.closed = false)
    (small : n ≤ recordCap) (room : s.conn.inLen + n ≤ bufCap) :
    ∃ conn more, conn.live = true ∧ conn.inBytes = s.conn.inBytes ++ s.inScratch.read 0 n ∧
      conn.outBytes = s.conn.outBytes ∧
      s.feedRead t n = { s with conn := conn }.endFeed t (.fed more) := by
  have going : ¬ s.closed = true := by simp [opened]
  by_cases none : n = 0
  · refine ⟨s.conn, false, live, ?_, rfl, ?_⟩
    · rw [none, Cells.read_zero, List.append_nil]
    · rw [feedRead, if_neg going, if_pos none]
  · obtain ⟨code, alive, -, bytes, others⟩ :=
      Conn.feed_taken s.inScratch live (Nat.pos_of_ne_zero none) small room
    refine ⟨_, true, alive, bytes, others, ?_⟩
    rw [feedRead, if_neg going, if_neg none]
    exact if_pos code

-- The whole ring is in `out_scratch` when the next write begins.
theorem drainLoop_cases (live : s.conn.live = true) :
    (∃ conn buf n, conn.live = true ∧ conn.inLen = s.conn.inLen ∧ conn.inBytes = s.conn.inBytes ∧
      n ≤ drainCap ∧ buf.read 0 n = s.conn.outBytes ∧ conn.outBytes = [] ∧
      s.drainLoop t = { s with conn := conn, outScratch := buf }.goto t (.writing n 0)) ∨
    (s.conn.outBytes = [] ∧ s.drainLoop t = s.endDrain t .drained) := by
  have pending : s.conn.outputPending = s.conn.outLen := by simp [Conn.outputPending, live]
  by_cases empty : s.conn.outLen = 0
  · refine .inr ⟨by rw [Conn.outBytes, empty, Cells.read_zero], ?_⟩
    simp [drainLoop, pending, empty]
  · obtain ⟨code, bytes, rest⟩ := Conn.takeOutput_pending s.outScratch live
    have some : (0 : Int) < s.conn.outLen := by omega
    refine .inl ⟨(s.conn.takeOutput s.outScratch s.conn.outputPending).2.2,
      (s.conn.takeOutput s.outScratch s.conn.outputPending).2.1, s.conn.outLen,
      (Conn.takeOutput_live ..).trans live, Conn.takeOutput_inLen .., Conn.takeOutput_inBytes ..,
      s.conn.outFits, bytes, rest, ?_⟩
    rw [pending] at code
    simp only [drainLoop, pending, some, if_true, code, Int.toNat_natCast]

theorem drainOutput_opened (opened : s.closed = false) :
    { s with outputGate := some t }.drainOutput t = { s with outputGate := some t }.drainLoop t :=
  if_neg (by simp [opened])

theorem holding (mine : s.outputGate = some t) : { s with outputGate := some t } = s := by
  rw [← mine]

theorem Safe.fed_append {o : Outcome} (safe : s.Safe) (good : ∀ code, o ≠ .bridge code) (u : Task)
    (code : Int) : (u, .bridge code) ∉ s.outcomes ++ [(t, o)] := by
  intro member
  rcases List.mem_append.mp member with earlier | last
  · exact safe.fed u code earlier
  · simp only [List.mem_singleton, Prod.mk.injEq] at last
    exact good code last.2.symm

theorem Safe.drained (safe : s.Safe) (mine : s.outputGate = some t ∨ s.outputGate = none)
    (other : s.inputGate ≠ some t) : ({ s with outputGate := some t }.drainLoop t).Safe := by
  rcases drainLoop_cases (s := { s with outputGate := some t }) (t := t) safe.live with
    ⟨conn, buf, n, live, size, -, small, -, -, writes⟩ | ⟨-, empty⟩
  · rw [writes]
    exact safe.moved live rfl rfl (fun _ _ => Iff.rfl) (fun _ => others_gate mine (.inl rfl))
      (fun _ _ _ => Nat.le_of_eq size) ⟨⟨other, rfl⟩, Nat.zero_le n, small⟩ safe.fed
  · rw [empty]
    exact safe.moved safe.live rfl rfl (fun _ _ => Iff.rfl) (fun _ => others_gate mine (.inr rfl))
      (fun _ _ _ => Nat.le_refl _) ⟨other, by simp [endDrain]⟩ (safe.fed_append (by simp))

end State

theorem Moves.safe {s s' : State} (safe : s.Safe) (move : Moves s s') : s'.Safe := by
  cases move with
  | bioSend buf =>
    exact safe.still ((Conn.bioSend_live buf).trans safe.live) rfl rfl rfl rfl
      (Nat.le_of_eq (Conn.bioSend_inLen buf)) rfl
  | bioRecv len =>
    exact safe.still ((Conn.bioRecv_live len).trans safe.live) rfl rfl rfl rfl
      (Conn.bioRecv_inLen len) rfl
  | @call t p away gate =>
    have fits := safe.here away
    refine safe.moved safe.live rfl rfl (fun _ _ => Iff.rfl) (fun _ _ => Iff.rfl)
      (fun _ _ _ => Nat.le_refl _) ?_ safe.fed
    rcases gate with rfl | rfl <;> exact fits
  | @cancel t gate =>
    exact safe.moved safe.live rfl rfl (fun _ _ => Iff.rfl) (fun _ _ => Iff.rfl)
      (fun _ _ _ => Nat.le_refl _) (safe.waiting gate) (safe.fed_append (by simp))
  | @acquireInput t gate free =>
    have fits := safe.here gate
    rcases State.feedInput_cases (s := { s with inputGate := some t }) (t := t) safe.live safe.opened with
      ⟨cap, small, room, reads⟩ | full
    · rw [reads]
      exact safe.moved safe.live rfl rfl (fun _ => State.others_gate (.inr free) (.inl rfl))
        (fun _ _ => Iff.rfl) (fun _ _ _ => Nat.le_refl _) ⟨⟨rfl, fits.2⟩, small, room⟩ safe.fed
    · rw [full]
      exact safe.moved safe.live rfl rfl (fun _ => State.others_gate (.inr free) (.inr rfl))
        (fun _ _ => Iff.rfl) (fun _ _ _ => Nat.le_refl _) ⟨by simp [State.endFeed], fits.2⟩
        (safe.fed_append (by simp))
  | @acquireOutput t gate free =>
    have fits := safe.here gate
    rw [State.drainOutput_opened safe.opened]
    exact safe.drained (.inr free) fits.1
  | @readReturns t cap bytes reading less room =>
    obtain ⟨gates, small, enough⟩ := safe.here reading
    have left : s.conn.inLen + bytes.length ≤ bufCap := by omega
    exact safe.moved safe.live rfl rfl (fun _ _ => Iff.rfl) (fun _ _ => Iff.rfl)
      (fun _ _ _ => Nat.le_refl _) ⟨gates, by omega, left⟩ safe.fed
  | @readRaises t cap reading =>
    obtain ⟨⟨mine, other⟩, -, -⟩ := safe.here reading
    exact safe.moved safe.live rfl rfl (fun _ => State.others_gate (.inl mine) (.inr rfl))
      (fun _ _ => Iff.rfl) (fun _ _ _ => Nat.le_refl _) ⟨by simp [State.endFeed], other⟩
      (safe.fed_append (by simp))
  | @resume t n read =>
    obtain ⟨⟨mine, other⟩, small, enough⟩ := safe.here read
    obtain ⟨conn, more, live, -, -, ends⟩ :=
      State.feedRead_cases (t := t) safe.live safe.opened small enough
    rw [ends]
    refine safe.moved live rfl rfl (fun _ => State.others_gate (.inl mine) (.inr rfl))
      (fun _ _ => Iff.rfl) ?_ ⟨by simp [State.endFeed], other⟩ (safe.fed_append (by simp))
    -- no other task counts on room in the input ring
    intro u different held
    rw [mine, Option.some.injEq] at held
    exact absurd held.symm different
  | @writes t n sent k writing whole more =>
    obtain ⟨gates, -, small⟩ := safe.here writing
    exact safe.moved safe.live rfl rfl (fun _ _ => Iff.rfl) (fun _ _ => Iff.rfl)
      (fun _ _ _ => Nat.le_refl _) ⟨gates, more, small⟩ safe.fed
  | @writeReturns t n writing =>
    obtain ⟨⟨other, mine⟩, -, -⟩ := safe.here writing
    have drained := safe.drained (.inl mine) other
    rw [State.holding mine] at drained
    exact drained
  | @writeRaises t n sent writing =>
    obtain ⟨⟨other, mine⟩, -, -⟩ := safe.here writing
    exact safe.moved safe.live rfl rfl (fun _ _ => Iff.rfl)
      (fun _ => State.others_gate (.inl mine) (.inr rfl)) (fun _ _ _ => Nat.le_refl _)
      ⟨other, by simp [State.endDrain]⟩ (safe.fed_append (by simp))

namespace State

variable {s : State} {t u : Task}

-- When no task is inside, nobody has a gate.
theorem Safe.gates_free (safe : s.Safe) (away : ∀ t, s.place t = .away) :
    s.inputGate = none ∧ s.outputGate = none := by
  have none_has (t : Task) : s.inputGate ≠ some t ∧ s.outputGate ≠ some t := safe.here (away t)
  exact ⟨Option.eq_none_iff_forall_ne_some.mpr fun t => (none_has t).1,
    Option.eq_none_iff_forall_ne_some.mpr fun t => (none_has t).2⟩

end State

end HttpServer.Tls
