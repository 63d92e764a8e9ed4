import HttpServer.CAbi.Bridge
import HttpServer.CAbi.Lifecycle

set_option autoImplicit false

namespace HttpServer.CAbi

def Ticket.entry (t : Ticket) (k : Key) : Entry := ⟨k, t.owner, t.kind⟩

inductive Starts (s : State) : Bool → State → Prop
  | ending (phase : s.phase = .retiring ∨ s.phase = .ended) : Starts s false s
  | running (phase : s.phase = .starting ∨ s.phase = .attached) : Starts s true s
  | unstarted (phase : s.phase = .off) : Starts s false { s with
      ownerDone := false, memory := { s.memory with nextId := 1 } }
  | unowned (phase : s.phase = .off) : Starts s false { s with
      memory := { s.memory with nextId := 1 }
      phase := .retiring, ownerDone := true, notifier := .waiting }
  | fresh (phase : s.phase = .off) : Starts s true { s with
      memory := { s.memory with nextId := 1 }
      ownerDone := false, phase := .starting, owner := .starting, notifier := .waiting }

-- Calls that return an operation when they are accepted.
def Call.accepts : Call → Bool
  | .create _ | .close .. | .submit .. | .read .. => true
  | .cancel _ | .releaseInstance _ | .releaseOperation _ | .releaseResponse .. | .releaseChunk _ => false

-- The operation that an accepted call queues.
def Call.asks (m : Memory) : Call → Entry → Prop
  | .create c, e => e.kind = c.kind
  | .close i _ _, e => e.owner = i ∧ e.kind.closes = true
  | .submit i _, e => e.owner = i ∧ e.kind = .submit
  | .read r _ _, e => e.kind = .read ∧ ∃ x, m.responses.get r = some x ∧ x.owner = e.owner
  | .releaseResponse .., e => e.kind = .release
  | .cancel _, _ | .releaseInstance _, _ | .releaseOperation _, _ | .releaseChunk _, _ => False

structure Memory.Usable (m : Memory) (i : Key) : Prop where
  known : m.Known i
  opened : ∃ s, m.insts.get i = some s ∧ s.closing = false

inductive Answers (p : Platform) (s : State) : Call → Code → State → Prop
  | refused {c : Call} {code : Code} (failed : code ≠ .ok) : Answers p s c code s
  | unstarted {c : CreateCall} {code : Code} {started : Bool} {s₁ : State}
      (starts : Starts s started s₁) (failed : code ≠ .ok) : Answers p s (.create c) code s₁
  | uncreated {c : CreateCall} {code : Code} {s₁ : State} {m : Memory} (starts : Starts s true s₁)
      (calm : s₁.memory.Calm m) (failed : code ≠ .ok) :
      Answers p s (.create c) code ({ s₁ with memory := m }.wake)
  | created {c : CreateCall} {s₁ : State} {k : Key} {m : Memory} (starts : Starts s true s₁)
      (creates : c.kind.creates = true) (made : s₁.memory.Creates m k c.kind) :
      Answers p s (.create c) .ok ({ s₁ with memory := m }.enqueue k)
  | rejected {i : Key} {c : SubmitCall} {code : Code} {m : Memory} (calm : s.memory.Calm m)
      (failed : code ≠ .ok) : Answers p s (.submit i c) code { s with memory := m }
  | admitted {c : Call} {k i : Key} {kind : Kind} {response : Option Key} {m : Memory}
      (admits : s.memory.Admits m k (.new kind i response)) (usable : s.memory.Usable i)
      (creates : kind.creates = false) (reads : kind = .read → response.isSome)
      (owned : ∀ r, response = some r → ∃ x, s.memory.responses.get r = some x ∧ x.owner = i)
      (closed : kind.closes = true → ∀ inst, m.insts.get i = some inst → inst.closing = true)
      (asks : c.asks s.memory ⟨k, i, kind⟩) :
      Answers p s c .ok ({ s with memory := m }.enqueue k)
  | cancelled {k : Key} : Answers p s (.cancel k) .ok ({ s with memory := s.memory.cancel k }.wake)
  | late {k : Key} : Answers p s (.cancel k) .ok s
  | returned {c : Call} {m : Memory} (calm : s.memory.Calm m) (releases : c.accepts = false) :
      Answers p s c .ok { s with memory := m }
  | unreleased {r : Key} {allocated : Bool} {response : Response} {m : Memory}
      (found : s.memory.responses.get r = some response) (held : 0 < response.held)
      (made : s.memory.releaseResponse p.sizes r allocated = (none, m)) :
      Answers p s (.releaseResponse r allocated) .ok { s with
        memory := m
        refused := if !response.released ∧
            !(s.memory.insts.get response.owner).any (·.closing) then r :: s.refused
          else s.refused }
  | chunkReturned {c : Key} {m : Memory} (books : m.Books) (shuts : s.memory.Shuts m)
      (live : m.live = s.memory.live) (ticket : m.ticket = s.memory.ticket) :
      Answers p s (.releaseChunk c) .ok ({ s with memory := m }.wake)

namespace State

variable {p : Platform} {s : State}

theorem startRuntime_starts (s : State) (c : CreateCall) :
    Starts s (s.startRuntime c).1 (s.startRuntime c).2 := by
  unfold startRuntime
  split
  · exact .ending (Or.inl ‹_›)
  · exact .ending (Or.inr ‹_›)
  · exact .running (Or.inl ‹_›)
  · exact .running (Or.inr ‹_›)
  · dsimp only
    split_ifs
    · exact .unstarted ‹_›
    · exact .unowned ‹_›
    · exact .fresh ‹_›

theorem Starts.tidy {started : Bool} {s₁ : State} (starts : Starts s started s₁)
    (tidy : s.memory.Tidy) : s₁.memory.Tidy := by
  cases starts with
  | ending | running => exact tidy
  | unstarted | unowned | fresh => exact tidy.ids 1

theorem createAsync_answers (tidy : s.memory.Tidy) {c : CreateCall} (creates : c.kind.creates = true) :
    Answers p s (.create c) (s.createAsync p c).1 (s.createAsync p c).2 := by
  unfold createAsync
  split
  · exact .refused (by simp)
  · split
    · exact .refused (by simp)
    · have starts := s.startRuntime_starts c
      split
      · rename_i s₁ start
        rw [start] at starts
        exact .unstarted starts (by simp)
      · rename_i s₁ start
        rw [start] at starts
        have effect := @Memory.create_effect s₁.memory p.sizes c.kind c.length c.operationAllocated
          c.inputAllocated (Starts.tidy starts tidy).books
        split_ifs
        · exact .unstarted starts (by simp)
        · refine .uncreated (m := s₁.memory) starts ?_ (by simp)
          exact ⟨(Starts.tidy starts tidy).books, Memory.Quiet.refl _, rfl, rfl⟩
        · split
          · rename_i m made
            rw [made] at effect
            exact .uncreated starts effect (by simp)
          · rename_i k m made
            rw [made] at effect
            exact .created starts creates effect

theorem closeAsync_answers (tidy : s.memory.Tidy) {i : Key} {inst : Instance}
    (found : s.memory.insts.get i = some inst) (held : 0 < inst.held) (given allocated : Bool) :
    Answers p s (.close i given allocated) (s.closeAsync p i given allocated).1
      (s.closeAsync p i given allocated).2 := by
  simp only [closeAsync, found]
  split
  · exact .refused (by simp)
  · split
    · exact .refused (by simp)
    · rename_i opened
      split
      · exact .refused (by simp)
      · rename_i k m made
        obtain ⟨admits, closed⟩ := Memory.startClosing_admits tidy.books found made
        refine .admitted admits ⟨Or.inl ⟨inst, found, held⟩, inst, found, by simpa using opened⟩ ?_ ?_
          (by simp) (fun _ => closed) ⟨rfl, ?_⟩
        · cases inst.server <;> rfl
        · cases inst.server <;> simp
        · cases inst.server <;> rfl

theorem submitAsync_answers (tidy : s.memory.Tidy) {i : Key} {inst : Instance}
    (found : s.memory.insts.get i = some inst) (held : 0 < inst.held) (c : SubmitCall) :
    Answers p s (.submit i c) (s.submitAsync p i c).1 (s.submitAsync p i c).2 := by
  simp only [submitAsync, found]
  repeat' split
  all_goals first
    | exact .refused (by simp)
    | skip
  · rename_i opened _ _ _ k m made
    have admits := Memory.submit_admits tidy.books found made
    exact .admitted admits ⟨Or.inl ⟨inst, found, held⟩, inst, found, by simpa using opened⟩ rfl (by simp)
      (by simp) (by simp [Kind.closes]) ⟨rfl, rfl⟩
  · rename_i code m made
    obtain ⟨calm, failed⟩ := Memory.submit_rejected tidy.books found made
    exact .rejected calm failed

theorem readAsync_answers (tidy : s.memory.Tidy) {r : Key} {response : Response}
    (found : s.memory.responses.get r = some response) (given allocated : Bool) :
    Answers p s (.read r given allocated) (s.readAsync p r given allocated).1
      (s.readAsync p r given allocated).2 := by
  simp only [readAsync, found]
  repeat' split
  all_goals first
    | exact .refused (by simp)
    | skip
  rename_i inst owner _ opened _ _ _ k m made
  have admits := Memory.read_admits tidy.books owner found made
  rw [not_or] at opened
  refine .admitted admits ⟨Or.inr ⟨r, response, found, rfl⟩, inst, owner, by simpa using opened.2⟩ rfl
    (fun _ => rfl) ?_ (by simp [Kind.closes]) ⟨rfl, response, found, rfl⟩
  rintro _ ⟨⟩
  exact ⟨response, found, rfl⟩

theorem operationCancel_answers (k : Key) :
    Answers p s (.cancel k) .ok (s.operationCancel k) := by
  unfold operationCancel
  split
  · exact .late
  · split
    · exact .cancelled
    · exact .late

theorem responseRelease_answers (tidy : s.memory.Tidy) {r : Key} {response : Response}
    (found : s.memory.responses.get r = some response) (held : 0 < response.held)
    (allocated : Bool) :
    Answers p s (.releaseResponse r allocated) .ok (s.responseRelease p r allocated) := by
  simp only [responseRelease, found]
  split
  · rename_i k m made
    obtain ⟨admits, opened⟩ := Memory.releaseResponse_admits tidy.books found held made
    refine .admitted admits ⟨Or.inr ⟨r, response, found, rfl⟩, opened⟩ rfl (by simp) ?_
      (by simp [Kind.closes]) rfl
    rintro _ ⟨⟩
    exact ⟨response, found, rfl⟩
  · rename_i m made
    exact .unreleased found held made

theorem run_answers (tidy : s.memory.Tidy) {c : Call} (legal : c.legal s.memory = true) :
    Answers p s c (c.run p s).1 (c.run p s).2 := by
  cases c with
  | create c => exact createAsync_answers tidy legal
  | close i given allocated =>
    obtain ⟨inst, found, held⟩ := (Option.any_eq_true _ _).mp legal
    exact closeAsync_answers tidy found (by simpa using held) given allocated
  | submit i c =>
    obtain ⟨inst, found, held⟩ := (Option.any_eq_true _ _).mp legal
    simp only [Bool.and_eq_true, decide_eq_true_eq] at held
    exact submitAsync_answers tidy found held.1 c
  | read r given allocated =>
    obtain ⟨response, found, _⟩ := (Option.any_eq_true _ _).mp legal
    exact readAsync_answers tidy found given allocated
  | cancel k => exact operationCancel_answers k
  | releaseInstance i =>
    obtain ⟨inst, found, held⟩ := (Option.any_eq_true _ _).mp legal
    exact .returned (Memory.releaseInstance_calm tidy.books found (by simpa using held)) rfl
  | releaseOperation k =>
    obtain ⟨o, found, held⟩ := (Option.any_eq_true _ _).mp legal
    exact .returned (Memory.releaseOperation_calm tidy.books found (by simpa using held)) rfl
  | releaseResponse r allocated =>
    obtain ⟨response, found, held⟩ := (Option.any_eq_true _ _).mp legal
    exact responseRelease_answers tidy found (by simpa using held) allocated
  | releaseChunk c =>
    obtain ⟨chunk, found, held⟩ := (Option.any_eq_true _ _).mp legal
    obtain ⟨books, shuts, live, ticket⟩ :=
      Memory.releaseChunk_effect tidy.books found (by simpa using held)
    exact .chunkReturned books shuts live ticket

end State

end HttpServer.CAbi
