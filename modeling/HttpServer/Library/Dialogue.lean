import Mathlib.Tactic.TypeStar

set_option autoImplicit false

/-!
# Programs that ask

A dialogue asks one question after another of a host that it does not know, and ends. A run
is what was asked and answered so far together with what is left to do.
-/

inductive Dialogue (Q : Type) (A : Q → Type) (R : Type) where
  | done (result : R)
  | ask (query : Q) (next : A query → Dialogue Q A R)

namespace Dialogue

variable {Q : Type} {A : Q → Type} {R : Type}

abbrev History (Q : Type) (A : Q → Type) := List (Sigma A)

inductive Run : Dialogue Q A R → History Q A → Dialogue Q A R → Prop
  | here (d : Dialogue Q A R) : Run d [] d
  | answer {query : Q} {next : A query → Dialogue Q A R} {more : History Q A}
      {last : Dialogue Q A R} (answer : A query) (rest : Run (next answer) more last) :
      Run (.ask query next) (⟨query, answer⟩ :: more) last

-- What is asked and what it ends in, after the history `past`, whatever the answers.
def Holds (asks : History Q A → Q → Prop) (ends : History Q A → R → Prop) :
    History Q A → Dialogue Q A R → Prop
  | past, .done result => ends past result
  | past, .ask query next => asks past query ∧
      ∀ answer, Holds asks ends (past ++ [⟨query, answer⟩]) (next answer)

theorem Run.trans {d middle last : Dialogue Q A R} {past more : History Q A}
    (run : Run d past middle) (rest : Run middle more last) : Run d (past ++ more) last := by
  induction run with
  | here d => exact rest
  | answer answer run ih => exact .answer answer (ih rest)

theorem Run.of_ask {d last : Dialogue Q A R} {query : Q} {next : A query → Dialogue Q A R}
    {answer : A query} {more : History Q A} (same : d = .ask query next)
    (rest : Run (next answer) more last) : Run d (⟨query, answer⟩ :: more) last := by
  subst same
  exact .answer answer rest

theorem Run.of_done {result other : R} {past : History Q A}
    (run : Run (.done result) past (.done other)) : past = [] ∧ result = other := by
  cases run
  exact ⟨rfl, rfl⟩

-- What is left of a dialogue depends on the answers alone.
theorem Run.unique {d last other : Dialogue Q A R} {past : History Q A}
    (run : Run d past last) (again : Run d past other) : last = other := by
  induction run with
  | here d =>
    cases again
    rfl
  | answer answer run ih =>
    cases again with
    | answer _ again => exact ih again

-- What a longer run does after a shorter one.
theorem Run.rest {d middle last : Dialogue Q A R} {past more : History Q A}
    (run : Run d past middle) (whole : Run d (past ++ more) last) : Run middle more last := by
  induction run with
  | here d => exact whole
  | answer answer run ih =>
    cases whole with
    | answer _ whole => exact ih whole

-- One course of answers leads to one end.
theorem Run.same_end {d : Dialogue Q A R} {front other past : History Q A} {result last : R}
    (run : Run d front (.done result)) (again : Run d other (.done last)) (before : front <+: past)
    (also : other <+: past) : front = other ∧ result = last := by
  induction front generalizing d other past with
  | nil =>
    cases run
    cases again
    exact ⟨rfl, rfl⟩
  | cons event front ih =>
    cases run with
    | answer answer run =>
      cases again with
      | answer answer' again =>
        obtain ⟨more, rfl⟩ := before
        rw [List.cons_append, List.cons_prefix_cons] at also
        obtain ⟨same, also⟩ := also
        cases same
        obtain ⟨rfl, rfl⟩ := ih run again (List.prefix_append _ _) also
        exact ⟨rfl, rfl⟩

variable {asks : History Q A → Q → Prop} {ends : History Q A → R → Prop}

theorem Holds.run {d last : Dialogue Q A R} {past more : History Q A}
    (holds : Holds asks ends past d) (run : Run d more last) :
    Holds asks ends (past ++ more) last := by
  induction run generalizing past with
  | here d => simpa using holds
  | answer answer rest ih =>
    have next := ih (holds.2 answer)
    rwa [List.append_assoc] at next

theorem Holds.asked {d : Dialogue Q A R} {more : History Q A} {query : Q}
    {next : A query → Dialogue Q A R} (holds : Holds asks ends [] d)
    (run : Run d more (.ask query next)) : asks more query :=
  (holds.run run).1

theorem Holds.ended {d : Dialogue Q A R} {more : History Q A} {result : R}
    (holds : Holds asks ends [] d) (run : Run d more (.done result)) : ends more result :=
  holds.run run

def play (host : (query : Q) → A query) : Dialogue Q A R → History Q A × R
  | .done result => ([], result)
  | .ask query next =>
      let (more, result) := play host (next (host query))
      (⟨query, host query⟩ :: more, result)

def ending (host : (query : Q) → A query) (d : Dialogue Q A R) : R := (play host d).2

theorem play_run (host : (query : Q) → A query) (d : Dialogue Q A R) :
    Run d (play host d).1 (.done (ending host d)) := by
  induction d with
  | done result => exact .here _
  | ask query next ih => exact .answer (host query) (ih (host query))

def follow [DecidableEq Q] : History Q A → Dialogue Q A R → Option (Dialogue Q A R)
  | [], d => some d
  | ⟨query, answer⟩ :: more, .ask asked next =>
      if same : query = asked then follow more (next (same ▸ answer)) else none
  | _ :: _, .done _ => none

def result? : Dialogue Q A R → Option R
  | .done result => some result
  | .ask _ _ => none

def query? : Dialogue Q A R → Option Q
  | .done _ => none
  | .ask query _ => some query

theorem follow_run [DecidableEq Q] {d last : Dialogue Q A R} {more : History Q A}
    (found : follow more d = some last) : Run d more last := by
  induction more generalizing d with
  | nil =>
    cases found
    exact .here _
  | cons event more ih =>
    obtain ⟨query, answer⟩ := event
    cases d with
    | done result => simp [follow] at found
    | ask asked next =>
      by_cases same : query = asked
      · subst same
        exact .answer answer (ih (by simpa [follow] using found))
      · simp [follow, same] at found

theorem run_of_result [DecidableEq Q] {d : Dialogue Q A R} {more : History Q A} {result : R}
    (found : (follow more d).bind result? = some result) : Run d more (.done result) := by
  obtain ⟨last, followed, ended⟩ := Option.bind_eq_some_iff.mp found
  cases last with
  | done other =>
    obtain rfl : other = result := by simpa [result?] using ended
    exact follow_run followed
  | ask => simp [result?] at ended

theorem run_of_query [DecidableEq Q] {d : Dialogue Q A R} {more : History Q A} {query : Q}
    (found : (follow more d).bind query? = some query) :
    ∃ next, Run d more (.ask query next) := by
  obtain ⟨last, followed, asked⟩ := Option.bind_eq_some_iff.mp found
  cases last with
  | done => simp [query?] at asked
  | ask other next =>
    obtain rfl : other = query := by simpa [query?] using asked
    exact ⟨next, follow_run followed⟩

def bind {S : Type} : Dialogue Q A R → (R → Dialogue Q A S) → Dialogue Q A S
  | .done result, rest => rest result
  | .ask query next, rest => .ask query fun answer => (next answer).bind rest

instance : Monad (Dialogue Q A) where
  pure := .done
  bind := .bind

def put (query : Q) : Dialogue Q A (A query) := .ask query .done

-- The same dialogue in another language, in which `ask` asks its questions.
def translate {Q' : Type} {A' : Q' → Type} (ask : (query : Q) → Dialogue Q' A' (A query)) :
    Dialogue Q A R → Dialogue Q' A' R
  | .done result => .done result
  | .ask query next => ask query >>= fun answer => (next answer).translate ask

@[simp] theorem pure_eq (result : R) : (pure result : Dialogue Q A R) = .done result := rfl

@[simp] theorem done_bind {S : Type} (result : R) (rest : R → Dialogue Q A S) :
    (Dialogue.done result : Dialogue Q A R) >>= rest = rest result := rfl

@[simp] theorem ask_bind {S : Type} (query : Q) (next : A query → Dialogue Q A R)
    (rest : R → Dialogue Q A S) :
    (Dialogue.ask query next : Dialogue Q A R) >>= rest =
      .ask query fun answer => next answer >>= rest := rfl

@[simp] theorem put_bind {S : Type} (query : Q) (rest : A query → Dialogue Q A S) :
    put query >>= rest = .ask query rest := rfl

theorem bind_assoc {S T : Type} (d : Dialogue Q A R) (middle : R → Dialogue Q A S)
    (last : S → Dialogue Q A T) :
    d >>= middle >>= last = d >>= fun result => middle result >>= last := by
  induction d with
  | done result => rfl
  | ask query next ih => exact congrArg (Dialogue.ask query) (funext ih)

theorem bind_congr {S : Type} {d : Dialogue Q A R} {rest other : R → Dialogue Q A S}
    (same : ∀ result, rest result = other result) : d >>= rest = d >>= other :=
  congrArg (d >>= ·) (funext same)

-- A run of one dialogue after another is a run of each.
theorem Run.of_bind {S : Type} {d : Dialogue Q A R} {rest : R → Dialogue Q A S}
    {past : History Q A} {result : S} (run : Run (d >>= rest) past (.done result)) :
    ∃ front middle back, Run d front (.done middle) ∧ Run (rest middle) back (.done result) ∧
      past = front ++ back := by
  induction d generalizing past with
  | done middle => exact ⟨[], middle, past, .here _, run, rfl⟩
  | ask query next ih =>
    cases run with
    | answer answer later =>
      obtain ⟨front, middle, back, first, second, rfl⟩ := ih answer later
      exact ⟨_, middle, back, .answer answer first, second, rfl⟩

def Always (asks : Q → Prop) (ends : R → Prop) : Dialogue Q A R → Prop
  | .done result => ends result
  | .ask query next => asks query ∧ ∀ answer, Always asks ends (next answer)

theorem Always.run {asks : Q → Prop} {ends : R → Prop} {d last : Dialogue Q A R}
    {past : History Q A} (always : Always asks ends d) (run : Run d past last) :
    Always asks ends last := by
  induction run with
  | here d => exact always
  | answer answer run ih => exact ih (always.2 answer)

theorem Always.mono {asks : Q → Prop} {ends ends' : R → Prop} {d : Dialogue Q A R}
    (always : Always asks ends d) (weaker : ∀ result, ends result → ends' result) :
    Always asks ends' d := by
  induction d with
  | done result => exact weaker result always
  | ask query next ih => exact ⟨always.1, fun answer => ih answer (always.2 answer)⟩

theorem Always.bind {S : Type} {asks : Q → Prop} {ends : R → Prop} {ends' : S → Prop}
    {d : Dialogue Q A R} {rest : R → Dialogue Q A S} (always : Always asks ends d)
    (later : ∀ result, ends result → Always asks ends' (rest result)) :
    Always asks ends' (d >>= rest) := by
  induction d with
  | done result => exact later result always
  | ask query next ih => exact ⟨always.1, fun answer => ih answer (always.2 answer)⟩

theorem always_any (d : Dialogue Q A R) : Always (fun _ => True) (fun _ => True) d := by
  induction d with
  | done result => trivial
  | ask query next ih => exact ⟨trivial, ih⟩

theorem Always.translate {Q' : Type} {A' : Q' → Type} {asks : Q' → Prop}
    {ask : (query : Q) → Dialogue Q' A' (A query)} {ends : R → Prop} {d : Dialogue Q A R}
    (always : Always (fun _ => True) ends d)
    (each : ∀ query, Always asks (fun _ => True) (ask query)) :
    Always asks ends (d.translate ask) := by
  induction d with
  | done result => exact always
  | ask query next ih => exact (each query).bind fun answer _ => ih answer (always.2 answer)

theorem Always.asked {asks : Q → Prop} {ends : R → Prop} {d last : Dialogue Q A R}
    {past : History Q A} (always : Always asks ends d) (run : Run d past last) :
    ∀ event ∈ past, asks event.1 := by
  induction run with
  | here d => simp
  | answer answer run ih =>
    simp only [List.mem_cons, forall_eq_or_imp]
    exact ⟨always.1, ih (always.2 answer)⟩

theorem Always.ended {asks : Q → Prop} {ends : R → Prop} {d : Dialogue Q A R}
    {past : History Q A} {result : R} (always : Always asks ends d)
    (run : Run d past (.done result)) : ends result :=
  always.run run

theorem play_bind {S : Type} (host : (query : Q) → A query) (d : Dialogue Q A R)
    (rest : R → Dialogue Q A S) :
    play host (d >>= rest) =
      ((play host d).1 ++ (play host (rest (ending host d))).1,
        ending host (rest (ending host d))) := by
  induction d with
  | done result => rfl
  | ask query next ih =>
    rw [ask_bind, play, ih]
    rfl

@[simp] theorem ending_done (host : (query : Q) → A query) (result : R) :
    ending host (.done result) = result := rfl

@[simp] theorem ending_ask (host : (query : Q) → A query) (query : Q)
    (next : A query → Dialogue Q A R) :
    ending host (.ask query next) = ending host (next (host query)) := rfl

theorem ending_bind {S : Type} (host : (query : Q) → A query) (d : Dialogue Q A R)
    (rest : R → Dialogue Q A S) :
    ending host (d >>= rest) = ending host (rest (ending host d)) := by
  rw [ending, play_bind]

end Dialogue
