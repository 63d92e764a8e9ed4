import Mathlib.Data.List.Basic
import Mathlib.Order.WellFounded

set_option autoImplicit false

/-!
# Machines that take labelled steps

A machine is a first state and a partial step function; the label of a step says who moves
and holds every choice that the machine does not make itself.
-/

structure Machine (σ Λ : Type) where
  init : σ
  step : Λ → σ → Option σ

namespace Machine

variable {σ Λ : Type} (M : Machine σ Λ)

inductive Path : σ → List Λ → σ → Prop
  | here (s : σ) : Path s [] s
  | step {s next last : σ} {label : Λ} {rest : List Λ} (move : M.step label s = some next)
      (more : Path next rest last) : Path s (label :: rest) last

def Reachable (s : σ) : Prop := ∃ labels, M.Path M.init labels s

def exec : List Λ → σ → Option σ
  | [], s => some s
  | label :: rest, s => (M.step label s).bind (exec rest)

variable {M}

theorem path_of_exec {labels : List Λ} {s last : σ} (run : M.exec labels s = some last) :
    M.Path s labels last := by
  induction labels generalizing s with
  | nil =>
    cases run
    exact .here _
  | cons label rest ih =>
    obtain ⟨next, move, more⟩ := Option.bind_eq_some_iff.mp run
    exact .step move (ih more)

theorem Path.append {s middle last : σ} {front back : List Λ} (first : M.Path s front middle)
    (second : M.Path middle back last) : M.Path s (front ++ back) last := by
  induction first with
  | here => exact second
  | step move more ih => exact .step move (ih second)

theorem Path.single {s next : σ} {label : Λ} (move : M.step label s = some next) :
    M.Path s [label] next :=
  .step move (.here next)

theorem Reachable.path {s last : σ} {labels : List Λ} (reached : M.Reachable s)
    (path : M.Path s labels last) : M.Reachable last := by
  obtain ⟨before, first⟩ := reached
  exact ⟨before ++ labels, first.append path⟩

theorem Reachable.next {s last : σ} {label : Λ} (reached : M.Reachable s)
    (move : M.step label s = some last) : M.Reachable last :=
  reached.path (.single move)

theorem reachable_of_exec {labels : List Λ} {s : σ} (run : M.exec labels M.init = some s) :
    M.Reachable s :=
  ⟨labels, path_of_exec run⟩

theorem Path.preserves {P : σ → Prop} {s last : σ} {labels : List Λ}
    (keeps : ∀ s label next, P s → M.step label s = some next → P next)
    (path : M.Path s labels last) (start : P s) : P last := by
  induction path with
  | here => exact start
  | step move more ih => exact ih (keeps _ _ _ start move)

theorem Reachable.invariant {P : σ → Prop} {s : σ} (start : P M.init)
    (keeps : ∀ s label next, P s → M.step label s = some next → P next)
    (reached : M.Reachable s) : P s := by
  obtain ⟨labels, path⟩ := reached
  exact path.preserves keeps start

-- An invariant that is shown with the help of another one.
theorem Reachable.invariant_with {P Q : σ → Prop} {s : σ} (start : P M.init)
    (known : ∀ s, M.Reachable s → Q s)
    (keeps : ∀ s label next, P s → Q s → M.step label s = some next → P next)
    (reached : M.Reachable s) : P s := by
  have both : M.Reachable s ∧ P s := by
    apply Reachable.invariant (P := fun s => M.Reachable s ∧ P s) ⟨⟨[], .here _⟩, start⟩ _ reached
    intro s label next holds move
    exact ⟨holds.1.next move, keeps s label next holds.2 (known s holds.1) move⟩
  exact both.2

-- None of the moves in `own` is possible.
def Rests (M : Machine σ Λ) (own : Λ → Prop) (s : σ) : Prop :=
  ∀ label, own label → M.step label s = none

-- When every own move descends, own moves alone cannot go on for ever.
theorem own_wellFounded {α : Type} {r : α → α → Prop} (wf : WellFounded r) (own : Λ → Prop)
    (P : σ → Prop) (measure : σ → α)
    (descends : ∀ s label next, P s → own label → M.step label s = some next →
      r (measure next) (measure s)) :
    WellFounded fun next s : σ => P s ∧ ∃ label, own label ∧ M.step label s = some next := by
  apply Subrelation.wf _ (InvImage.wf measure wf)
  rintro next s ⟨holds, label, mine, move⟩
  exact descends s label next holds mine move

-- So far own moves alone can go.
theorem Path.length_le {own : Λ → Prop} {measure : σ → Nat}
    (descends : ∀ s label next, own label → M.step label s = some next → measure next < measure s)
    {s last : σ} {labels : List Λ} (path : M.Path s labels last) (mine : ∀ label ∈ labels, own label) :
    labels.length + measure last ≤ measure s := by
  induction path with
  | here => simp
  | step move more ih =>
    have here := descends _ _ _ (mine _ List.mem_cons_self) move
    have later := ih fun label member => mine label (List.mem_cons_of_mem _ member)
    rw [List.length_cons]
    omega

-- From everywhere own moves lead to a state of rest.
theorem reaches_rest {own : Λ → Prop} {P : σ → Prop}
    (keeps : ∀ s label next, P s → M.step label s = some next → P next)
    (wf : WellFounded fun next s : σ => P s ∧ ∃ label, own label ∧ M.step label s = some next)
    (s : σ) (start : P s) :
    ∃ labels last, (∀ label ∈ labels, own label) ∧ M.Path s labels last ∧ M.Rests own last := by
  induction s using wf.induction with
  | _ s ih =>
    by_cases rests : M.Rests own s
    · exact ⟨[], s, by simp, .here s, rests⟩
    · simp only [Rests, not_forall] at rests
      obtain ⟨label, mine, moves⟩ := rests
      obtain ⟨next, move⟩ := Option.ne_none_iff_exists'.mp moves
      obtain ⟨labels, last, all, path, rests⟩ :=
        ih next ⟨start, label, mine, move⟩ (keeps s label next start move)
      exact ⟨label :: labels, last, by simpa using ⟨mine, all⟩, .step move path, rests⟩

end Machine
