import HttpServer.Library.Transition
import Mathlib.Data.List.Infix

set_option autoImplicit false

/-!
# Bounded queues with their history

The state of a machine may show such a queue: `view` says what went in, what is inside and what
came out, and every step of the machine is then one step of the queue. A queue may be cut: from
then on nothing comes out of it, whatever still goes in.
-/

/-- What went into a queue, what is inside of it and what came out of it, each oldest first. -/
structure Fifo (α : Type) where
  put : List α
  held : List α
  got : List α

namespace Fifo

variable {α : Type} {capacity : Nat} {q q' : Fifo α}

def empty : Fifo α := ⟨[], [], []⟩

inductive Step (capacity : Nat) : Fifo α → Fifo α → Prop
  | rest (q : Fifo α) : Step capacity q q
  | enter {q q' : Fifo α} (xs : List α) (put : q'.put = q.put ++ xs) (held : q'.held = q.held ++ xs)
      (got : q'.got = q.got) (room : q'.held.length ≤ capacity) : Step capacity q q'
  | leave {q q' : Fifo α} (xs : List α) (put : q'.put = q.put) (held : q.held = xs ++ q'.held)
      (got : q'.got = q.got ++ xs) : Step capacity q q'

/-- Nothing was lost, doubled or reordered, and the queue is not overfull. -/
structure Sound (capacity : Nat) (q : Fifo α) : Prop where
  order : q.got ++ q.held = q.put
  bounded : q.held.length ≤ capacity

theorem empty_sound : (empty : Fifo α).Sound capacity := ⟨rfl, Nat.zero_le capacity⟩

theorem Step.sound (step : Step capacity q q') (sound : q.Sound capacity) : q'.Sound capacity := by
  cases step with
  | rest => exact sound
  | enter xs put held got room =>
    refine ⟨?_, room⟩
    rw [got, held, put, ← List.append_assoc, sound.order]
  | leave xs put held got =>
    constructor
    · rw [got, put, ← sound.order, held, List.append_assoc]
    · have all := sound.bounded
      rw [held, List.length_append] at all
      omega

theorem Sound.got_prefix (sound : q.Sound capacity) : q.got <+: q.put := ⟨q.held, sound.order⟩

variable {σ Λ : Type} {M : Machine σ Λ}

-- Until it is cut the queue is sound, and what came out is always the front of what went in.
theorem sound_of_view (view : σ → Fifo α) (cut : σ → Prop) {P : σ → Prop}
    (known : ∀ s, M.Reachable s → P s) (start : (view M.init).Sound capacity)
    (whole : ∀ s label next, P s → M.step label s = some next → ¬ cut next →
      ¬ cut s ∧ Step capacity (view s) (view next))
    (after : ∀ s label next, P s → M.step label s = some next → cut next →
      (view next).got = (view s).got ∧ (view s).put <+: (view next).put)
    {s : σ} (reached : M.Reachable s) :
    (¬ cut s → (view s).Sound capacity) ∧ (view s).got <+: (view s).put := by
  apply Machine.Reachable.invariant_with (P := fun s => (¬ cut s → (view s).Sound capacity) ∧
    (view s).got <+: (view s).put) ⟨fun _ => start, start.got_prefix⟩ known _ reached
  intro s label next holds fact move
  by_cases ended : cut next
  · obtain ⟨got, put⟩ := after s label next fact move ended
    refine ⟨fun uncut => absurd ended uncut, ?_⟩
    rw [got]
    exact holds.2.trans put
  · obtain ⟨before, step⟩ := whole s label next fact move ended
    have sound := step.sound (holds.1 before)
    exact ⟨fun _ => sound, sound.got_prefix⟩

end Fifo
