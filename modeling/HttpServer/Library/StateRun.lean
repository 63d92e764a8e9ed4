import Mathlib.Tactic.SplitIfs

set_option autoImplicit false

namespace StateRun

variable {ε σ α β : Type}

@[simp] theorem bind_ok (x : EStateM ε σ α) (f : α → EStateM ε σ β) (s t : σ) (b : β) :
    (x >>= f) s = .ok b t ↔ ∃ a u, x s = .ok a u ∧ f a u = .ok b t := by
  change EStateM.bind x f s = _ ↔ _
  unfold EStateM.bind
  cases x s with
  | ok a u =>
    simp only [EStateM.Result.ok.injEq]
    exact ⟨fun h => ⟨a, u, ⟨rfl, rfl⟩, h⟩, fun ⟨_, _, ⟨rfl, rfl⟩, h⟩ => h⟩
  | error e u => simp

theorem bind_of_ok {x : EStateM ε σ α} {f : α → EStateM ε σ β} {s t : σ} {a : α}
    (run : x s = .ok a t) : (x >>= f) s = f a t := by
  change EStateM.bind x f s = _
  unfold EStateM.bind
  rw [run]

theorem bind_of_error {x : EStateM ε σ α} {f : α → EStateM ε σ β} {s t : σ} {e : ε}
    (run : x s = .error e t) : (x >>= f) s = .error e t := by
  change EStateM.bind x f s = _
  unfold EStateM.bind
  rw [run]

@[simp] theorem map_ok (f : α → β) (x : EStateM ε σ α) (s t : σ) (b : β) :
    (f <$> x) s = .ok b t ↔ ∃ a, x s = .ok a t ∧ f a = b := by
  change EStateM.map f x s = _ ↔ _
  unfold EStateM.map
  cases x s with
  | ok a u =>
    simp only [EStateM.Result.ok.injEq]
    exact ⟨fun ⟨h, same⟩ => ⟨a, ⟨rfl, same⟩, h⟩, fun ⟨_, ⟨rfl, same⟩, h⟩ => ⟨h, same⟩⟩
  | error e u => simp

@[simp] theorem pure_ok (a b : α) (s t : σ) :
    (pure a : EStateM ε σ α) s = .ok b t ↔ a = b ∧ s = t := by
  change EStateM.Result.ok a s = _ ↔ _
  simp

@[simp] theorem throw_ok (e : ε) (b : α) (s t : σ) :
    (throw e : EStateM ε σ α) s = .ok b t ↔ False := by
  change EStateM.Result.error e s = _ ↔ _
  simp

@[simp] theorem get_ok (b s t : σ) : (get : EStateM ε σ σ) s = .ok b t ↔ s = b ∧ s = t := by
  change EStateM.Result.ok s s = _ ↔ _
  simp

@[simp] theorem modify_ok (f : σ → σ) (u : PUnit) (s t : σ) :
    (modify f : EStateM ε σ PUnit) s = .ok u t ↔ f s = t := by
  change EStateM.Result.ok PUnit.unit (f s) = _ ↔ _
  simp

@[simp] theorem ite_ok (p : Prop) [Decidable p] (x y : EStateM ε σ α) (b : α) (s t : σ) :
    (if p then x else y) s = .ok b t ↔ (p ∧ x s = .ok b t) ∨ (¬p ∧ y s = .ok b t) := by
  split_ifs <;> simp_all

theorem bind_error (x : EStateM ε σ α) (f : α → EStateM ε σ β) (s t : σ) (e : ε) :
    (x >>= f) s = .error e t ↔
      x s = .error e t ∨ ∃ a u, x s = .ok a u ∧ f a u = .error e t := by
  change EStateM.bind x f s = _ ↔ _
  unfold EStateM.bind
  cases x s with
  | ok a u =>
    simp only [EStateM.Result.ok.injEq, reduceCtorEq, false_or]
    exact ⟨fun h => ⟨a, u, ⟨rfl, rfl⟩, h⟩, fun ⟨_, _, ⟨rfl, rfl⟩, h⟩ => h⟩
  | error e u => simp

@[simp] theorem pure_error (a : α) (s t : σ) (e : ε) :
    (pure a : EStateM ε σ α) s = .error e t ↔ False := by
  change EStateM.Result.ok a s = _ ↔ _
  simp

@[simp] theorem throw_error (e e' : ε) (s t : σ) :
    (throw e : EStateM ε σ α) s = .error e' t ↔ e = e' ∧ s = t := by
  change EStateM.Result.error e s = _ ↔ _
  simp

@[simp] theorem get_error (s t : σ) (e : ε) :
    (get : EStateM ε σ σ) s = .error e t ↔ False := by
  change EStateM.Result.ok s s = _ ↔ _
  simp

@[simp] theorem modify_error (f : σ → σ) (s t : σ) (e : ε) :
    (modify f : EStateM ε σ PUnit) s = .error e t ↔ False := by
  change EStateM.Result.ok PUnit.unit (f s) = _ ↔ _
  simp

@[simp] theorem ite_error (p : Prop) [Decidable p] (x y : EStateM ε σ α) (s t : σ) (e : ε) :
    (if p then x else y) s = .error e t ↔ (p ∧ x s = .error e t) ∨ (¬p ∧ y s = .error e t) := by
  split_ifs <;> simp_all

theorem except_bind_ok (x : Except ε α) (f : α → Except ε β) (b : β) :
    x >>= f = .ok b ↔ ∃ a, x = .ok a ∧ f a = .ok b := by
  cases x with
  | ok a => exact ⟨fun h => ⟨a, rfl, h⟩, fun ⟨_, same, h⟩ => Except.ok.inj same ▸ h⟩
  | error e =>
    constructor
    · exact fun h => nomatch h
    · exact fun ⟨_, same, _⟩ => nomatch same

theorem except_throw_ok (e : ε) (b : α) : (throw e : Except ε α) = .ok b ↔ False := by
  change Except.error e = _ ↔ _
  simp

theorem except_ite_ok (p : Prop) [Decidable p] (x y : Except ε α) (b : α) :
    (if p then x else y) = .ok b ↔ (p ∧ x = .ok b) ∨ (¬p ∧ y = .ok b) := by
  split_ifs <;> simp_all

-- The outcome of a successful run, as data that can be compared.
def value? : EStateM.Result ε σ α → Option (α × σ)
  | .ok a s => some (a, s)
  | .error _ _ => none

theorem value?_eq_some {result : EStateM.Result ε σ α} {a : α} {s : σ} :
    value? result = some (a, s) ↔ result = .ok a s := by
  cases result <;> simp [value?]

end StateRun
