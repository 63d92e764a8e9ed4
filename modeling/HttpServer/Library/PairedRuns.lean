import HttpServer.Library.StateRun

set_option autoImplicit false

/-! # Two stateful programs side by side

Each runs on states of its own. They match when they return the same values or raise the same
errors, in related states. -/

namespace PairedRuns

variable {ε σ τ υ α β : Type}

/-- `R` relates the states after a value, `E` those after an error. -/
inductive Match (R E : σ → τ → Prop) : EStateM.Result ε σ α → EStateM.Result ε τ α → Prop
  | ok (a : α) (s : σ) (t : τ) (related : R s t) : Match R E (.ok a s) (.ok a t)
  | error (e : ε) (s : σ) (t : τ) (broken : E s t) : Match R E (.error e s) (.error e t)

variable {R : σ → τ → Prop} {E : σ → τ → Prop}

theorem Match.bind {R' : σ → τ → Prop} {x : EStateM ε σ α} {y : EStateM ε τ α}
    {f : α → EStateM ε σ β} {g : α → EStateM ε τ β} {s : σ} {t : τ} (first : Match R' E (x s) (y t))
    (next : ∀ a s' t', R' s' t' → Match R E (f a s') (g a t')) :
    Match R E ((x >>= f) s) ((y >>= g) t) := by
  change Match R E (EStateM.bind x f s) (EStateM.bind y g t)
  unfold EStateM.bind
  generalize x s = left at first ⊢
  generalize y t = right at first ⊢
  cases first with
  | ok a s' t' related => exact next a s' t' related
  | error e s' t' broken => exact .error e s' t' broken

theorem Match.map {x : EStateM ε σ α} {y : EStateM ε τ α} {s : σ} {t : τ} (f : α → β)
    (first : Match R E (x s) (y t)) : Match R E ((f <$> x) s) ((f <$> y) t) := by
  change Match R E (EStateM.map f x s) (EStateM.map f y t)
  unfold EStateM.map
  generalize x s = left at first ⊢
  generalize y t = right at first ⊢
  cases first with
  | ok a s' t' related => exact .ok (f a) s' t' related
  | error e s' t' broken => exact .error e s' t' broken

theorem Match.get {f : σ → EStateM ε σ α} {g : τ → EStateM ε τ α} {s : σ} {t : τ}
    (next : Match R E (f s s) (g t t)) : Match R E ((get >>= f) s) ((get >>= g) t) := next

def Alike (R E : σ → τ → Prop) (x : EStateM ε σ α) (y : EStateM ε τ α) : Prop :=
  ∀ s t, R s t → Match R E (x s) (y t)

theorem Alike.pure (a : α) : Alike R E (pure a : EStateM ε σ α) (pure a) :=
  fun s t related => .ok a s t related

theorem Alike.throw (e : ε) (fails : ∀ s t, R s t → E s t) :
    Alike R E (throw e : EStateM ε σ α) (throw e) :=
  fun s t related => .error e s t (fails s t related)

theorem Alike.bind {x : EStateM ε σ α} {y : EStateM ε τ α} {f : α → EStateM ε σ β}
    {g : α → EStateM ε τ β} (first : Alike R E x y) (next : ∀ a, Alike R E (f a) (g a)) :
    Alike R E (x >>= f) (y >>= g) :=
  fun s t related => (first s t related).bind fun a s' t' => next a s' t'

theorem Alike.map {x : EStateM ε σ α} {y : EStateM ε τ α} (f : α → β) (alike : Alike R E x y) :
    Alike R E (f <$> x) (f <$> y) :=
  fun s t related => (alike s t related).map f

theorem Alike.ite {p : Prop} [Decidable p] {x x' : EStateM ε σ α} {y y' : EStateM ε τ α}
    (yes : Alike R E x y) (no : Alike R E x' y') :
    Alike R E (if p then x else x') (if p then y else y') := by
  by_cases holds : p
  · simpa only [if_pos holds] using yes
  · simpa only [if_neg holds] using no

end PairedRuns
