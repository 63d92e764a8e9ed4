import Mathlib.Data.List.Nodup
import Mathlib.Data.List.Perm.Basic

set_option autoImplicit false

/-!
# Updates under keys

Entries with different keys whose updates commute leave the same state in every order. An update
may fail, and then the whole run does.
-/

namespace Updates

variable {κ α S : Type}

def run (step : κ → α → S → Option S) : List (κ × α) → S → Option S
  | [], s => some s
  | (k, v) :: rest, s => (step k v s).bind (run step rest)

def Commutes (step : κ → α → S → Option S) (shared : κ → Prop) : Prop :=
  ∀ k k' v v' s, shared k → shared k' → k ≠ k' →
    (step k v s).bind (step k' v') = (step k' v' s).bind (step k v)

theorem run_perm {step : κ → α → S → Option S} {shared : κ → Prop} (commutes : Commutes step shared)
    {entries others : List (κ × α)} (perm : entries.Perm others)
    (nodup : (entries.map Prod.fst).Nodup) (known : ∀ entry ∈ entries, shared entry.1) (s : S) :
    run step entries s = run step others s := by
  induction perm generalizing s with
  | nil => rfl
  | cons entry perm ih =>
    rw [List.map_cons, List.nodup_cons] at nodup
    have rest := ih nodup.2 fun other member => known other (List.mem_cons_of_mem _ member)
    exact congrArg (Option.bind _) (funext rest)
  | swap first second entries =>
    rw [List.map_cons, List.map_cons, List.nodup_cons, List.mem_cons, not_or] at nodup
    have here := commutes second.1 first.1 second.2 first.2 s (known second (by simp))
      (known first (by simp)) nodup.1.1
    have assoc (a b : κ × α) : run step (a :: b :: entries) s =
        ((step a.1 a.2 s).bind (step b.1 b.2)).bind (run step entries) := by
      rw [Option.bind_assoc]
      rfl
    rw [assoc, assoc, here]
  | trans perm perm' ih ih' =>
    have keys := (perm.map Prod.fst).nodup_iff.mp nodup
    rw [ih nodup known s]
    exact ih' keys (fun entry member => known entry (perm.mem_iff.mpr member)) s

end Updates
