import Mathlib.Data.List.Infix

set_option autoImplicit false

/-!
# Normalising a path by its components

A component is skipped, names an entry, or leads up. Going up from the start of a rooted path
stays there; going up from the start of another path is kept.
-/

namespace LexicalPath

variable {α : Type} (skip up : α → Bool)

-- The entries gone through, the last one first.
def push (rooted : Bool) (stack : List α) (part : α) : List α :=
  if skip part then stack
  else if up part then
    match stack with
    | [] => if rooted then [] else [part]
    | top :: below => if up top then part :: stack else below
  else part :: stack

def normalize (rooted : Bool) (parts : List α) : List α :=
  (parts.foldl (push skip up rooted) []).reverse

theorem foldl_push_names (rooted : Bool) (stack parts : List α)
    (names : ∀ part ∈ parts, skip part = true ∨ up part = false) :
    parts.foldl (push skip up rooted) stack = (parts.filter (!skip ·)).reverse ++ stack := by
  induction parts generalizing stack with
  | nil => rfl
  | cons part rest ih =>
    rw [List.foldl_cons, ih _ fun other member => names other (by simp [member])]
    by_cases skipped : skip part = true
    · simp [push, skipped]
    · have name := (names part (by simp)).resolve_left skipped
      simp [push, skipped, name]

-- Names put behind a path lead into what the path denotes.
theorem normalize_append (rooted : Bool) (front back : List α)
    (names : ∀ part ∈ back, skip part = true ∨ up part = false) :
    normalize skip up rooted (front ++ back) =
      normalize skip up rooted front ++ back.filter (!skip ·) := by
  rw [normalize, List.foldl_append, foldl_push_names skip up rooted _ back names,
    List.reverse_append, List.reverse_reverse, normalize]

end LexicalPath
