import HttpServer.Core.Routing

set_option autoImplicit false

namespace HttpServer.Core

open Unicode Text

def slashed (s : Str) : Bool := hasPrefix s (str "/")

-- What stands behind the leading occurrences of `old`, in the manner of `replaceLoop`.
def behind (old : Str) : Str → Nat → Str
  | [], _ => []
  | _ :: rest, skip + 1 => behind old rest skip
  | u :: rest, 0 =>
      if hasPrefix (u :: rest) old then behind old rest (old.length - 1) else u :: rest

-- `new` takes the place of what stood before `rest`.
def slashAfter (new rest : Str) : Bool := slashed new || (new.isEmpty && slashed rest)

def leavesSlash (path : Str) (pair : Str × Str) : Bool :=
  if hasPrefix pair.1 (str "^") then
    let pfx := pair.1.drop 1
    if hasPrefix path pfx then slashAfter pair.2 (path.drop pfx.length) else slashed path
  else if pair.1 = [] then slashAfter pair.2 path
  else if hasPrefix path pair.1 then slashAfter pair.2 (behind pair.1 path 0)
  else slashed path

-- Whether the last rewriting leaves a slash in front, or, without any, one stands there.
def keepsSlash : List (Str × Str) → Str → Bool
  | [], path => slashed path
  | [pair], path => leavesSlash path pair
  | pair :: next :: rest, path => keepsSlash (next :: rest) (rewritePath path pair)

theorem slashed_cons (u : UInt16) (rest : Str) : slashed (u :: rest) = (u == unit '/') := by
  have nil : ([] : Str).isPrefixOf rest = true := rfl
  change ((unit '/' == u) && ([] : Str).isPrefixOf rest) = _
  rw [nil, Bool.and_true, Bool.beq_comm]

theorem slashed_append (new rest : Str) : slashed (new ++ rest) = slashAfter new rest := by
  cases new with
  | nil => rfl
  | cons u new =>
    unfold slashAfter
    rw [List.cons_append, slashed_cons, slashed_cons]
    simp

theorem replaceLoop_empty (old s : Str) (skip : Nat) :
    slashed (replaceLoop old [] s skip) = slashed (behind old s skip) := by
  induction s generalizing skip with
  | nil => rfl
  | cons u rest ih =>
    cases skip with
    | succ skip => exact ih skip
    | zero =>
      unfold replaceLoop behind
      by_cases here : hasPrefix (u :: rest) old = true
      · rw [if_pos here, if_pos here]
        exact ih _
      · rw [if_neg here, if_neg here, slashed_cons, slashed_cons]

theorem replaceLoop_front {old new path : Str} (some : old ≠ [])
    (here : hasPrefix path old = true) :
    slashed (replaceLoop old new path 0) = slashAfter new (behind old path 0) := by
  cases new with
  | nil => exact replaceLoop_empty old path 0
  | cons v new =>
    cases path with
    | nil =>
      have empty : old = [] := by simpa [hasPrefix] using here
      exact absurd empty some
    | cons u rest =>
      unfold replaceLoop
      rw [if_pos here, slashed_append]
      simp [slashAfter]

theorem replaceLoop_later {old new path : Str} (elsewhere : hasPrefix path old ≠ true) :
    slashed (replaceLoop old new path 0) = slashed path := by
  cases path with
  | nil => rfl
  | cons u rest =>
    unfold replaceLoop
    rw [if_neg elsewhere, slashed_cons, slashed_cons]

theorem slashed_insertions (new path : Str) :
    slashed (replaceAll path [] new) = slashAfter new path := by
  unfold replaceAll
  rw [if_pos rfl, slashed_append]
  cases new with
  | nil => simp [slashAfter, utf16_codePoints]
  | cons v new => simp [slashAfter]

theorem contains_front {path part : Str} (here : hasPrefix path part = true) :
    Text.contains path part = true := by
  unfold Text.contains
  rw [List.any_eq_true]
  exact ⟨path, by simp, here⟩

theorem slashed_rewritePath (path : Str) (pair : Str × Str) :
    slashed (rewritePath path pair) = leavesSlash path pair := by
  unfold rewritePath leavesSlash
  by_cases anchored : hasPrefix pair.1 (str "^") = true
  · rw [if_pos anchored, if_pos anchored]
    dsimp only
    by_cases here : hasPrefix path (pair.1.drop 1) = true
    · rw [if_pos here, if_pos here, slashed_append]
    · rw [if_neg here, if_neg here]
  · rw [if_neg anchored, if_neg anchored]
    by_cases empty : pair.1 = []
    · have everywhere : Text.contains path pair.1 = true := contains_front (by rw [empty]; rfl)
      rw [if_pos everywhere, if_pos empty, empty, slashed_insertions]
    · rw [if_neg empty]
      by_cases here : hasPrefix path pair.1 = true
      · rw [if_pos (contains_front here), if_pos here, replaceAll, if_neg empty,
          replaceLoop_front empty here]
      · rw [if_neg here]
        split
        next => rw [replaceAll, if_neg empty, replaceLoop_later here]
        next => rfl

theorem slashed_rewritten (rewrites : List (Str × Str)) (path : Str) :
    slashed (rewrites.foldl rewritePath path) = keepsSlash rewrites path := by
  induction rewrites generalizing path with
  | nil => rfl
  | cons pair rest ih =>
    cases rest with
    | nil => exact slashed_rewritePath path pair
    | cons next rest => exact ih _

end HttpServer.Core
