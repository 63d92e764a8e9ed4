import HttpServer.Library.Numerals
import Mathlib.Data.List.DropRight

set_option autoImplicit false

/-!
# References relative to a path

A path is the segments between its slashes. A relative reference takes the place of everything
behind the last slash; then segments of one dot go away, and segments of two dots go away
together with the segment before them.
-/

namespace References

open Unicode Numerals

def slash : UInt16 := unitOf '/'

def question : UInt16 := unitOf '?'

def hash : UInt16 := unitOf '#'

def dot : Units := [unitOf '.']

def dots : Units := [unitOf '.', unitOf '.']

-- The first segment stands for the root and stays.
def up : List Units → List Units
  | _ :: below :: rest => below :: rest
  | stack => stack

-- `stack` holds the segments gone through, the last one first.
def removeDots : List Units → List Units → List Units
  | stack, [] => stack.reverse
  | stack, segment :: rest =>
      let last := if rest = [] then [[]] else []
      if segment = dot then removeDots (last ++ stack) rest
      else if segment = dots then removeDots (last ++ up stack) rest
      else removeDots (segment :: stack) rest

def removeDotSegments (path : Units) : Units :=
  [slash].intercalate (removeDots [] (path.splitOn slash))

def merge (base path : Units) : Units := base.rdropWhile (· != slash) ++ path

-- The target of a reference that has no scheme, no authority and no slash in front.
def resolve (base reference : Units) : Units :=
  let body := reference.takeWhile (· != hash)
  removeDotSegments (merge base (body.takeWhile (· != question))) ++ body.dropWhile (· != question)

def Dotless (segments : List Units) : Prop := ∀ segment ∈ segments, segment ≠ dot ∧ segment ≠ dots

instance (segments : List Units) : Decidable (Dotless segments) :=
  inferInstanceAs (Decidable (∀ segment ∈ segments, segment ≠ dot ∧ segment ≠ dots))

theorem removeDots_dotless {segments : List Units} (dotless : Dotless segments)
    (stack rest : List Units) :
    removeDots stack (segments ++ rest) = removeDots (segments.reverse ++ stack) rest := by
  induction segments generalizing stack with
  | nil => rfl
  | cons segment segments ih =>
    obtain ⟨notDot, notDots⟩ := dotless segment (by simp)
    rw [List.cons_append, removeDots, if_neg notDot, if_neg notDots,
      ih fun other member => dotless other (by simp [member])]
    simp

-- One dot between two slashes changes nothing.
theorem removeDotSegments_here {front more : Units} (before : Dotless (front.splitOn slash))
    (behind : Dotless (more.splitOn slash)) :
    removeDotSegments (front ++ slash :: (dot ++ slash :: more)) = front ++ slash :: more := by
  have alone : dot.splitOn slash = [dot] := by decide
  have notEmpty : more.splitOn slash ≠ [] := List.splitOn_ne_nil _ _
  have whole : removeDots [] ((front ++ slash :: (dot ++ slash :: more)).splitOn slash) =
      (front ++ slash :: more).splitOn slash := by
    rw [List.splitOn_append_cons_self, List.splitOn_append_cons_self, alone,
      List.splitOn_append_cons_self, removeDots_dotless before, List.singleton_append, removeDots]
    simp only [notEmpty, if_true, if_false, List.nil_append]
    have rest := removeDots_dotless behind ((front.splitOn slash).reverse ++ []) []
    simp only [List.append_nil] at rest ⊢
    rw [rest, removeDots, List.reverse_append, List.reverse_reverse, List.reverse_reverse]
  rw [removeDotSegments, whole, List.intercalate_splitOn]

-- A reference to what lies in the directory that the base names.
theorem resolve_here {front more query : Units} (before : Dotless (front.splitOn slash))
    (behind : Dotless (more.splitOn slash)) (noQuestion : question ∉ more) (noHash : hash ∉ more)
    (asks : query = [] ∨ ∃ text, query = question :: text) :
    resolve (front ++ [slash]) (dot ++ slash :: (more ++ query)) =
      front ++ slash :: (more ++ query.takeWhile (· != hash)) := by
  have path : dot ++ slash :: more = (dot ++ [slash]) ++ more := by simp
  have noHash' : hash ∉ dot ++ slash :: more := by
    rw [path, List.mem_append, not_or]
    exact ⟨by decide, noHash⟩
  have noQuestion' : question ∉ dot ++ slash :: more := by
    rw [path, List.mem_append, not_or]
    exact ⟨by decide, noQuestion⟩
  have passes {u : UInt16} {s : Units} (absent : u ∉ s) : ∀ v ∈ s, (v != u) = true := by
    intro v member
    rw [bne_iff_ne]
    exact fun same => absent (same ▸ member)
  have body : (dot ++ slash :: (more ++ query)).takeWhile (· != hash) =
      dot ++ slash :: more ++ query.takeWhile (· != hash) := by
    have whole : dot ++ slash :: (more ++ query) = dot ++ slash :: more ++ query := by simp
    rw [whole, List.takeWhile_append_of_pos (passes noHash')]
  have stops : (query.takeWhile (· != hash)).takeWhile (· != question) = [] ∧
      (query.takeWhile (· != hash)).dropWhile (· != question) = query.takeWhile (· != hash) := by
    rcases asks with rfl | ⟨text, rfl⟩
    · exact ⟨rfl, rfl⟩
    · have other : question ≠ hash := by decide
      simp [other]
  have base : merge (front ++ [slash]) (dot ++ slash :: more) =
      front ++ slash :: (dot ++ slash :: more) := by
    rw [merge, List.rdropWhile_concat_neg _ _ _ (by decide), List.append_assoc]
    rfl
  rw [resolve]
  simp only [body, List.takeWhile_append_of_pos (passes noQuestion'),
    List.dropWhile_append_of_pos (passes noQuestion'), stops.1, stops.2, List.append_nil, base,
    removeDotSegments_here before behind]
  simp

end References
