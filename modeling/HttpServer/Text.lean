import HttpServer.Library.Numerals
import Mathlib.Data.List.DropRight
import Mathlib.Data.List.Infix

set_option autoImplicit false

/-!
# Strings

A MoonBit `String` is a sequence of UTF-16 code units: `length` and indexing count units,
iteration yields code points.
-/

namespace HttpServer

open Unicode

abbrev Str := Unicode.Units

-- A string literal of the source; all of them stay in the basic plane.
def str (literal : String) : Str := literal.toList.map Numerals.unitOf

def unit (c : Char) : UInt16 := Numerals.unitOf c

namespace Text

def hasPrefix (s pre : Str) : Bool := pre.isPrefixOf s

def hasSuffix (s suffix : Str) : Bool := suffix.isSuffixOf s

def contains (s part : Str) : Bool := s.tails.any part.isPrefixOf

def find (s : Str) (u : UInt16) : Option Nat := s.findIdx? (· == u)

def split (s : Str) (separator : UInt16) : List Str := s.splitOn separator

theorem split_ne_nil (s : Str) (separator : UInt16) : split s separator ≠ [] :=
  List.splitOn_ne_nil separator s

def lowerUnit (u : UInt16) : UInt16 :=
  if 0x41 ≤ u.toNat ∧ u.toNat ≤ 0x5A then u + 0x20 else u

-- `to_lower` maps ASCII letters only.
def toLower (s : Str) : Str := s.map lowerUnit

def isSpace (u : UInt16) : Bool := u == 0x20 || u == 0x09 || u == 0x0A || u == 0x0D

def trim (s : Str) : Str := ((s.dropWhile isSpace).reverse.dropWhile isSpace).reverse

def allChars (s : Str) (p : Nat → Bool) : Bool := (codePoints s).all p

def anyChar (s : Str) (p : Nat → Bool) : Bool := (codePoints s).any p

def ofNat (n : Nat) : Str := Numerals.numeral 10 n

def ofInt (n : Int) : Str :=
  if n < 0 then unit '-' :: ofNat n.natAbs else ofNat n.natAbs

theorem allChars_eq (s : Str) (p : Nat → Bool) (b : Bool) (high : ∀ n, 0xD800 ≤ n → p n = b) :
    allChars s p = s.all fun u => p u.toNat := by
  unfold allChars
  fun_induction codePoints s with
  | case1 => rfl
  | case2 u => rfl
  | case3 u v rest pair ih =>
    simp only [isLead, isTrail, Bool.and_eq_true, decide_eq_true_eq] at pair
    rw [List.all_cons, ih, List.all_cons, List.all_cons, high _ (by omega),
      high u.toNat (by omega), high v.toNat (by omega)]
    cases b <;> simp
  | case4 u v rest pair ih => rw [List.all_cons, ih, List.all_cons (a := u)]

theorem anyChar_eq (s : Str) (p : Nat → Bool) (b : Bool) (high : ∀ n, 0xD800 ≤ n → p n = b) :
    anyChar s p = s.any fun u => p u.toNat := by
  have h := allChars_eq s (fun n => !p n) (!b) (fun n hn => by rw [high n hn])
  unfold allChars at h
  rw [anyChar, ← Bool.not_inj_iff, List.not_any_eq_all_not, List.not_any_eq_all_not]
  exact h

theorem lowerUnit_toNat (u : UInt16) :
    (lowerUnit u).toNat = if 0x41 ≤ u.toNat ∧ u.toNat ≤ 0x5A then u.toNat + 0x20 else u.toNat := by
  unfold lowerUnit
  split_ifs with upper
  · rw [UInt16.toNat_add]
    change (u.toNat + 32) % 2 ^ 16 = _
    omega
  · rfl

theorem lowerUnit_idem (u : UInt16) : lowerUnit (lowerUnit u) = lowerUnit u := by
  apply UInt16.toNat_inj.mp
  rw [lowerUnit_toNat, lowerUnit_toNat]
  split_ifs <;> omega

@[simp] theorem toLower_idem (s : Str) : toLower (toLower s) = toLower s := by
  simp [toLower, lowerUnit_idem]

-- A unit below the letters is the lower case of itself alone.
theorem lowerUnit_low {u v : UInt16} (low : v.toNat < 0x41) : lowerUnit u = v ↔ u = v := by
  rw [← UInt16.toNat_inj, ← UInt16.toNat_inj, lowerUnit_toNat]
  split_ifs <;> omega

@[simp] theorem isSpace_lowerUnit (u : UInt16) : isSpace (lowerUnit u) = isSpace u := by
  rw [Bool.eq_iff_iff]
  simp only [isSpace, Bool.or_eq_true, beq_iff_eq,
    lowerUnit_low (show (0x20 : UInt16).toNat < 0x41 by decide),
    lowerUnit_low (show (0x09 : UInt16).toNat < 0x41 by decide),
    lowerUnit_low (show (0x0A : UInt16).toNat < 0x41 by decide),
    lowerUnit_low (show (0x0D : UInt16).toNat < 0x41 by decide)]

theorem find_eq_some {s : Str} {u : UInt16} {i : Nat} (h : find s u = some i) :
    s = s.take i ++ u :: s.drop (i + 1) ∧ u ∉ s.take i := by
  obtain ⟨inside, hit, before⟩ := List.findIdx?_eq_some_iff_getElem.mp h
  have same : s[i] = u := by simpa using hit
  constructor
  · rw [← same, ← List.drop_eq_getElem_cons inside, List.take_append_drop]
  · intro member
    obtain ⟨j, low, at_j⟩ := List.mem_take_iff_getElem.mp member
    have bound : j < i := by omega
    exact absurd at_j (by simpa using before j bound)

theorem not_mem_split {s piece : Str} {u : UInt16} (member : piece ∈ split s u) : u ∉ piece := by
  unfold split at member
  induction s generalizing piece with
  | nil => simp_all
  | cons v rest ih =>
    rw [List.splitOn_cons_eq_if_modifyHead] at member
    split_ifs at member with separator
    · rcases List.mem_cons.mp member with rfl | later
      · simp
      · exact ih later
    · cases pieces : rest.splitOn u with
      | nil => exact absurd pieces (List.splitOn_ne_nil u rest)
      | cons first others =>
        rw [pieces, List.modifyHead_cons, List.mem_cons] at member
        rcases member with rfl | later
        · have other : u ≠ v := fun same => separator (by simp [same])
          have absent : u ∉ first := ih (by simp [pieces])
          simp [other, absent]
        · exact ih (by simp [pieces, later])

theorem subset_of_mem_split {s piece : Str} {u : UInt16} (member : piece ∈ split s u) :
    piece ⊆ s := by
  unfold split at member
  induction s generalizing piece with
  | nil => simp_all
  | cons v rest ih =>
    rw [List.splitOn_cons_eq_if_modifyHead] at member
    split_ifs at member
    · rcases List.mem_cons.mp member with rfl | later
      · exact List.nil_subset _
      · exact List.subset_cons_of_subset v (ih later)
    · cases pieces : rest.splitOn u with
      | nil => exact absurd pieces (List.splitOn_ne_nil u rest)
      | cons first others =>
        rw [pieces, List.modifyHead_cons, List.mem_cons] at member
        rcases member with rfl | later
        · exact List.cons_subset_cons v (ih (by simp [pieces]))
        · exact List.subset_cons_of_subset v (ih (by simp [pieces, later]))

theorem find_append {s t : Str} {u : UInt16} (absent : u ∉ s) :
    find (s ++ u :: t) u = some s.length := by
  rw [find, List.findIdx?_append, List.findIdx?_eq_none_iff.mpr]
  · simp [List.findIdx?_cons]
  · intro v member
    simp only [beq_eq_false_iff_ne]
    exact fun same => absent (same ▸ member)

theorem find_eq_none {s : Str} {u : UInt16} : find s u = none ↔ u ∉ s := by
  rw [find, List.findIdx?_eq_none_iff]
  simp only [beq_eq_false_iff_ne]
  exact ⟨fun h member => h u member rfl, fun h v member same => h (same ▸ member)⟩

@[simp] theorem contains_single {s : Str} {u : UInt16} : contains s [u] = true ↔ u ∈ s := by
  simp only [contains, List.any_eq_true, List.mem_tails]
  constructor
  · rintro ⟨tail, suffix, here⟩
    cases tail with
    | nil => simp at here
    | cons v rest =>
      obtain rfl : u = v := by simpa using here
      exact suffix.subset (by simp)
  · intro member
    obtain ⟨front, rest, rfl⟩ := List.append_of_mem member
    exact ⟨u :: rest, List.suffix_append _ _, by simp⟩

-- Text put behind text goes on in the last piece.
theorem split_append (s t : Str) (u : UInt16) :
    ∃ front last first rest, split s u = front ++ [last] ∧ split t u = first :: rest ∧
      split (s ++ t) u = front ++ (last ++ first) :: rest := by
  obtain ⟨first, rest, pieces⟩ := List.exists_cons_of_ne_nil (List.splitOn_ne_nil u t)
  have joins : ∃ front last, split s u = front ++ [last] ∧
      split (s ++ t) u = front ++ (last ++ first) :: rest := by
    unfold split
    induction s with
    | nil => exact ⟨[], [], by simp, by simpa using pieces⟩
    | cons v s ih =>
      obtain ⟨front, last, whole, joined⟩ := ih
      rw [List.cons_append, List.splitOn_cons_eq_if_modifyHead, whole,
        List.splitOn_cons_eq_if_modifyHead, joined]
      by_cases separator : (v == u) = true
      · exact ⟨[] :: front, last, by simp [separator], by simp [separator]⟩
      · cases front with
        | nil => exact ⟨[], v :: last, by simp [separator], by simp [separator]⟩
        | cons head front =>
          exact ⟨(v :: head) :: front, last, by simp [separator], by simp [separator]⟩
  obtain ⟨front, last, whole, joined⟩ := joins
  exact ⟨front, last, first, rest, whole, pieces, joined⟩

theorem trim_eq_self {s : Str} (front : ∀ u, s.head? = some u → isSpace u = false)
    (back : ∀ u, s.getLast? = some u → isSpace u = false) : trim s = s := by
  have dropped {t : Str} (first : ∀ u, t.head? = some u → isSpace u = false) :
      t.dropWhile isSpace = t := by
    cases t with
    | nil => rfl
    | cons u t => rw [List.dropWhile_cons_of_neg (by simp [first u rfl])]
  rw [trim, dropped front, dropped (by simpa using back), List.reverse_reverse]

theorem trim_sublist (s : Str) : (trim s).Sublist s := by
  have inner : (s.dropWhile isSpace).Sublist s := List.dropWhile_sublist _
  have outer := (List.dropWhile_sublist isSpace (l := (s.dropWhile isSpace).reverse)).reverse
  rw [List.reverse_reverse] at outer
  exact outer.trans inner

theorem mem_of_mem_trim {s : Str} {u : UInt16} (member : u ∈ trim s) : u ∈ s :=
  (trim_sublist s).subset member

theorem dropWhile_trim (s : Str) : (trim s).dropWhile isSpace = trim s := by
  have front : (s.dropWhile isSpace).dropWhile isSpace = s.dropWhile isSpace :=
    List.dropWhile_idempotent isSpace s
  have pre : trim s <+: s.dropWhile isSpace := List.rdropWhile_prefix isSpace _
  rw [List.dropWhile_eq_self_iff] at front ⊢
  intro some
  rw [pre.getElem some]
  exact front (Nat.lt_of_lt_of_le some pre.length_le)

-- A space in front of a trimmed value is what `trim` takes off again.
theorem trim_space_trim (s : Str) : trim (unit ' ' :: trim s) = trim s := by
  have space : isSpace (unit ' ') = true := by decide
  rw [trim, List.dropWhile_cons_of_pos space, dropWhile_trim]
  exact List.rdropWhile_idempotent isSpace (s.dropWhile isSpace)

theorem isSpace_ascii {u : UInt16} (space : isSpace u = true) : u.toNat < 0x80 := by
  simp only [isSpace, Bool.or_eq_true, beq_iff_eq] at space
  rcases space with ((rfl | rfl) | rfl) | rfl <;> decide

theorem wellFormed_trim {s : Str} (wellFormed : WellFormed s) : WellFormed (trim s) := by
  have front : WellFormed (s.dropWhile isSpace) := by
    induction s with
    | nil => simpa using wellFormed
    | cons u rest ih =>
      by_cases space : isSpace u = true
      · rw [List.dropWhile_cons_of_pos space]
        exact ih ((wellFormed_append_ascii [] u rest (isSpace_ascii space)).mp wellFormed).2
      · rwa [List.dropWhile_cons_of_neg space]
  have back (t : Str) (wellFormed : WellFormed t) : WellFormed (t.rdropWhile isSpace) := by
    induction t using List.reverseRecOn with
    | nil => simpa using wellFormed
    | append_singleton t u ih =>
      by_cases space : isSpace u = true
      · rw [List.rdropWhile_concat_pos _ _ _ space]
        exact ih ((wellFormed_append_ascii t u [] (isSpace_ascii space)).mp wellFormed).1
      · rwa [List.rdropWhile_concat_neg _ _ _ space]
  exact back _ front

theorem mem_ofNat {n : Nat} {u : UInt16} (member : u ∈ ofNat n) : 0x30 ≤ u.toNat ∧ u.toNat < 0x80 := by
  have range := Numerals.numeral_range 10 (by omega) (by omega) n u member
  omega

end Text

end HttpServer
