import HttpServer.Library.FaceValue
import Mathlib.Data.List.Chain

set_option autoImplicit false

/-!
# Groups of UTF-8 bytes and their shortest forms

Bytes cut into groups by their lead bytes, and when each group is the shortest that spells its
code point.
-/

namespace Unicode

inductive Group : List Nat → Nat → Prop
  | one {a : Nat} (low : a < 0x80) : Group [a] a
  | two {a b : Nat} (form : IsTwo a b) : Group [a, b] (two a b)
  | three {a b c : Nat} (lead : 0xE0 ≤ a ∧ a ≤ 0xEF) (second : IsTail b) (third : IsTail c) :
      Group [a, b, c] (three a b c)
  | four {a b c d : Nat} (lead : 0xF0 ≤ a ∧ a ≤ 0xF4) (second : IsTail b) (third : IsTail c)
      (fourth : IsTail d) : Group [a, b, c, d] (four a b c d)

def Groups (bytes : List Nat) (groups : List (List Nat × Nat)) : Prop :=
  (∀ g ∈ groups, Group g.1 g.2) ∧ groups.flatMap Prod.fst = bytes

theorem Group.spells {group bytes points : List Nat} {n : Nat} (here : Group group n)
    (rest : Spells bytes points) : Spells (group ++ bytes) (n :: points) := by
  cases here with
  | one low => exact .one low rest
  | two form => exact .two form rest
  | three lead second third => exact .three lead second third rest
  | four lead second third fourth => exact .four lead second third fourth rest

theorem Groups.cons {group bytes : List Nat} {n : Nat} {groups : List (List Nat × Nat)}
    (here : Group group n) (rest : Groups bytes groups) :
    Groups (group ++ bytes) ((group, n) :: groups) := by
  refine ⟨List.forall_mem_cons.mpr ⟨here, rest.1⟩, ?_⟩
  rw [List.flatMap_cons, rest.2]

theorem spells_iff_groups {bytes points : List Nat} :
    Spells bytes points ↔ ∃ groups, Groups bytes groups ∧ groups.map Prod.snd = points := by
  constructor
  · intro spells
    induction spells with
    | nil => exact ⟨[], ⟨by simp, rfl⟩, rfl⟩
    | one low _ ih =>
      obtain ⟨groups, cut, points⟩ := ih
      exact ⟨_, cut.cons (.one low), by rw [List.map_cons, points]⟩
    | two form _ ih =>
      obtain ⟨groups, cut, points⟩ := ih
      exact ⟨_, cut.cons (.two form), by rw [List.map_cons, points]⟩
    | three lead second third _ ih =>
      obtain ⟨groups, cut, points⟩ := ih
      exact ⟨_, cut.cons (.three lead second third), by rw [List.map_cons, points]⟩
    | four lead second third fourth _ ih =>
      obtain ⟨groups, cut, points⟩ := ih
      exact ⟨_, cut.cons (.four lead second third fourth), by rw [List.map_cons, points]⟩
  · rintro ⟨groups, ⟨each, whole⟩, rfl⟩
    induction groups generalizing bytes with
    | nil =>
      obtain rfl : [] = bytes := whole
      exact .nil
    | cons g groups ih =>
      obtain ⟨here, later⟩ := List.forall_mem_cons.mp each
      rw [List.flatMap_cons] at whole
      rw [← whole]
      exact here.spells (ih later rfl)

-- The group is the shortest that spells its code point, and the code point exists.
def Minimal (group : List Nat) (n : Nat) : Prop :=
  group = (utf8 n).map UInt8.toNat ∧ n < 0x110000

-- No lead byte is followed by a second byte that leaves a shorter form, or leaves the planes.
def Fits (a b : Nat) : Prop :=
  (a = 0xE0 → 0xA0 ≤ b) ∧ (a = 0xF0 → 0x90 ≤ b) ∧ (a = 0xF4 → b < 0x90)

instance (a b : Nat) : Decidable (Fits a b) := inferInstanceAs (Decidable (_ ∧ _))

theorem fits_tail {a : Nat} (tail : a < 0xC0) (b : Nat) : Fits a b := by
  unfold Fits
  omega

theorem length_utf8 (n : Nat) : (utf8 n).length =
    if n < 0x80 then 1 else if n < 0x800 then 2 else if n < 0x10000 then 3 else 4 := by
  unfold utf8
  split_ifs <;> rfl

theorem Minimal.length {group : List Nat} {n : Nat} (minimal : Minimal group n) :
    group.length =
      if n < 0x80 then 1 else if n < 0x800 then 2 else if n < 0x10000 then 3 else 4 := by
  rw [minimal.1, List.length_map, length_utf8]

-- Only a group of one byte spells an ASCII character.
theorem Minimal.ascii {group : List Nat} {n : Nat} (minimal : Minimal group n) (low : n < 0x80) :
    group.length = 1 := by
  rw [minimal.length, if_pos low]

theorem Group.minimal_iff {group : List Nat} {n : Nat} (here : Group group n) :
    Minimal group n ↔ group.IsChain Fits := by
  cases here with
  | one low =>
    refine iff_of_true ⟨?_, by omega⟩ (List.isChain_singleton n)
    rw [utf8, if_pos low, List.map_singleton, toNat_ofNat (by omega)]
  | @two a b form =>
    obtain ⟨low, high, tail⟩ := form
    unfold IsTail at tail
    have value : Unicode.two a b = (a - 0xC0) * 64 + (b - 0x80) := rfl
    refine iff_of_true ⟨?_, by omega⟩ ?_
    · rw [utf8, if_neg (by omega), if_pos (by omega)]
      simp only [List.map_cons, List.map_nil, List.cons.injEq, and_true]
      rw [toNat_ofNat (by omega), toNat_ofNat (by omega)]
      omega
    · rw [List.isChain_pair]
      unfold Fits
      omega
  | @three a b c lead second third =>
    unfold IsTail at second third
    have value : Unicode.three a b c = (a - 0xE0) * 4096 + (b - 0x80) * 64 + (c - 0x80) := rfl
    rw [List.isChain_cons_cons, List.isChain_pair, and_iff_left (fits_tail second.2 c)]
    constructor
    · intro minimal
      have length := minimal.length
      simp only [List.length_cons, List.length_nil] at length
      unfold Fits
      split_ifs at length <;> omega
    · intro fits
      unfold Fits at fits
      refine ⟨?_, by omega⟩
      rw [utf8, if_neg (by omega), if_neg (by omega), if_pos (by omega)]
      simp only [List.map_cons, List.map_nil, List.cons.injEq, and_true]
      rw [toNat_ofNat (by omega), toNat_ofNat (by omega), toNat_ofNat (by omega)]
      omega
  | @four a b c d lead second third fourth =>
    unfold IsTail at second third fourth
    have value : Unicode.four a b c d =
      (a - 0xF0) * 262144 + (b - 0x80) * 4096 + (c - 0x80) * 64 + (d - 0x80) := rfl
    rw [List.isChain_cons_cons, List.isChain_cons_cons, List.isChain_pair,
      and_iff_left (fits_tail third.2 d), and_iff_left (fits_tail second.2 c)]
    constructor
    · intro minimal
      have length := minimal.length
      have bound := minimal.2
      simp only [List.length_cons, List.length_nil] at length
      unfold Fits
      split_ifs at length <;> omega
    · intro fits
      unfold Fits at fits
      refine ⟨?_, by omega⟩
      rw [utf8, if_neg (by omega), if_neg (by omega), if_neg (by omega)]
      simp only [List.map_cons, List.map_nil, List.cons.injEq, and_true]
      rw [toNat_ofNat (by omega), toNat_ofNat (by omega), toNat_ofNat (by omega),
        toNat_ofNat (by omega)]
      omega

-- What follows a whole group is no matter of its own bytes.
theorem Group.last_fits {group : List Nat} {n : Nat} (here : Group group n) :
    ∀ a ∈ group.getLast?, ∀ b, Fits a b := by
  intro a last b
  apply fits_tail
  cases here with
  | one low =>
    obtain rfl : n = a := Option.some.inj last
    omega
  | two form =>
    cases last
    exact form.2.2.2
  | three _ _ third =>
    cases last
    exact third.2
  | four _ _ _ fourth =>
    cases last
    exact fourth.2

theorem Groups.minimal_iff {bytes : List Nat} {groups : List (List Nat × Nat)}
    (cut : Groups bytes groups) : (∀ g ∈ groups, Minimal g.1 g.2) ↔ bytes.IsChain Fits := by
  obtain ⟨each, whole⟩ := cut
  induction groups generalizing bytes with
  | nil =>
    obtain rfl : [] = bytes := whole
    exact iff_of_true (by simp) List.isChain_nil
  | cons g groups ih =>
    obtain ⟨here, later⟩ := List.forall_mem_cons.mp each
    rw [List.flatMap_cons] at whole
    rw [← whole, List.isChain_append, List.forall_mem_cons, here.minimal_iff, ih later rfl]
    have between : ∀ a ∈ g.1.getLast?, ∀ b ∈ (groups.flatMap Prod.fst).head?, Fits a b :=
      fun a last b _ => here.last_fits a last b
    simp only [and_iff_left between]

end Unicode
