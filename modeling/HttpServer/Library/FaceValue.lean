import HttpServer.Library.Unicode

set_option autoImplicit false

/-!
# UTF-8 groups at face value

A reader that looks at lead and tail bytes only: groups longer than needed, surrogates and
values past the last plane are read like any other group.
-/

namespace Unicode

inductive Spells : List Nat → List Nat → Prop
  | nil : Spells [] []
  | one {a : Nat} {bytes points : List Nat} (low : a < 0x80) (rest : Spells bytes points) :
      Spells (a :: bytes) (a :: points)
  | two {a b : Nat} {bytes points : List Nat} (form : IsTwo a b) (rest : Spells bytes points) :
      Spells (a :: b :: bytes) (two a b :: points)
  | three {a b c : Nat} {bytes points : List Nat} (lead : 0xE0 ≤ a ∧ a ≤ 0xEF)
      (second : IsTail b) (third : IsTail c) (rest : Spells bytes points) :
      Spells (a :: b :: c :: bytes) (three a b c :: points)
  | four {a b c d : Nat} {bytes points : List Nat} (lead : 0xF0 ≤ a ∧ a ≤ 0xF4)
      (second : IsTail b) (third : IsTail c) (fourth : IsTail d) (rest : Spells bytes points) :
      Spells (a :: b :: c :: d :: bytes) (four a b c d :: points)

-- Strict decoding reads every group at its face value.
theorem spells_of_decodePoints (bytes : Bytes) (points : List Nat)
    (decoded : decodePoints bytes = some points) : Spells (bytes.map UInt8.toNat) points := by
  fun_induction decodePoints bytes generalizing points with
  | case1 =>
    obtain rfl : [] = points := Option.some.inj decoded
    exact .nil
  | case2 a rest one ih =>
    obtain ⟨tail, read, rfl⟩ := Option.map_eq_some_iff.mp decoded
    exact .one one (ih tail read)
  | case3 => simp at decoded
  | case4 a notOne b rest isTwo ih =>
    obtain ⟨tail, read, rfl⟩ := Option.map_eq_some_iff.mp decoded
    exact .two isTwo (ih tail read)
  | case5 => simp at decoded
  | case6 a notOne b notTwo c rest isThree ih =>
    obtain ⟨tail, read, rfl⟩ := Option.map_eq_some_iff.mp decoded
    obtain ⟨low, high, second, third, -⟩ := isThree
    exact .three ⟨low, high⟩ second third (ih tail read)
  | case7 => simp at decoded
  | case8 a notOne b notTwo c notThree d rest isFour ih =>
    obtain ⟨tail, read, rfl⟩ := Option.map_eq_some_iff.mp decoded
    obtain ⟨low, high, second, third, fourth, -⟩ := isFour
    exact .four ⟨low, high⟩ second third fourth (ih tail read)
  | case9 => simp at decoded

theorem Spells.append {bytes others points tail : List Nat} (front : Spells bytes points)
    (back : Spells others tail) : Spells (bytes ++ others) (points ++ tail) := by
  induction front with
  | nil => exact back
  | one low _ ih => exact .one low ih
  | two form _ ih => exact .two form ih
  | three lead second third _ ih => exact .three lead second third ih
  | four lead second third fourth _ ih => exact .four lead second third fourth ih

-- The lead byte tells how long its group is.
theorem Spells.cancel {group bytes points : List Nat} {n : Nat} (front : Spells group [n])
    (whole : Spells (group ++ bytes) points) : ∃ tail, points = n :: tail ∧ Spells bytes tail := by
  generalize single : [n] = first at front
  cases front with
  | nil => cases single
  | one low rest =>
    obtain ⟨same, none⟩ := List.cons.inj single
    subst none
    cases rest
    cases whole with
    | one _ behind => exact ⟨_, by rw [same], behind⟩
    | two form _ => unfold IsTwo at form; omega
    | three lead _ _ _ => omega
    | four lead _ _ _ _ => omega
  | two form rest =>
    obtain ⟨same, none⟩ := List.cons.inj single
    subst none
    cases rest
    unfold IsTwo at form
    cases whole with
    | one low _ => omega
    | two _ behind => exact ⟨_, by rw [same], behind⟩
    | three lead _ _ _ => omega
    | four lead _ _ _ _ => omega
  | three lead second third rest =>
    obtain ⟨same, none⟩ := List.cons.inj single
    subst none
    cases rest
    cases whole with
    | one low _ => omega
    | two form _ => unfold IsTwo at form; omega
    | three _ _ _ behind => exact ⟨_, by rw [same], behind⟩
    | four lead' _ _ _ _ => omega
  | four lead second third fourth rest =>
    obtain ⟨same, none⟩ := List.cons.inj single
    subst none
    cases rest
    cases whole with
    | one low _ => omega
    | two form _ => unfold IsTwo at form; omega
    | three lead' _ _ _ => omega
    | four _ _ _ _ behind => exact ⟨_, by rw [same], behind⟩

end Unicode
