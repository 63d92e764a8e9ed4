import HttpServer.Library.FaceValue
import HttpServer.Library.Numerals
import Mathlib.Data.List.TakeWhile

set_option autoImplicit false

/-!
# Percent-encoded text

A unit other than the sign stands for itself. A run of escapes stands for one code point, by
whatever form its bytes take.
-/

namespace Percent

open Unicode Numerals

def sign : UInt16 := unitOf '%'

inductive Escapes : Units → List Nat → Prop
  | nil : Escapes [] []
  | cons {a b : UInt16} {x y : Nat} {rest : Units} {bytes : List Nat}
      (high : digit? 16 a = some x) (low : digit? 16 b = some y) (behind : Escapes rest bytes) :
      Escapes (sign :: a :: b :: rest) ((x * 16 + y) :: bytes)

inductive Decodes (Form : List Nat → Nat → Prop) : Units → Units → Prop
  | nil : Decodes Form [] []
  | plain {u : UInt16} {rest text : Units} (other : u ≠ sign) (behind : Decodes Form rest text) :
      Decodes Form (u :: rest) (u :: text)
  | escaped {run rest text : Units} {bytes : List Nat} {n : Nat} (escapes : Escapes run bytes)
      (form : Form bytes n) (behind : Decodes Form rest text) :
      Decodes Form (run ++ rest) (utf16 n ++ text)

def Shortest (bytes : List Nat) (n : Nat) : Prop :=
  IsScalar n ∧ bytes = (utf8 n).map UInt8.toNat

def FaceValue (bytes : List Nat) (n : Nat) : Prop := Spells bytes [n]

def EscapeAt (rest : Units) : Prop :=
  ∃ a b behind, rest = a :: b :: behind ∧ (digit? 16 a).isSome ∧ (digit? 16 b).isSome

def WellEscaped (text : Units) : Prop :=
  ∀ front rest, text = front ++ sign :: rest → EscapeAt rest

theorem wellEscaped_nil : WellEscaped [] := by
  intro front rest whole
  simp at whole

theorem wellEscaped_cons (u : UInt16) (rest : Units) :
    WellEscaped (u :: rest) ↔ (u = sign → EscapeAt rest) ∧ WellEscaped rest := by
  constructor
  · intro escaped
    refine ⟨?_, fun front tail whole => escaped (u :: front) tail (by rw [whole]; rfl)⟩
    rintro rfl
    exact escaped [] rest rfl
  · rintro ⟨here, later⟩ front tail whole
    cases front with
    | nil =>
      obtain ⟨rfl, rfl⟩ := List.cons.inj whole
      exact here rfl
    | cons v front => exact later front tail (List.cons.inj whole).2

-- No escape reaches over a unit that is no digit.
theorem escapeAt_append (s rest : Units) {u : UInt16} (other : digit? 16 u = none) :
    EscapeAt (s ++ u :: rest) ↔ EscapeAt s := by
  match s with
  | [] => simp [EscapeAt, other]
  | [a] => simp [EscapeAt, other]
  | a :: b :: behind => simp [EscapeAt]

theorem wellEscaped_append (s rest : Units) {u : UInt16} (plain : u ≠ sign)
    (other : digit? 16 u = none) :
    WellEscaped (s ++ u :: rest) ↔ WellEscaped s ∧ WellEscaped rest := by
  induction s with
  | nil => simp [wellEscaped_cons, plain, wellEscaped_nil]
  | cons v s ih =>
    rw [List.cons_append, wellEscaped_cons, ih, escapeAt_append s rest other, wellEscaped_cons,
      and_assoc]

theorem Escapes.append {front back : Units} {bytes others : List Nat}
    (first : Escapes front bytes) (second : Escapes back others) :
    Escapes (front ++ back) (bytes ++ others) := by
  induction first with
  | nil => exact second
  | cons high low _ ih => exact .cons high low ih

theorem Decodes.mono {Form Wider : List Nat → Nat → Prop}
    (wider : ∀ bytes n, Form bytes n → Wider bytes n) {text decoded : Units}
    (decodes : Decodes Form text decoded) : Decodes Wider text decoded := by
  induction decodes with
  | nil => exact .nil
  | plain other _ ih => exact .plain other ih
  | escaped escapes form _ ih => exact .escaped escapes (wider _ _ form) ih

theorem Decodes.append {Form : List Nat → Nat → Prop} {s t a b : Units}
    (front : Decodes Form s a) (back : Decodes Form t b) : Decodes Form (s ++ t) (a ++ b) := by
  induction front with
  | nil => exact back
  | plain other _ ih => exact .plain other ih
  | escaped escapes form _ ih =>
    rw [List.append_assoc, List.append_assoc]
    exact .escaped escapes form ih

theorem Decodes.of_plain {Form : List Nat → Nat → Prop} {s : Units} (plain : sign ∉ s) :
    Decodes Form s s := by
  induction s with
  | nil => exact .nil
  | cons u s ih =>
    rw [List.mem_cons, not_or] at plain
    exact .plain (Ne.symm plain.1) (ih plain.2)

def quoted (text : Units) : Units :=
  text.flatMap fun u => if u = sign then [sign, unitOf '2', unitOf '5'] else [u]

theorem quoted_cons (u : UInt16) (text : Units) :
    quoted (u :: text) = (if u = sign then [sign, unitOf '2', unitOf '5'] else [u]) ++ quoted text :=
  rfl

theorem mem_quoted {text : Units} {u : UInt16} (member : u ∈ quoted text) :
    u ∈ text ∨ u ∈ [sign, unitOf '2', unitOf '5'] := by
  obtain ⟨v, inside, here⟩ := List.mem_flatMap.mp member
  split_ifs at here
  · exact .inr here
  · exact .inl (List.mem_singleton.mp here ▸ inside)

theorem wellEscaped_quoted (text : Units) : WellEscaped (quoted text) := by
  induction text with
  | nil => exact wellEscaped_nil
  | cons u text ih =>
    rw [quoted_cons]
    split_ifs with same
    · have escape : EscapeAt (unitOf '2' :: unitOf '5' :: quoted text) :=
        ⟨_, _, _, rfl, by decide, by decide⟩
      refine (wellEscaped_cons _ _).mpr ⟨fun _ => escape, ?_⟩
      refine (wellEscaped_cons _ _).mpr ⟨fun two => absurd two (by decide), ?_⟩
      exact (wellEscaped_cons _ _).mpr ⟨fun five => absurd five (by decide), ih⟩
    · exact (wellEscaped_cons _ _).mpr ⟨fun sign => absurd sign same, ih⟩

theorem decodes_quoted (text : Units) : Decodes FaceValue (quoted text) text := by
  induction text with
  | nil => exact .nil
  | cons u text ih =>
    rw [quoted_cons]
    split_ifs with same
    · subst same
      have high : digit? 16 (unitOf '2') = some 2 := by decide
      have low : digit? 16 (unitOf '5') = some 5 := by decide
      have escapes : Escapes [sign, unitOf '2', unitOf '5'] [2 * 16 + 5] := .cons high low .nil
      exact .escaped escapes (Spells.one (by decide) .nil) ih
    · exact .plain same ih

-- Text that is not empty starts with its own first unit or with an escape.
theorem Decodes.front {Form : List Nat → Nat → Prop} (spelt : ∀ n, ¬Form [] n) {s text : Units}
    (decodes : Decodes Form s text) :
    s = [] ∧ text = [] ∨
      (∃ u rest behind, s = u :: rest ∧ text = u :: behind ∧ Decodes Form rest behind) ∨
      s.head? = some sign := by
  cases decodes with
  | nil => exact .inl ⟨rfl, rfl⟩
  | plain other behind => exact .inr (.inl ⟨_, _, _, rfl, rfl, behind⟩)
  | escaped escapes form behind =>
    cases escapes with
    | nil => exact absurd form (spelt _)
    | cons high low rest => exact .inr (.inr rfl)

theorem Escapes.digits {run : Units} {bytes : List Nat} (escapes : Escapes run bytes) :
    ∀ u ∈ run, u = sign ∨ (digit? 16 u).isSome := by
  induction escapes with
  | nil => simp
  | cons high low _ ih =>
    intro u member
    rcases List.mem_cons.mp member with rfl | member
    · exact .inl rfl
    · rcases List.mem_cons.mp member with rfl | member
      · exact .inr (by rw [high]; rfl)
      · rcases List.mem_cons.mp member with rfl | member
        · exact .inr (by rw [low]; rfl)
        · exact ih u member

-- A last unit that no escape takes stands for itself.
theorem Decodes.last {Form : List Nat → Nat → Prop} {s text : Units} {u : UInt16} (spelt : ∀ n, ¬Form [] n)
    (plain : u ≠ sign) (other : digit? 16 u = none) (decodes : Decodes Form (s ++ [u]) text) :
    ∃ front, text = front ++ [u] ∧ Decodes Form s front := by
  generalize whole : s ++ [u] = raw at decodes
  induction decodes generalizing s with
  | nil => simp at whole
  | @plain v rest text differs behind ih =>
    cases s with
    | nil =>
      obtain ⟨rfl, rfl⟩ := List.cons.inj whole
      obtain ⟨-, rfl⟩ | ⟨_, _, _, none, -⟩ | escape := behind.front spelt
      · exact ⟨[], rfl, .nil⟩
      · cases none
      · cases escape
    | cons w s =>
      obtain ⟨rfl, rest⟩ := List.cons.inj whole
      obtain ⟨front, rfl, inner⟩ := ih rest
      exact ⟨w :: front, rfl, .plain differs inner⟩
  | @escaped run rest text bytes n escapes form behind ih =>
    rcases List.eq_nil_or_concat' rest with rfl | ⟨init, last, rfl⟩
    · have member : u ∈ run := by
        rw [List.append_nil] at whole
        simp [← whole]
      rcases escapes.digits u member with rfl | digit
      · exact absurd rfl plain
      · simp [other] at digit
    · rw [← List.append_assoc] at whole
      obtain ⟨rfl, same⟩ := List.append_inj' whole rfl
      obtain rfl : u = last := by simpa using same
      obtain ⟨front, rfl, inner⟩ := ih rfl
      exact ⟨utf16 n ++ front, by simp, .escaped escapes form inner⟩

theorem wellEscaped_takeWhile {s : Units} {u : UInt16} (plain : u ≠ sign)
    (other : digit? 16 u = none) (escaped : WellEscaped s) :
    WellEscaped (s.takeWhile (· != u)) := by
  by_cases member : u ∈ s
  · obtain ⟨front, back, rfl, absent⟩ := List.eq_append_cons_of_mem member
    have first : (front ++ u :: back).takeWhile (· != u) = front := by
      rw [List.takeWhile_append_of_pos fun v inside => by
        rw [bne_iff_ne]
        exact fun same => absent (same ▸ inside)]
      simp
    rw [first]
    exact ((wellEscaped_append front back plain other).mp escaped).1
  · have whole : s.takeWhile (· != u) = s := by
      rw [List.takeWhile_eq_self_iff]
      intro v inside
      rw [bne_iff_ne]
      exact fun same => member (same ▸ inside)
    rwa [whole]

theorem faceValue_nil (n : Nat) : ¬FaceValue [] n := by
  intro spells
  cases spells

theorem faceValue_of_shortest (bytes : List Nat) (n : Nat) (shortest : Shortest bytes n) :
    FaceValue bytes n := by
  obtain ⟨scalar, rfl⟩ := shortest
  apply spells_of_decodePoints
  have alone := decodePoints_utf8 n [] scalar
  rwa [List.append_nil] at alone

end Percent
