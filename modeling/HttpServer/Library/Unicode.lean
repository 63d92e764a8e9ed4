import Mathlib.Data.List.Basic
import Mathlib.Tactic.SplitIfs

set_option autoImplicit false

/-!
# UTF-16 text and its UTF-8 encoding

Text is a list of UTF-16 code units in which surrogates need not be paired.
Decoding is strict: shortest forms of scalar values only.
-/

namespace Unicode

abbrev Units := List UInt16
abbrev Bytes := List UInt8

def IsScalar (n : Nat) : Prop := n < 0xD800 ∨ 0xE000 ≤ n ∧ n < 0x110000

instance (n : Nat) : Decidable (IsScalar n) := inferInstanceAs (Decidable (_ ∨ _))

def isLead (u : UInt16) : Bool := 0xD800 ≤ u.toNat && u.toNat < 0xDC00

def isTrail (u : UInt16) : Bool := 0xDC00 ≤ u.toNat && u.toNat < 0xE000

-- A lone surrogate is a code point of its own.
def codePoints : Units → List Nat
  | [] => []
  | [u] => [u.toNat]
  | u :: v :: rest =>
      if isLead u && isTrail v then
        (0x10000 + (u.toNat - 0xD800) * 0x400 + (v.toNat - 0xDC00)) :: codePoints rest
      else u.toNat :: codePoints (v :: rest)

def utf16 (n : Nat) : Units :=
  if n < 0x10000 then [UInt16.ofNat n]
  else [UInt16.ofNat ((n - 0x10000) / 0x400 + 0xD800),
    UInt16.ofNat ((n - 0x10000) % 0x400 + 0xDC00)]

def utf8 (n : Nat) : Bytes :=
  if n < 0x80 then [UInt8.ofNat n]
  else if n < 0x800 then [UInt8.ofNat (n / 64 + 0xC0), UInt8.ofNat (n % 64 + 0x80)]
  else if n < 0x10000 then
    [UInt8.ofNat (n / 4096 + 0xE0), UInt8.ofNat (n / 64 % 64 + 0x80), UInt8.ofNat (n % 64 + 0x80)]
  else
    [UInt8.ofNat (n / 262144 + 0xF0), UInt8.ofNat (n / 4096 % 64 + 0x80),
      UInt8.ofNat (n / 64 % 64 + 0x80), UInt8.ofNat (n % 64 + 0x80)]

def encode (s : Units) : Bytes := (codePoints s).flatMap utf8

def IsTail (b : Nat) : Prop := 0x80 ≤ b ∧ b < 0xC0

def two (a b : Nat) : Nat := (a - 0xC0) * 64 + (b - 0x80)

def three (a b c : Nat) : Nat := (a - 0xE0) * 4096 + (b - 0x80) * 64 + (c - 0x80)

def four (a b c d : Nat) : Nat :=
  (a - 0xF0) * 262144 + (b - 0x80) * 4096 + (c - 0x80) * 64 + (d - 0x80)

def IsTwo (a b : Nat) : Prop := 0xC2 ≤ a ∧ a ≤ 0xDF ∧ IsTail b

def IsThree (a b c : Nat) : Prop :=
  0xE0 ≤ a ∧ a ≤ 0xEF ∧ IsTail b ∧ IsTail c ∧ 0x800 ≤ three a b c ∧ IsScalar (three a b c)

def IsFour (a b c d : Nat) : Prop :=
  0xF0 ≤ a ∧ a ≤ 0xF4 ∧ IsTail b ∧ IsTail c ∧ IsTail d ∧
    0x10000 ≤ four a b c d ∧ IsScalar (four a b c d)

instance (b : Nat) : Decidable (IsTail b) := inferInstanceAs (Decidable (_ ∧ _))
instance (a b : Nat) : Decidable (IsTwo a b) := inferInstanceAs (Decidable (_ ∧ _))
instance (a b c : Nat) : Decidable (IsThree a b c) := inferInstanceAs (Decidable (_ ∧ _))
instance (a b c d : Nat) : Decidable (IsFour a b c d) := inferInstanceAs (Decidable (_ ∧ _))

def decodePoints : Bytes → Option (List Nat)
  | [] => some []
  | a :: rest =>
      if a.toNat < 0x80 then (decodePoints rest).map (a.toNat :: ·)
      else match rest with
        | [] => none
        | b :: rest =>
            if IsTwo a.toNat b.toNat then (decodePoints rest).map (two a.toNat b.toNat :: ·)
            else match rest with
              | [] => none
              | c :: rest =>
                  if IsThree a.toNat b.toNat c.toNat then
                    (decodePoints rest).map (three a.toNat b.toNat c.toNat :: ·)
                  else match rest with
                    | [] => none
                    | d :: rest =>
                        if IsFour a.toNat b.toNat c.toNat d.toNat then
                          (decodePoints rest).map (four a.toNat b.toNat c.toNat d.toNat :: ·)
                        else none

def decode (bytes : Bytes) : Option Units := (decodePoints bytes).map (·.flatMap utf16)

def WellFormed (s : Units) : Prop := ∀ n ∈ codePoints s, IsScalar n

instance (s : Units) : Decidable (WellFormed s) := inferInstanceAs (Decidable (∀ n ∈ _, _))

theorem decodePoints_one {a : UInt8} (rest : Bytes) (h : a.toNat < 0x80) :
    decodePoints (a :: rest) = (decodePoints rest).map (a.toNat :: ·) := by
  rw [decodePoints.eq_def]
  simp only [h, if_true]

theorem decodePoints_two {a b : UInt8} (rest : Bytes) (h : IsTwo a.toNat b.toNat) :
    decodePoints (a :: b :: rest) = (decodePoints rest).map (two a.toNat b.toNat :: ·) := by
  have notOne : ¬ a.toNat < 0x80 := by unfold IsTwo at h; omega
  rw [decodePoints.eq_def]
  simp only [notOne, h, if_true, if_false]

theorem decodePoints_three {a b c : UInt8} (rest : Bytes)
    (h : IsThree a.toNat b.toNat c.toNat) :
    decodePoints (a :: b :: c :: rest) =
      (decodePoints rest).map (three a.toNat b.toNat c.toNat :: ·) := by
  have notOne : ¬ a.toNat < 0x80 := by unfold IsThree at h; omega
  have notTwo : ¬ IsTwo a.toNat b.toNat := by unfold IsThree at h; unfold IsTwo; omega
  rw [decodePoints.eq_def]
  simp only [notOne, notTwo, h, if_true, if_false]

theorem decodePoints_four {a b c d : UInt8} (rest : Bytes)
    (h : IsFour a.toNat b.toNat c.toNat d.toNat) :
    decodePoints (a :: b :: c :: d :: rest) =
      (decodePoints rest).map (four a.toNat b.toNat c.toNat d.toNat :: ·) := by
  have notOne : ¬ a.toNat < 0x80 := by unfold IsFour at h; omega
  have notTwo : ¬ IsTwo a.toNat b.toNat := by unfold IsFour at h; unfold IsTwo; omega
  have notThree : ¬ IsThree a.toNat b.toNat c.toNat := by
    unfold IsFour at h; unfold IsThree; omega
  rw [decodePoints.eq_def]
  simp only [notOne, notTwo, notThree, h, if_true, if_false]

theorem toNat_ofNat {n : Nat} (h : n < 256) : (UInt8.ofNat n).toNat = n :=
  UInt8.toNat_ofNat_of_lt h

theorem decodePoints_utf8 (n : Nat) (rest : Bytes) (scalar : IsScalar n) :
    decodePoints (utf8 n ++ rest) = (decodePoints rest).map (n :: ·) := by
  have bound : n < 0x110000 := by unfold IsScalar at scalar; omega
  unfold utf8
  split_ifs with one low mid
  · have value := toNat_ofNat (n := n) (by omega)
    rw [List.singleton_append, decodePoints_one rest (by omega), value]
  · have lead := toNat_ofNat (n := n / 64 + 0xC0) (by omega)
    have tail := toNat_ofNat (n := n % 64 + 0x80) (by omega)
    have value : two (n / 64 + 0xC0) (n % 64 + 0x80) = n := by unfold two; omega
    rw [List.cons_append, List.singleton_append, decodePoints_two, lead, tail, value]
    rw [lead, tail]
    exact ⟨by omega, by omega, by omega, by omega⟩
  · have lead := toNat_ofNat (n := n / 4096 + 0xE0) (by omega)
    have second := toNat_ofNat (n := n / 64 % 64 + 0x80) (by omega)
    have tail := toNat_ofNat (n := n % 64 + 0x80) (by omega)
    have value : three (n / 4096 + 0xE0) (n / 64 % 64 + 0x80) (n % 64 + 0x80) = n := by
      unfold three; omega
    simp only [List.cons_append, List.nil_append]
    rw [decodePoints_three, lead, second, tail, value]
    rw [lead, second, tail]
    exact ⟨by omega, by omega, ⟨by omega, by omega⟩, ⟨by omega, by omega⟩, by omega,
      value.symm ▸ scalar⟩
  · have lead := toNat_ofNat (n := n / 262144 + 0xF0) (by omega)
    have second := toNat_ofNat (n := n / 4096 % 64 + 0x80) (by omega)
    have third := toNat_ofNat (n := n / 64 % 64 + 0x80) (by omega)
    have tail := toNat_ofNat (n := n % 64 + 0x80) (by omega)
    have value : four (n / 262144 + 0xF0) (n / 4096 % 64 + 0x80) (n / 64 % 64 + 0x80)
        (n % 64 + 0x80) = n := by
      unfold four; omega
    simp only [List.cons_append, List.nil_append]
    rw [decodePoints_four, lead, second, third, tail, value]
    rw [lead, second, third, tail]
    exact ⟨by omega, by omega, ⟨by omega, by omega⟩, ⟨by omega, by omega⟩,
      ⟨by omega, by omega⟩, by omega, value.symm ▸ scalar⟩

theorem byte_eq {b : UInt8} {n : Nat} (h : b.toNat = n) : UInt8.ofNat n = b := by
  rw [← h, UInt8.ofNat_toNat]

theorem utf8_one {a : UInt8} (h : a.toNat < 0x80) : utf8 a.toNat = [a] := by
  rw [utf8, if_pos h, UInt8.ofNat_toNat]

theorem utf8_two {a b : UInt8} (h : IsTwo a.toNat b.toNat) :
    utf8 (two a.toNat b.toNat) = [a, b] := by
  obtain ⟨low, high, tail⟩ := h
  unfold IsTail at tail
  have range : ¬ two a.toNat b.toNat < 0x80 ∧ two a.toNat b.toNat < 0x800 := by
    unfold two; omega
  rw [utf8, if_neg range.1, if_pos range.2, byte_eq (b := a), byte_eq (b := b)]
  all_goals unfold two; omega

theorem utf8_three {a b c : UInt8} (h : IsThree a.toNat b.toNat c.toNat) :
    utf8 (three a.toNat b.toNat c.toNat) = [a, b, c] := by
  obtain ⟨low, high, second, tail, shortest, -⟩ := h
  unfold IsTail at second tail
  have below : three a.toNat b.toNat c.toNat < 0x10000 := by unfold three; omega
  rw [utf8, if_neg (by omega), if_neg (by omega), if_pos below, byte_eq (b := a),
    byte_eq (b := b), byte_eq (b := c)]
  all_goals unfold three; omega

theorem utf8_four {a b c d : UInt8} (h : IsFour a.toNat b.toNat c.toNat d.toNat) :
    utf8 (four a.toNat b.toNat c.toNat d.toNat) = [a, b, c, d] := by
  obtain ⟨low, high, second, third, tail, shortest, -⟩ := h
  unfold IsTail at second third tail
  rw [utf8, if_neg (by omega), if_neg (by omega), if_neg (by omega), byte_eq (b := a),
    byte_eq (b := b), byte_eq (b := c), byte_eq (b := d)]
  all_goals unfold four; omega

theorem decodePoints_sound (bytes : Bytes) (points : List Nat)
    (h : decodePoints bytes = some points) :
    points.flatMap utf8 = bytes ∧ ∀ n ∈ points, IsScalar n := by
  have step (n : Nat) (front rest : Bytes) (points : List Nat) (scalar : IsScalar n)
      (same : utf8 n = front) (h : (decodePoints rest).map (n :: ·) = some points)
      (ih : ∀ points, decodePoints rest = some points →
        points.flatMap utf8 = rest ∧ ∀ n ∈ points, IsScalar n) :
      points.flatMap utf8 = front ++ rest ∧ ∀ n ∈ points, IsScalar n := by
    obtain ⟨tail, decoded, rfl⟩ := Option.map_eq_some_iff.mp h
    obtain ⟨bytes, scalars⟩ := ih tail decoded
    simp only [List.flatMap_cons, same, bytes, List.mem_cons, true_and]
    rintro m (rfl | member)
    · exact scalar
    · exact scalars m member
  fun_induction decodePoints bytes generalizing points with
  | case1 => simp_all
  | case2 a rest one ih =>
    exact step _ [a] rest points (Or.inl (by omega)) (utf8_one one) h ih
  | case3 => simp at h
  | case4 a notOne b rest isTwo ih =>
    have scalar : IsScalar (two a.toNat b.toNat) := by
      obtain ⟨_, _, _⟩ := isTwo
      unfold IsTail at *
      unfold IsScalar two
      omega
    exact step _ [a, b] rest points scalar (utf8_two isTwo) h ih
  | case5 => simp at h
  | case6 a notOne b notTwo c rest isThree ih =>
    exact step _ [a, b, c] rest points isThree.2.2.2.2.2 (utf8_three isThree) h ih
  | case7 => simp at h
  | case8 a notOne b notTwo c notThree d rest isFour ih =>
    exact step _ [a, b, c, d] rest points isFour.2.2.2.2.2.2 (utf8_four isFour) h ih
  | case9 => simp at h

theorem decodePoints_encode (points : List Nat) (scalars : ∀ n ∈ points, IsScalar n) :
    decodePoints (points.flatMap utf8) = some points := by
  induction points with
  | nil => rfl
  | cons n rest ih =>
    rw [List.flatMap_cons, decodePoints_utf8 n _ (scalars n (by simp)),
      ih (fun m member => scalars m (by simp [member])), Option.map_some]

theorem utf16_codePoints (s : Units) : (codePoints s).flatMap utf16 = s := by
  fun_induction codePoints s with
  | case1 => rfl
  | case2 u => simp [utf16, u.toNat_lt]
  | case3 u v rest pair ih =>
    simp only [isLead, isTrail, Bool.and_eq_true, decide_eq_true_eq] at pair
    obtain ⟨⟨leadLow, leadHigh⟩, trailLow, trailHigh⟩ := pair
    have lead : (0x10000 + (u.toNat - 0xD800) * 0x400 + (v.toNat - 0xDC00) - 0x10000) / 0x400
        + 0xD800 = u.toNat := by omega
    have trail : (0x10000 + (u.toNat - 0xD800) * 0x400 + (v.toNat - 0xDC00) - 0x10000) % 0x400
        + 0xDC00 = v.toNat := by omega
    rw [List.flatMap_cons, ih, utf16, if_neg (by omega), lead, trail, UInt16.ofNat_toNat,
      UInt16.ofNat_toNat]
    rfl
  | case4 u v rest pair ih =>
    rw [List.flatMap_cons, ih, utf16, if_pos u.toNat_lt, UInt16.ofNat_toNat]
    rfl

theorem codePoints_cons_of_not_lead (u : UInt16) (rest : Units) (h : isLead u = false) :
    codePoints (u :: rest) = u.toNat :: codePoints rest := by
  cases rest <;> simp [codePoints, h]

theorem codePoints_utf16 (n : Nat) (rest : Units) (scalar : IsScalar n) :
    codePoints (utf16 n ++ rest) = n :: codePoints rest := by
  unfold IsScalar at scalar
  unfold utf16
  split_ifs with basic
  · have value : (UInt16.ofNat n).toNat = n := UInt16.toNat_ofNat_of_lt basic
    rw [List.singleton_append, codePoints_cons_of_not_lead, value]
    simp only [isLead, value, Bool.and_eq_false_iff, decide_eq_false_iff_not]
    omega
  · have lead : (UInt16.ofNat ((n - 0x10000) / 0x400 + 0xD800)).toNat =
        (n - 0x10000) / 0x400 + 0xD800 := UInt16.toNat_ofNat_of_lt (by unfold UInt16.size; omega)
    have trail : (UInt16.ofNat ((n - 0x10000) % 0x400 + 0xDC00)).toNat =
        (n - 0x10000) % 0x400 + 0xDC00 := UInt16.toNat_ofNat_of_lt (by unfold UInt16.size; omega)
    have value : 0x10000 + ((n - 0x10000) / 0x400 + 0xD800 - 0xD800) * 0x400 +
        ((n - 0x10000) % 0x400 + 0xDC00 - 0xDC00) = n := by omega
    rw [List.cons_append, List.singleton_append, codePoints, if_pos, lead, trail, value]
    · simp only [isLead, isTrail, lead, trail, Bool.and_eq_true, decide_eq_true_eq]
      omega

theorem codePoints_utf16_all (points : List Nat) (scalars : ∀ n ∈ points, IsScalar n) :
    codePoints (points.flatMap utf16) = points := by
  induction points with
  | nil => rfl
  | cons n rest ih =>
    rw [List.flatMap_cons, codePoints_utf16 n _ (scalars n (by simp)),
      ih (fun m member => scalars m (by simp [member]))]

theorem decode_encode (s : Units) (wellFormed : WellFormed s) : decode (encode s) = some s := by
  rw [decode, encode, decodePoints_encode _ wellFormed, Option.map_some, utf16_codePoints]

theorem decode_sound (bytes : Bytes) (s : Units) (h : decode bytes = some s) :
    encode s = bytes ∧ WellFormed s := by
  obtain ⟨points, decoded, rfl⟩ := Option.map_eq_some_iff.mp h
  obtain ⟨same, scalars⟩ := decodePoints_sound bytes points decoded
  rw [encode, WellFormed, codePoints_utf16_all points scalars]
  exact ⟨same, scalars⟩

theorem not_lead_of_ascii {u : UInt16} (h : u.toNat < 0x80) : isLead u = false := by
  simp only [isLead, Bool.and_eq_false_iff, decide_eq_false_iff_not]
  omega

theorem not_trail_of_ascii {u : UInt16} (h : u.toNat < 0x80) : isTrail u = false := by
  simp only [isTrail, Bool.and_eq_false_iff, decide_eq_false_iff_not]
  omega

theorem codePoints_cons_ascii (u : UInt16) (rest : Units) (h : u.toNat < 0x80) :
    codePoints (u :: rest) = u.toNat :: codePoints rest :=
  codePoints_cons_of_not_lead u rest (not_lead_of_ascii h)

theorem codePoints_append_ascii (s : Units) (u : UInt16) (rest : Units) (h : u.toNat < 0x80) :
    codePoints (s ++ u :: rest) = codePoints s ++ u.toNat :: codePoints rest := by
  fun_induction codePoints s with
  | case1 => exact codePoints_cons_ascii u rest h
  | case2 v =>
    rw [List.singleton_append, codePoints, not_trail_of_ascii h]
    simp [codePoints_cons_ascii u rest h]
  | case3 v w tail pair ih => simp only [List.cons_append, codePoints, pair, if_true, ih]
  | case4 v w tail pair ih =>
    simp only [List.cons_append] at ih ⊢
    rw [codePoints, if_neg pair, ih]

theorem codePoints_append (s t : Units) (wellFormed : WellFormed s) :
    codePoints (s ++ t) = codePoints s ++ codePoints t := by
  induction hp : codePoints s generalizing s with
  | nil =>
    have empty : s = [] := by rw [← utf16_codePoints s, hp]; rfl
    rw [empty]
    rfl
  | cons n rest ih =>
    have same : s = utf16 n ++ rest.flatMap utf16 := by rw [← utf16_codePoints s, hp]; rfl
    have scalars : ∀ m ∈ n :: rest, IsScalar m := hp ▸ wellFormed
    have restScalars : ∀ m ∈ rest, IsScalar m := fun m member => scalars m (by simp [member])
    have restPoints := codePoints_utf16_all rest restScalars
    have restWellFormed : WellFormed (rest.flatMap utf16) := by
      rw [WellFormed, restPoints]
      exact restScalars
    rw [same, List.append_assoc, codePoints_utf16 n _ (scalars n (by simp)),
      ih _ restWellFormed restPoints, List.cons_append]

theorem encode_append_ascii (s : Units) (u : UInt16) (rest : Units) (h : u.toNat < 0x80) :
    encode (s ++ u :: rest) = encode s ++ UInt8.ofNat u.toNat :: encode rest := by
  rw [encode, codePoints_append_ascii s u rest h, List.flatMap_append, List.flatMap_cons,
    utf8, if_pos h]
  rfl

theorem wellFormed_append_ascii (s : Units) (u : UInt16) (rest : Units) (h : u.toNat < 0x80) :
    WellFormed (s ++ u :: rest) ↔ WellFormed s ∧ WellFormed rest := by
  have ascii : IsScalar u.toNat := Or.inl (by omega)
  simp only [WellFormed, codePoints_append_ascii s u rest h, List.mem_append, List.mem_cons]
  grind

theorem wellFormed_append {s t : Units} (left : WellFormed s) (right : WellFormed t) :
    WellFormed (s ++ t) := by
  rw [WellFormed, codePoints_append s t left]
  intro n member
  exact (List.mem_append.mp member).elim (left n) (right n)

theorem codePoints_ascii (s : Units) (ascii : ∀ u ∈ s, u.toNat < 0x80) :
    codePoints s = s.map UInt16.toNat := by
  induction s with
  | nil => rfl
  | cons u rest ih =>
    rw [codePoints_cons_ascii u rest (ascii u (by simp)),
      ih (fun v member => ascii v (by simp [member])), List.map_cons]

theorem length_encode_ascii (s : Units) (ascii : ∀ u ∈ s, u.toNat < 0x80) :
    (encode s).length = s.length := by
  induction s with
  | nil => rfl
  | cons u rest ih =>
    have cut := encode_append_ascii [] u rest (ascii u (by simp))
    rw [List.nil_append] at cut
    rw [cut, List.length_append, List.length_cons, List.length_cons,
      ih (fun v member => ascii v (by simp [member]))]
    simp [encode, codePoints]

theorem wellFormed_ascii (s : Units) (ascii : ∀ u ∈ s, u.toNat < 0x80) : WellFormed s := by
  rw [WellFormed, codePoints_ascii s ascii]
  intro n member
  obtain ⟨u, inside, rfl⟩ := List.mem_map.mp member
  exact Or.inl (by have := ascii u inside; omega)

theorem mem_utf8_ascii (n : Nat) (b : UInt8) (bound : n < 0x110000) (h : b.toNat < 0x80) :
    b ∈ utf8 n ↔ n = b.toNat := by
  have low {m : Nat} (range : 0x80 ≤ m ∧ m < 256) : b ≠ UInt8.ofNat m := by
    rintro rfl
    rw [toNat_ofNat range.2] at h
    omega
  unfold utf8
  split_ifs with one two three
  · rw [List.mem_singleton]
    constructor
    · rintro rfl
      exact (toNat_ofNat (by omega)).symm
    · rintro rfl
      exact UInt8.ofNat_toNat.symm
  · simp only [List.mem_cons, List.not_mem_nil, or_false]
    have first := low (m := n / 64 + 0xC0) (by omega)
    have second := low (m := n % 64 + 0x80) (by omega)
    simp only [first, second, or_self, false_iff]
    omega
  · simp only [List.mem_cons, List.not_mem_nil, or_false]
    have first := low (m := n / 4096 + 0xE0) (by omega)
    have second := low (m := n / 64 % 64 + 0x80) (by omega)
    have third := low (m := n % 64 + 0x80) (by omega)
    simp only [first, second, third, or_self, false_iff]
    omega
  · simp only [List.mem_cons, List.not_mem_nil, or_false]
    have first := low (m := n / 262144 + 0xF0) (by omega)
    have second := low (m := n / 4096 % 64 + 0x80) (by omega)
    have third := low (m := n / 64 % 64 + 0x80) (by omega)
    have fourth := low (m := n % 64 + 0x80) (by omega)
    simp only [first, second, third, fourth, or_self, false_iff]
    omega

theorem codePoints_bound (s : Units) : ∀ n ∈ codePoints s, n < 0x110000 := by
  fun_induction codePoints s with
  | case1 => simp
  | case2 u => have := u.toNat_lt; simp; omega
  | case3 u v rest pair ih =>
    simp only [isLead, isTrail, Bool.and_eq_true, decide_eq_true_eq] at pair
    simp only [List.mem_cons, forall_eq_or_imp]
    exact ⟨by omega, ih⟩
  | case4 u v rest pair ih =>
    have := u.toNat_lt
    simp only [List.mem_cons, forall_eq_or_imp]
    exact ⟨by omega, ih⟩

theorem mem_codePoints_ascii (s : Units) (u : UInt16) (h : u.toNat < 0x80) :
    u.toNat ∈ codePoints s ↔ u ∈ s := by
  fun_induction codePoints s with
  | case1 => simp
  | case2 v => simp [UInt16.toNat_inj]
  | case3 v w rest pair ih =>
    simp only [isLead, isTrail, Bool.and_eq_true, decide_eq_true_eq] at pair
    have notLead : u ≠ v := by rintro rfl; omega
    have notTrail : u ≠ w := by rintro rfl; omega
    simp only [List.mem_cons, ih, notLead, notTrail, false_or]
    constructor
    · rintro (big | member)
      · omega
      · exact member
    · exact Or.inr
  | case4 v w rest pair ih =>
    rw [List.mem_cons, ih, List.mem_cons (b := v), UInt16.toNat_inj]

theorem mem_encode_ascii (s : Units) (u : UInt16) (h : u.toNat < 0x80) :
    UInt8.ofNat u.toNat ∈ encode s ↔ u ∈ s := by
  have value : (UInt8.ofNat u.toNat).toNat = u.toNat := toNat_ofNat (by omega)
  rw [← mem_codePoints_ascii s u h, encode, List.mem_flatMap]
  constructor
  · rintro ⟨n, member, inside⟩
    rw [mem_utf8_ascii n _ (codePoints_bound s n member) (by omega), value] at inside
    exact inside ▸ member
  · intro member
    refine ⟨u.toNat, member, ?_⟩
    rw [mem_utf8_ascii _ _ (by omega) (by omega), value]

theorem mem_of_head_utf8 {n : Nat} {b : UInt8} {rest : Bytes}
    (first : (utf8 n ++ rest).head? = some b) : b ∈ utf8 n := by
  unfold utf8 at first ⊢
  split_ifs at first ⊢ <;> simp_all

theorem head_encode_ascii {s : Units} {u : UInt16} (h : u.toNat < 0x80)
    (first : (encode s).head? = some (UInt8.ofNat u.toNat)) : s.head? = some u := by
  have value : (UInt8.ofNat u.toNat).toNat = u.toNat := toNat_ofNat (by omega)
  have same {n : Nat} {rest : Bytes} (bound : n < 0x110000)
      (here : (utf8 n ++ rest).head? = some (UInt8.ofNat u.toNat)) : n = u.toNat :=
    ((mem_utf8_ascii n _ bound (by omega)).mp (mem_of_head_utf8 here)).trans value
  unfold encode at first
  fun_cases codePoints s with
  | case1 => simp [codePoints] at first
  | case2 v =>
    have bound := v.toNat_lt
    rw [show codePoints [v] = [v.toNat] from rfl, List.flatMap_cons] at first
    rw [List.head?_cons, UInt16.toNat_inj.mp (same (by omega) first)]
  | case3 v w rest pair =>
    simp only [codePoints, pair, if_true, List.flatMap_cons] at first
    simp only [isLead, isTrail, Bool.and_eq_true, decide_eq_true_eq] at pair
    have := same (by omega) first
    omega
  | case4 v w rest pair =>
    have bound := v.toNat_lt
    simp only [codePoints, pair] at first
    rw [List.head?_cons, UInt16.toNat_inj.mp (same (by omega) first)]

def BasicPlane (s : Units) : Prop := ∀ n ∈ codePoints s, n < 0x10000

instance (s : Units) : Decidable (BasicPlane s) := inferInstanceAs (Decidable (∀ n ∈ _, _))

theorem length_codePoints_le (s : Units) : (codePoints s).length ≤ s.length := by
  fun_induction codePoints s with
  | case1 => simp
  | case2 u => simp
  | case3 u v rest pair ih => simp only [List.length_cons]; omega
  | case4 u v rest pair ih => simpa using ih

-- A pair of surrogates is the only code point of two units.
theorem basicPlane_iff (s : Units) : BasicPlane s ↔ (codePoints s).length = s.length := by
  unfold BasicPlane
  fun_induction codePoints s with
  | case1 => simp
  | case2 u => simpa using u.toNat_lt
  | case3 u v rest pair ih =>
    have short := length_codePoints_le rest
    simp only [List.mem_cons, forall_eq_or_imp, List.length_cons]
    omega
  | case4 u v rest pair ih =>
    have unit : u.toNat < 0x10000 := u.toNat_lt
    simp only [List.mem_cons, forall_eq_or_imp, List.length_cons] at ih ⊢
    rw [ih, Nat.add_right_cancel_iff]
    exact and_iff_right unit

theorem codePoints_inj {s t : Units} (same : codePoints s = codePoints t) : s = t := by
  rw [← utf16_codePoints s, same, utf16_codePoints]

end Unicode
