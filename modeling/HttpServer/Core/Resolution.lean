import HttpServer.Core.Credentials
import HttpServer.Library.LexicalPath
import HttpServer.Library.Percent
import HttpServer.Library.StateRun

set_option autoImplicit false

namespace HttpServer.Core

open Unicode Text Percent

theorem hexDigit_iff (u : UInt16) (x : Nat) :
    Numerals.digit? 16 u = some x ↔ isHexDigit u.toNat = true ∧ hexVal u.toNat = x := by
  simp only [Numerals.digit?, isHexDigit, hexVal, Bool.or_eq_true, Bool.and_eq_true,
    decide_eq_true_eq]
  grind

theorem isHexDigit_iff (u : UInt16) :
    isHexDigit u.toNat = true ↔ (Numerals.digit? 16 u).isSome := by
  simp only [Option.isSome_iff_exists, hexDigit_iff]
  grind

theorem isHexDigit_low {n : Nat} (digit : isHexDigit n = true) : n < 0x80 := by
  simp only [isHexDigit, Bool.or_eq_true, Bool.and_eq_true, decide_eq_true_eq] at digit
  omega

-- The next two characters are digits.
def hexPair : List Nat → Bool
  | a :: b :: _ => isHexDigit a && isHexDigit b
  | _ => false

theorem hexPair_codePoints (s : Str) : hexPair (codePoints s) = hexPair (s.map UInt16.toNat) := by
  have surrogate {n : Nat} (high : 0xD800 ≤ n) : isHexDigit n = false := by
    by_contra digit
    have := isHexDigit_low (eq_true_of_ne_false digit)
    omega
  have behind (u : UInt16) (first : Nat) (rest : Str) :
      hexPair (first :: codePoints (u :: rest)) = (isHexDigit first && isHexDigit u.toNat) := by
    cases rest with
    | nil => rfl
    | cons v rest =>
      rw [codePoints]
      split_ifs with pair
      · simp only [isLead, isTrail, Bool.and_eq_true, decide_eq_true_eq] at pair
        have lead : isHexDigit u.toNat = false := surrogate (by omega)
        have whole : isHexDigit (0x10000 + (u.toNat - 0xD800) * 0x400 + (v.toNat - 0xDC00)) =
            false := surrogate (by omega)
        rw [hexPair, lead, whole]
      · rfl
  cases s with
  | nil => rfl
  | cons u rest =>
    cases rest with
    | nil => rfl
    | cons v rest =>
      rw [codePoints]
      split_ifs with pair
      · simp only [isLead, isTrail, Bool.and_eq_true, decide_eq_true_eq] at pair
        have lead : isHexDigit u.toNat = false := surrogate (by omega)
        have whole : isHexDigit (0x10000 + (u.toNat - 0xD800) * 0x400 + (v.toNat - 0xDC00)) =
            false := surrogate (by omega)
        cases points : codePoints rest with
        | nil => simp [hexPair, lead]
        | cons c points => simp [hexPair, lead, whole]
      · exact behind v u.toNat rest

theorem hexPair_iff (s : Str) : hexPair (s.map UInt16.toNat) = true ↔ EscapeAt s := by
  unfold EscapeAt
  match s with
  | [] => simp [hexPair]
  | [a] => simp [hexPair]
  | a :: b :: behind => simp [hexPair, isHexDigit_iff]

theorem validUriChars_cons (c : Nat) (rest : List Nat) :
    validUriChars (c :: rest) = ((c != 0x25 || hexPair rest) && validUriChars rest) := by
  have other {c : Nat} (differs : c ≠ 0x25) (rest : List Nat) :
      validUriChars (c :: rest) = validUriChars rest := by
    rw [validUriChars.eq_def]
    grind
  by_cases percent : c = 0x25
  · subst percent
    match rest with
    | [] => rfl
    | [a] => rfl
    | a :: b :: rest =>
      by_cases digits : isHexDigit a = true ∧ isHexDigit b = true
      · have first : a ≠ 0x25 := by rintro rfl; exact absurd digits.1 (by decide)
        have second : b ≠ 0x25 := by rintro rfl; exact absurd digits.2 (by decide)
        rw [other first, other second]
        simp [validUriChars, hexPair, digits]
      · have none : (isHexDigit a && isHexDigit b) = false := by simpa using digits
        simp [validUriChars, hexPair, none]
  · rw [other percent]
    simp [percent]

theorem validUriChars_iff (s : Str) :
    validUriChars (s.map UInt16.toNat) = true ↔ WellEscaped s := by
  induction s with
  | nil => simp [validUriChars, wellEscaped_nil]
  | cons u rest ih =>
    have percent : u.toNat = 0x25 ↔ u = sign := by
      rw [← UInt16.toNat_inj]
      rfl
    rw [List.map_cons, validUriChars_cons, wellEscaped_cons, Bool.and_eq_true, ih,
      Bool.or_eq_true, hexPair_iff, bne_iff_ne, Ne, percent, imp_iff_not_or]

-- The characters beyond ASCII, however many units they take, play no part in escapes.
theorem validUriChars_codePoints (s : Str) :
    validUriChars (codePoints s) = validUriChars (s.map UInt16.toNat) := by
  fun_induction codePoints s with
  | case1 => rfl
  | case2 u => rfl
  | case3 u v rest pair ih =>
    simp only [isLead, isTrail, Bool.and_eq_true, decide_eq_true_eq] at pair
    have lead : (u.toNat != 0x25) = true := by rw [bne_iff_ne]; omega
    have trail : (v.toNat != 0x25) = true := by rw [bne_iff_ne]; omega
    have big : (0x10000 + (u.toNat - 0xD800) * 0x400 + (v.toNat - 0xDC00) != 0x25) = true := by
      rw [bne_iff_ne]; omega
    simp only [List.map_cons, validUriChars_cons, lead, trail, big, Bool.true_or, Bool.true_and, ih]
  | case4 u v rest pair ih =>
    rw [validUriChars_cons, ih, hexPair_codePoints, ← validUriChars_cons]
    rfl

theorem validateUriEncoding_iff (target : Str) :
    validateUriEncoding target = true ↔ WellEscaped target := by
  rw [validateUriEncoding, validUriChars_codePoints, validUriChars_iff]

theorem percentBytes_plain {u : UInt16} (rest : Str) (other : u ≠ sign) :
    percentBytes (u :: rest) = (percentBytes rest).map (unitBytes u.toNat ++ ·) := by
  rw [percentBytes.eq_def]
  exact if_neg other

theorem percentBytes_sign {a b : UInt16} {x y : Nat} (rest : Str)
    (high : Numerals.digit? 16 a = some x) (low : Numerals.digit? 16 b = some y) :
    percentBytes (sign :: a :: b :: rest) = (percentBytes rest).map ((x * 16 + y) :: ·) := by
  obtain ⟨first, rfl⟩ := (hexDigit_iff _ _).mp high
  obtain ⟨second, rfl⟩ := (hexDigit_iff _ _).mp low
  rw [percentBytes.eq_def]
  simp [first, second, show sign = unit '%' from rfl]

theorem percentBytes_escapes {run : Str} {bytes : List Nat} (rest : Str)
    (escapes : Escapes run bytes) :
    percentBytes (run ++ rest) = (percentBytes rest).map (bytes ++ ·) := by
  induction escapes with
  | nil => simp
  | cons high low _ ih =>
    rw [List.cons_append, List.cons_append, List.cons_append, percentBytes_sign _ high low, ih,
      Option.map_map]
    rfl

-- Bytes start with those of a whole character or of one escape.
theorem percentBytes_cases {raw : Str} {bytes : List Nat} (read : percentBytes raw = some bytes) :
    raw = [] ∧ bytes = [] ∨
      (∃ u rest tail, raw = u :: rest ∧ u ≠ sign ∧ percentBytes rest = some tail ∧
        bytes = unitBytes u.toNat ++ tail) ∨
      ∃ run rest b tail, raw = run ++ rest ∧ Escapes run [b] ∧ percentBytes rest = some tail ∧
        bytes = b :: tail ∧ rest.length < raw.length := by
  cases raw with
  | nil => exact .inl ⟨rfl, (Option.some.inj read).symm⟩
  | cons u rest =>
    by_cases percent : u = sign
    · subst percent
      refine .inr (.inr ?_)
      rw [percentBytes.eq_def] at read
      simp only [show sign = unit '%' from rfl, if_true] at read
      match rest with
      | [] => simp at read
      | [a] => simp at read
      | a :: b :: rest =>
        simp only at read
        split_ifs at read with digits
        rw [Bool.and_eq_true, isHexDigit_iff, isHexDigit_iff] at digits
        obtain ⟨x, high⟩ := Option.isSome_iff_exists.mp digits.1
        obtain ⟨y, low⟩ := Option.isSome_iff_exists.mp digits.2
        obtain ⟨tail, behind, rfl⟩ := Option.map_eq_some_iff.mp read
        rw [((hexDigit_iff _ _).mp high).2, ((hexDigit_iff _ _).mp low).2]
        refine ⟨[sign, a, b], rest, _, tail, rfl, .cons high low .nil, behind, rfl, ?_⟩
        simp only [List.length_cons]
        omega
    · rw [percentBytes_plain rest percent, Option.map_eq_some_iff] at read
      obtain ⟨tail, behind, rfl⟩ := read
      exact .inr (.inl ⟨u, rest, tail, rfl, percent, behind, rfl⟩)

theorem spells_unitBytes {n : Nat} (bound : n < 0x10000) : Spells (unitBytes n) [n] := by
  unfold unitBytes
  split_ifs with one two
  · exact .one one .nil
  · have value : Unicode.two (0xC0 + n / 64) (0x80 + n % 64) = n := by
      unfold Unicode.two
      omega
    have form : IsTwo (0xC0 + n / 64) (0x80 + n % 64) := by
      unfold IsTwo IsTail
      omega
    have spelt := Spells.two form .nil
    rwa [value] at spelt
  · have value : three (0xE0 + n / 4096) (0x80 + n / 64 % 64) (0x80 + n % 64) = n := by
      unfold three
      omega
    have lead : 0xE0 ≤ 0xE0 + n / 4096 ∧ 0xE0 + n / 4096 ≤ 0xEF := by omega
    have second : IsTail (0x80 + n / 64 % 64) := by unfold IsTail; omega
    have third : IsTail (0x80 + n % 64) := by unfold IsTail; omega
    have spelt := Spells.three lead second third .nil
    rwa [value] at spelt

theorem unitBytes_lead (n : Nat) : ∃ b rest, unitBytes n = b :: rest ∧ ¬IsTail b := by
  unfold unitBytes IsTail
  split_ifs
  · exact ⟨n, [], rfl, by omega⟩
  · exact ⟨_, _, rfl, by omega⟩
  · exact ⟨_, _, rfl, by omega⟩

-- A continuation byte is an escape: a character of the text brings its own lead byte.
theorem tail_escaped {raw : Str} {b : Nat} {bytes : List Nat} (tail : IsTail b)
    (read : percentBytes raw = some (b :: bytes)) :
    ∃ run rest, raw = run ++ rest ∧ Escapes run [b] ∧ percentBytes rest = some bytes ∧
      rest.length < raw.length := by
  obtain ⟨-, none⟩ | ⟨u, rest, behind, -, -, -, same⟩ |
    ⟨run, rest, b', behind, whole, escapes, further, same, shorter⟩ := percentBytes_cases read
  · cases none
  · obtain ⟨lead, others, first, notTail⟩ := unitBytes_lead u.toNat
    rw [first] at same
    obtain ⟨rfl, -⟩ := List.cons.inj same
    exact absurd tail notTail
  · obtain ⟨rfl, rfl⟩ := List.cons.inj same
    exact ⟨run, rest, whole, escapes, further, shorter⟩

theorem decodes_of_spells {raw : Str} {bytes points : List Nat}
    (read : percentBytes raw = some bytes) (spelt : Spells bytes points) :
    Decodes FaceValue raw (points.flatMap utf16) := by
  induction hn : raw.length using Nat.strongRecOn generalizing raw bytes points with
  | ind n ih =>
    obtain ⟨rfl, rfl⟩ | ⟨u, rest, behind, rfl, other, further, rfl⟩ |
      ⟨run, rest, b, behind, rfl, escapes, further, rfl, shorter⟩ := percentBytes_cases read
    · cases spelt
      exact .nil
    · obtain ⟨tail, rfl, later⟩ := (spells_unitBytes u.toNat_lt).cancel spelt
      have decoded := ih _ (by rw [← hn]; simp) further later rfl
      rw [List.flatMap_cons, utf16, if_pos u.toNat_lt, UInt16.ofNat_toNat]
      exact .plain other decoded
    · -- The group takes as many escapes as its lead byte asks for.
      cases spelt with
      | one low later =>
        exact .escaped escapes (Spells.one low .nil) (ih _ (by omega) further later rfl)
      | two form later =>
        obtain ⟨run₂, rest₂, rfl, escapes₂, further₂, shorter₂⟩ := tail_escaped form.2.2 further
        rw [← List.append_assoc]
        exact .escaped (escapes.append escapes₂) (Spells.two form .nil)
          (ih _ (by omega) further₂ later rfl)
      | three lead second third later =>
        obtain ⟨run₂, rest₂, rfl, escapes₂, further₂, shorter₂⟩ := tail_escaped second further
        obtain ⟨run₃, rest₃, rfl, escapes₃, further₃, shorter₃⟩ := tail_escaped third further₂
        rw [← List.append_assoc, ← List.append_assoc]
        exact .escaped ((escapes.append escapes₂).append escapes₃)
          (Spells.three lead second third .nil) (ih _ (by omega) further₃ later rfl)
      | four lead second third fourth later =>
        obtain ⟨run₂, rest₂, rfl, escapes₂, further₂, shorter₂⟩ := tail_escaped second further
        obtain ⟨run₃, rest₃, rfl, escapes₃, further₃, shorter₃⟩ := tail_escaped third further₂
        obtain ⟨run₄, rest₄, rfl, escapes₄, further₄, shorter₄⟩ := tail_escaped fourth further₃
        rw [← List.append_assoc, ← List.append_assoc, ← List.append_assoc]
        exact .escaped (((escapes.append escapes₂).append escapes₃).append escapes₄)
          (Spells.four lead second third fourth .nil) (ih _ (by omega) further₄ later rfl)

theorem spells_of_decodes {raw text : Str} (decodes : Decodes FaceValue raw text) :
    ∃ bytes, percentBytes raw = some bytes ∧ Reads bytes text := by
  induction decodes with
  | nil => exact ⟨[], rfl, [], .nil, rfl⟩
  | @plain u rest text other _ ih =>
    obtain ⟨bytes, read, points, spelt, rfl⟩ := ih
    refine ⟨unitBytes u.toNat ++ bytes, by rw [percentBytes_plain rest other, read]; rfl,
      u.toNat :: points, (spells_unitBytes u.toNat_lt).append spelt, ?_⟩
    rw [List.flatMap_cons, utf16, if_pos u.toNat_lt, UInt16.ofNat_toNat]
    rfl
  | @escaped run rest text group n escapes form _ ih =>
    obtain ⟨bytes, read, points, spelt, rfl⟩ := ih
    exact ⟨group ++ bytes, by rw [percentBytes_escapes rest escapes, read]; rfl,
      n :: points, Spells.append form spelt, rfl⟩

theorem decodePercent_iff (raw text : Str) :
    decodePercent raw = .ok text ↔ Decodes FaceValue raw text := by
  constructor
  · intro decoded
    unfold decodePercent at decoded
    cases read : percentBytes raw with
    | none => simp [read, StateRun.except_throw_ok] at decoded
    | some bytes =>
      cases decodes : decodeUtf8Bytes bytes with
      | none => simp [read, decodes, StateRun.except_throw_ok] at decoded
      | some s =>
        simp only [read, decodes] at decoded
        obtain rfl := Except.ok.inj decoded
        obtain ⟨points, spelt, rfl⟩ := (decodeUtf8Bytes_iff bytes s).mp decodes
        exact decodes_of_spells read spelt
  · intro decodes
    obtain ⟨bytes, read, reads⟩ := spells_of_decodes decodes
    simp only [decodePercent, read, (decodeUtf8Bytes_iff bytes text).mpr reads]
    rfl

-- What an ASCII text decodes to by shortest forms is what its bytes decode to strictly.
theorem decodePoints_of_decodes {raw text : Str} (ascii : ∀ u ∈ raw, u.toNat < 0x80)
    (decodes : Decodes Shortest raw text) :
    ∃ bytes, percentBytes raw = some bytes ∧ (decodePoints (bytes.map UInt8.ofNat)).isSome := by
  induction decodes with
  | nil => exact ⟨[], rfl, rfl⟩
  | @plain u rest text other _ ih =>
    obtain ⟨bytes, read, strict⟩ := ih fun v member => ascii v (by simp [member])
    have low := ascii u (by simp)
    have value : (UInt8.ofNat u.toNat).toNat = u.toNat := toNat_ofNat (by omega)
    refine ⟨u.toNat :: bytes, ?_, ?_⟩
    · rw [percentBytes_plain rest other, read, unitBytes, if_pos low]
      rfl
    · rw [List.map_cons, decodePoints_one _ (by omega), Option.isSome_map]
      exact strict
  | @escaped run rest text group n escapes form _ ih =>
    obtain ⟨bytes, read, strict⟩ := ih fun v member => ascii v (by simp [member])
    obtain ⟨scalar, rfl⟩ := form
    refine ⟨_, by rw [percentBytes_escapes rest escapes, read]; rfl, ?_⟩
    have back : ((utf8 n).map UInt8.toNat).map UInt8.ofNat = utf8 n := by
      rw [List.map_map]
      exact (List.map_congr_left fun b _ => UInt8.ofNat_toNat).trans (List.map_id _)
    rw [List.map_append, back, decodePoints_utf8 n _ scalar, Option.isSome_map]
    exact strict

def pathText (target : Str) : Str := target.takeWhile (· != unit '?')

theorem split_head (s : Str) (u : UInt16) :
    (split s u).head (split_ne_nil s u) = s.takeWhile (· != u) := by
  have first : (split s u).head? = some (s.takeWhile (· != u)) := by
    unfold split
    induction s with
    | nil => simp
    | cons v rest ih =>
      rw [List.splitOn_cons_eq_if_modifyHead]
      by_cases same : v = u
      · simp [same]
      · simp [same, List.head?_modifyHead, ih]
  rw [List.head?_eq_some_head (split_ne_nil s u)] at first
  exact Option.some.inj first

-- A mount without its slash: the whole server is mounted at the empty text.
def mount (baseUrl : Str) : Str := if baseUrl = str "/" then [] else baseUrl

def Under (baseUrl path rel : Str) : Prop :=
  path = mount baseUrl ∧ rel = [] ∨ path = mount baseUrl ++ str "/" ++ rel

theorem mounted_iff (baseUrl path : Str) :
    (baseUrl.length < path.length && hasPrefix path baseUrl &&
      path[baseUrl.length]? == some (unit '/')) = true ↔ ∃ rel, path = baseUrl ++ str "/" ++ rel := by
  simp only [Bool.and_eq_true, decide_eq_true_eq, hasPrefix, List.isPrefixOf_iff_prefix, beq_iff_eq]
  constructor
  · rintro ⟨⟨-, rest, rfl⟩, slash⟩
    cases rest with
    | nil => simp at slash
    | cons u rest =>
      obtain rfl : u = unit '/' := by simpa using slash
      exact ⟨rest, by simp [str, unit]⟩
  · rintro ⟨rel, rfl⟩
    have slash : str "/" = [unit '/'] := rfl
    refine ⟨⟨by simp [slash], by simp⟩, ?_⟩
    simp [slash]

theorem matchAndStripBaseUrl_iff (baseUrl path rel : Str) :
    matchAndStripBaseUrl baseUrl path = some rel ↔ Under baseUrl path rel := by
  have longer (rel : Str) : baseUrl ≠ baseUrl ++ str "/" ++ rel := by
    intro same
    have lengths := congrArg List.length same
    simp [str] at lengths
  unfold matchAndStripBaseUrl Under mount
  split_ifs with whole same inside
  · cases path with
    | nil => simp [str]
    | cons u rest => by_cases slash : u = Numerals.unitOf '/' <;> simp [str, unit, slash]
  · subst same
    simp only [Option.some.injEq, true_and, longer rel, or_false]
    exact eq_comm
  · obtain ⟨rest, rfl⟩ := (mounted_iff _ _).mp inside
    have slash : (str "/").length = 1 := rfl
    have cut : (baseUrl ++ str "/" ++ rest).drop (baseUrl.length + 1) = rest := by
      rw [← slash, ← List.length_append, List.drop_left]
    rw [cut, Option.some.injEq, List.append_cancel_left_eq]
    simp only [same, false_and, false_or]
  · have outside : ¬path = baseUrl ++ str "/" ++ rel := fun mounted =>
      inside ((mounted_iff _ _).mpr ⟨rel, mounted⟩)
    simp only [same, outside, false_and, or_self]

def Device (part : Str) : Prop :=
  ∃ name ∈ reservedNames, toLower (part.takeWhile (· != unit '.')) = toLower name

structure Allowed (rel : Str) : Prop where
  relative : ¬[unit '/'] <+: rel
  noNul : 0 ∉ rel
  noBackslash : unit '\\' ∉ rel
  noColon : unit ':' ∉ rel
  noParent : str ".." ∉ split rel (unit '/')
  noDevice : ∀ part ∈ split rel (unit '/'), ¬Device part

theorem upper_eq_iff (u v : UInt16) (capital : ¬(0x61 ≤ v.toNat ∧ v.toNat ≤ 0x7A)) :
    upperUnit u.toNat = v.toNat ↔ lowerUnit u = lowerUnit v := by
  rw [← UInt16.toNat_inj, lowerUnit_toNat, lowerUnit_toNat, upperUnit]
  split_ifs <;> omega

theorem upper_utf16 (base : Str) :
    (codePoints base).flatMap (fun c => utf16 (upperUnit c)) =
      base.map fun u => UInt16.ofNat (upperUnit u.toNat) := by
  have keeps {n : Nat} (high : 0x7A < n) : upperUnit n = n := if_neg (by omega)
  have single {u : UInt16} : utf16 (upperUnit u.toNat) = [UInt16.ofNat (upperUnit u.toNat)] := by
    have bound := u.toNat_lt
    have : upperUnit u.toNat < 0x10000 := by unfold upperUnit; split_ifs <;> omega
    rw [utf16, if_pos this]
  fun_induction codePoints base with
  | case1 => rfl
  | case2 u => simp [single]
  | case3 u v rest pair ih =>
    have whole := utf16_codePoints (u :: v :: rest)
    rw [codePoints, if_pos pair, List.flatMap_cons, utf16_codePoints rest] at whole
    have both : utf16 (0x10000 + (u.toNat - 0xD800) * 0x400 + (v.toNat - 0xDC00)) = [u, v] :=
      List.append_cancel_right whole
    simp only [isLead, isTrail, Bool.and_eq_true, decide_eq_true_eq] at pair
    rw [List.flatMap_cons, ih, keeps (by omega), both, List.map_cons, List.map_cons,
      keeps (n := u.toNat) (by omega), keeps (n := v.toNat) (by omega), UInt16.ofNat_toNat,
      UInt16.ofNat_toNat]
    rfl
  | case4 u v rest pair ih => rw [List.flatMap_cons, ih, single]; rfl

theorem upper_eq_iff_lower (base name : Str)
    (capitals : ∀ v ∈ name, ¬(0x61 ≤ v.toNat ∧ v.toNat ≤ 0x7A)) :
    base.map (fun u => UInt16.ofNat (upperUnit u.toNat)) = name ↔ toLower base = toLower name := by
  induction base generalizing name with
  | nil => simp [toLower, eq_comm]
  | cons u base ih =>
    cases name with
    | nil => simp [toLower]
    | cons v name =>
      have here := upper_eq_iff u v (capitals v (by simp))
      have bound := u.toNat_lt
      have small : (UInt16.ofNat (upperUnit u.toNat)).toNat = upperUnit u.toNat := by
        apply UInt16.toNat_ofNat_of_lt
        unfold upperUnit UInt16.size
        split_ifs <;> omega
      simp only [toLower] at ih
      rw [List.map_cons, List.cons.injEq, ih name fun w member => capitals w (by simp [member]),
        ← UInt16.toNat_inj, small, here]
      simp only [toLower, List.map_cons, List.cons.injEq]

theorem takeWhile_bne {s t : Str} {u : UInt16} (absent : u ∉ s) :
    (s ++ u :: t).takeWhile (· != u) = s := by
  rw [List.takeWhile_append_of_pos fun v member => by
    rw [bne_iff_ne]
    exact fun same => absent (same ▸ member)]
  simp

theorem isWindowsReservedName_iff (part : Str) :
    isWindowsReservedName part = true ↔ Device part := by
  have capitals (name : Str) (member : name ∈ reservedNames) :
      ∀ v ∈ name, ¬(0x61 ≤ v.toNat ∧ v.toNat ≤ 0x7A) := by
    have table : (reservedNames.all fun name => name.all fun v =>
        v.toNat < 0x61 || 0x7A < v.toNat) = true := by decide +kernel
    intro v inside
    have high := List.all_eq_true.mp (List.all_eq_true.mp table name member) v inside
    simp only [Bool.or_eq_true, decide_eq_true_eq] at high
    omega
  have device (base : Str) : reservedNames.contains
        ((codePoints base).flatMap fun c => utf16 (upperUnit c)) = true ↔
      ∃ name ∈ reservedNames, toLower base = toLower name := by
    rw [upper_utf16, List.contains_iff_mem]
    constructor
    · intro member
      exact ⟨_, member, (upper_eq_iff_lower base _ (capitals _ member)).mp rfl⟩
    · rintro ⟨name, member, same⟩
      rwa [(upper_eq_iff_lower base name (capitals name member)).mpr same]
  unfold isWindowsReservedName Device
  rw [device]
  cases dot : find part (unit '.') with
  | none =>
    have absent := find_eq_none.mp dot
    rw [List.takeWhile_eq_self_iff.mpr fun v member => by
      rw [bne_iff_ne]
      exact fun same => absent (same ▸ member)]
  | some idx =>
    obtain ⟨whole, absent⟩ := find_eq_some dot
    have front : part.takeWhile (· != unit '.') = part.take idx := by
      rw [whole, takeWhile_bne absent, ← whole]
    rw [front]

theorem mem_iff_mem_piece {s : Str} {u v : UInt16} (other : v ≠ u) :
    v ∈ s ↔ ∃ piece ∈ split s u, v ∈ piece := by
  constructor
  · intro member
    unfold split
    induction s with
    | nil => simp at member
    | cons w rest ih =>
      rw [List.splitOn_cons_eq_if_modifyHead]
      obtain ⟨first, others, pieces⟩ := List.exists_cons_of_ne_nil (List.splitOn_ne_nil u rest)
      rw [pieces] at ih ⊢
      rcases List.mem_cons.mp member with rfl | later
      · rw [if_neg (by simpa using other), List.modifyHead_cons]
        exact ⟨v :: first, by simp, by simp⟩
      · obtain ⟨piece, found, inside⟩ := ih later
        split_ifs
        · exact ⟨piece, List.mem_cons_of_mem _ found, inside⟩
        · rw [List.modifyHead_cons]
          rcases List.mem_cons.mp found with rfl | behind
          · exact ⟨w :: piece, by simp, List.mem_cons_of_mem _ inside⟩
          · exact ⟨piece, List.mem_cons_of_mem _ behind, inside⟩
  · rintro ⟨piece, member, inside⟩
    exact subset_of_mem_split member inside

theorem badPart_iff (part : Str) :
    badPart part = true ↔ part = str ".." ∨ unit ':' ∈ part ∨ Device part := by
  rw [badPart, Bool.or_eq_true, Bool.or_eq_true, beq_iff_eq, isWindowsReservedName_iff, or_assoc,
    ← Option.ne_none_iff_isSome, Ne, find_eq_none, not_not]

theorem not_device_nil : ¬Device [] := by
  rintro ⟨name, member, same⟩
  have some : (reservedNames.all fun name => !name.isEmpty) = true := by decide +kernel
  have notEmpty := List.all_eq_true.mp some name member
  have length := congrArg List.length same
  simp only [toLower, List.takeWhile_nil, List.map_nil, List.length_nil, List.length_map] at length
  simp [List.length_eq_zero_iff.mp length.symm] at notEmpty

theorem parts_iff (rel : Str) : (split rel (unit '/')).any badPart = false ↔
    unit ':' ∉ rel ∧ str ".." ∉ split rel (unit '/') ∧
      ∀ part ∈ split rel (unit '/'), ¬Device part := by
  have colon : unit ':' ∈ rel ↔ ∃ piece ∈ split rel (unit '/'), unit ':' ∈ piece :=
    mem_iff_mem_piece (by decide)
  simp only [List.any_eq_false, badPart_iff, colon]
  grind

theorem validateRelativePath_iff (rel : Str) : validateRelativePath rel = true ↔ Allowed rel := by
  unfold validateRelativePath
  by_cases empty : rel = []
  · subst empty
    have single : split [] (unit '/') = [[]] := rfl
    rw [if_pos rfl]
    refine iff_of_true rfl ⟨by simp, by simp, by simp, by simp, by decide, ?_⟩
    simpa [single] using not_device_nil
  · have slash : hasPrefix rel (str "/") = true ↔ [unit '/'] <+: rel := List.isPrefixOf_iff_prefix
    have nul : Text.contains rel [0] = true ↔ 0 ∈ rel := contains_single
    have backslash : Text.contains rel (str "\\") = true ↔ unit '\\' ∈ rel := contains_single
    rw [if_neg empty]
    split_ifs with refused
    · simp only [Bool.or_eq_true, slash, nul, backslash] at refused
      refine iff_of_false (by simp) fun allowed => ?_
      exact refused.elim (·.elim allowed.relative allowed.noNul) allowed.noBackslash
    · simp only [Bool.or_eq_true, slash, nul, backslash, not_or] at refused
      obtain ⟨⟨relative, noNul⟩, noBackslash⟩ := refused
      rw [Bool.not_eq_true', parts_iff]
      exact ⟨fun ⟨colon, parent, device⟩ => ⟨relative, noNul, noBackslash, colon, parent, device⟩,
        fun allowed => ⟨allowed.noColon, allowed.noParent, allowed.noDevice⟩⟩

def isSeparator (u : UInt16) : Bool := u == unit '/' || u == unit '\\'

-- A root without its one trailing separator. A root that is one character stays as it is.
def Bare (root bare : Str) : Prop :=
  (∃ u, isSeparator u = true ∧ bare ≠ [] ∧ root = bare ++ [u]) ∨
    bare = root ∧ ∀ init u, root = init ++ [u] → isSeparator u = true → init = []

theorem bare_iff {root : Str} (some : root ≠ []) (bare : Str) :
    Bare root bare ↔ bare = normRoot root := by
  obtain ⟨init, last, rfl⟩ := (List.eq_nil_or_concat' root).resolve_left some
  have ends (u : UInt16) : hasSuffix (init ++ [last]) [u] = true ↔ last = u := by
    rw [hasSuffix, List.isSuffixOf_iff_suffix]
    constructor
    · rintro ⟨front, same⟩
      simpa [eq_comm] using (List.append_inj' same rfl).2
    · rintro rfl
      exact List.suffix_append _ _
  have separator : (hasSuffix (init ++ [last]) (str "/") || hasSuffix (init ++ [last]) (str "\\")) =
      true ↔ isSeparator last = true := by
    rw [isSeparator, Bool.or_eq_true, Bool.or_eq_true, beq_iff_eq, beq_iff_eq]
    exact or_congr (ends _) (ends _)
  have long : 1 < (init ++ [last]).length ↔ init ≠ [] := by
    cases init <;> simp
  have trimmed : normRoot (init ++ [last]) =
      if init ≠ [] ∧ isSeparator last = true then init else init ++ [last] := by
    unfold normRoot
    simp only [Bool.and_eq_true, separator, decide_eq_true_eq, long, List.dropLast_concat]
  rw [trimmed]
  unfold Bare
  constructor
  · rintro (⟨u, sep, front, whole⟩ | ⟨rfl, alone⟩)
    · obtain ⟨rfl, same⟩ := List.append_inj' whole rfl
      obtain rfl : last = u := by simpa using same
      rw [if_pos ⟨front, sep⟩]
    · exact (if_neg fun both => both.1 (alone init last rfl both.2)).symm
  · rintro rfl
    split_ifs with both
    · exact .inl ⟨last, both.2, both.1, rfl⟩
    · refine .inr ⟨rfl, fun front u whole sep => ?_⟩
      obtain ⟨rfl, same⟩ := List.append_inj' whole rfl
      obtain rfl : last = u := by simpa using same
      by_contra notEmpty
      exact both ⟨notEmpty, sep⟩

def isSkipped (part : Str) : Bool := part == [] || part == str "."

def isParent (part : Str) : Bool := part == str ".."

def rooted (path : Str) : Bool := path.head?.any isSeparator

def entries (path : Str) : List Str :=
  LexicalPath.normalize isSkipped isParent (rooted path) (path.splitOnP isSeparator)

/-- After normalisation the path starts with the components of the root. -/
def Within (root path : Str) : Prop := rooted path = rooted root ∧ entries root <+: entries path

theorem splitOnP_separator {rel : Str} (noBackslash : unit '\\' ∉ rel) :
    rel.splitOnP isSeparator = split rel (unit '/') := by
  unfold split
  induction rel with
  | nil => rfl
  | cons u rest ih =>
    rw [List.mem_cons, not_or] at noBackslash
    have other : (u == unit '\\') = false := beq_eq_false_iff_ne.mpr fun same => noBackslash.1 same.symm
    rw [List.splitOnP_cons_eq_if_modifyHead, List.splitOn_cons_eq_if_modifyHead, ih noBackslash.2,
      isSeparator, other, Bool.or_false]

theorem entries_slash {bare rel : Str} (some : bare ≠ []) (u : UInt16) (sep : isSeparator u = true)
    (names : ∀ part ∈ rel.splitOnP isSeparator, isSkipped part = true ∨ isParent part = false) :
    rooted (bare ++ u :: rel) = rooted bare ∧ entries (bare ++ u :: rel) =
      entries bare ++ (rel.splitOnP isSeparator).filter (!isSkipped ·) := by
  have start : rooted (bare ++ u :: rel) = rooted bare := by
    obtain ⟨v, rest, rfl⟩ := List.exists_cons_of_ne_nil some
    rfl
  refine ⟨start, ?_⟩
  rw [entries, start, List.splitOnP_append_cons _ _ sep,
    LexicalPath.normalize_append _ _ _ _ _ names, entries]

theorem inside_of_bare {root bare rel : Str} (some : root ≠ []) (bared : Bare root bare)
    (noBackslash : unit '\\' ∉ rel) (noParent : str ".." ∉ split rel (unit '/')) :
    Within root bare ∧ Within root (bare ++ str "/" ++ rel) := by
  have names : ∀ part ∈ rel.splitOnP isSeparator, isSkipped part = true ∨ isParent part = false := by
    rw [splitOnP_separator noBackslash]
    intro part member
    refine .inr (beq_eq_false_iff_ne.mpr ?_)
    rintro rfl
    exact noParent member
  have empty : ∀ part ∈ ([] : Str).splitOnP isSeparator,
      isSkipped part = true ∨ isParent part = false := by decide
  have notEmpty : bare ≠ [] := by
    rcases bared with ⟨_, -, front, -⟩ | ⟨rfl, -⟩
    · exact front
    · exact some
  -- The root's own trailing separator leads to an empty component only.
  have same : rooted root = rooted bare ∧ entries root = entries bare := by
    rcases bared with ⟨u, sep, -, rfl⟩ | ⟨rfl, -⟩
    · obtain ⟨start, kept⟩ := entries_slash notEmpty u sep empty
      exact ⟨start, by rw [kept]; simp [isSkipped]⟩
    · exact ⟨rfl, rfl⟩
  have slash : isSeparator (unit '/') = true := by decide
  obtain ⟨start, more⟩ := entries_slash notEmpty (unit '/') slash names
  have joined : bare ++ str "/" ++ rel = bare ++ unit '/' :: rel := by simp [str, unit]
  refine ⟨⟨same.1.symm, by rw [same.2]⟩, ?_⟩
  rw [joined]
  exact ⟨start.trans same.1.symm, by rw [more, same.2]; exact List.prefix_append _ _⟩

/-- No escapes of the text spell a character in a longer form than it needs, a surrogate or a
value past the last plane. -/
def Tidy (raw : Str) : Prop := ∀ text, Decodes FaceValue raw text → Decodes Shortest raw text

def located (bare rel : Str) : Str := if rel = [] then bare else bare ++ str "/" ++ rel

def Resolves (root baseUrl target path : Str) : Prop :=
  WellEscaped target ∧ ∃ text rel bare, Decodes Shortest (pathText target) text ∧
    Under baseUrl text rel ∧ Allowed rel ∧ Bare root bare ∧ path = located bare rel

theorem normalizeBaseUrl_noNul {value baseUrl : Str}
    (normal : normalizeBaseUrl value = .ok baseUrl) : 0 ∉ baseUrl := by
  simp only [normalizeBaseUrl, StateRun.except_ite_ok, StateRun.except_throw_ok, and_false,
    false_or, Bool.or_eq_true, not_or] at normal
  obtain ⟨-, same⟩ | ⟨-, invalid, -, same⟩ := normal
  · obtain rfl := Except.ok.inj same
    decide
  · have clean : 0 ∉ value := fun member => invalid.1.1.2 (contains_single.mpr member)
    have kept : 0 ∉ (if hasPrefix value (str "/") then value else str "/" ++ value) := by
      split_ifs
      · exact clean
      · rw [List.mem_append, not_or]
        exact ⟨by decide, clean⟩
    obtain rfl := Except.ok.inj same
    by_cases trailing : (1 < (if hasPrefix value (str "/") then value else str "/" ++ value).length &&
        hasSuffix (if hasPrefix value (str "/") then value else str "/" ++ value) (str "/")) = true
    · rw [if_pos trailing]
      exact fun member => kept (List.mem_of_mem_dropLast member)
    · rwa [if_neg trailing]

theorem Under.noNul {baseUrl path rel : Str} (under : Under baseUrl path rel)
    (clean : 0 ∉ baseUrl) (cleanRel : 0 ∉ rel) : 0 ∉ path := by
  have cleanMount : 0 ∉ mount baseUrl := by
    unfold mount
    split_ifs
    · simp
    · exact clean
  rcases under with ⟨rfl, -⟩ | rfl
  · exact cleanMount
  · rw [List.mem_append, List.mem_append, not_or, not_or]
    exact ⟨⟨cleanMount, by decide⟩, cleanRel⟩

theorem located_boundary (bare rel : Str) : (located bare rel != bare &&
    !hasPrefix (located bare rel) (bare ++ str "/") &&
      !hasPrefix (located bare rel) (bare ++ str "\\")) = false := by
  unfold located
  split_ifs
  · simp
  · have starts : hasPrefix (bare ++ str "/" ++ rel) (bare ++ str "/") = true :=
      List.isPrefixOf_iff_prefix.mpr (List.prefix_append _ _)
    simp only [starts, Bool.not_true, Bool.and_false, Bool.false_and]

-- The last check of the source never fails.
theorem resolvePath_iff (root baseUrl target path : Str) :
    resolvePath root baseUrl target = .ok path ↔
      WellEscaped target ∧ ∃ text rel, Decodes FaceValue (pathText target) text ∧ 0 ∉ text ∧
        Under baseUrl text rel ∧ Allowed rel ∧ path = located (normRoot root) rel := by
  have relative (rel : Str) : (if validateRelativePath rel = false then
        (throw (.traversalForbidden (str "path traversal detected")) : Except PathError Str)
      else if (located (normRoot root) rel != normRoot root &&
          !hasPrefix (located (normRoot root) rel) (normRoot root ++ str "/") &&
          !hasPrefix (located (normRoot root) rel) (normRoot root ++ str "\\")) = true then
        throw (.traversalForbidden (str "path escapes root boundary"))
      else pure (located (normRoot root) rel)) = .ok path ↔
      Allowed rel ∧ path = located (normRoot root) rel := by
    rw [located_boundary, StateRun.except_ite_ok, StateRun.except_throw_ok, and_false, false_or,
      Bool.not_eq_false, validateRelativePath_iff]
    refine and_congr_right fun _ => ?_
    rw [if_neg (by simp)]
    exact ⟨fun same => (Except.ok.inj same).symm, fun same => by rw [same]; rfl⟩
  simp only [resolvePath, StateRun.except_bind_ok, StateRun.except_ite_ok,
    StateRun.except_throw_ok, false_and, exists_false, and_false, false_or, split_head,
    decodePercent_iff]
  rw [Bool.not_eq_true', Bool.not_eq_false, validateUriEncoding_iff]
  refine and_congr_right fun _ => exists_congr fun text => ?_
  rw [contains_single]
  cases stripped : matchAndStripBaseUrl baseUrl text with
  | none =>
    simp only [StateRun.except_throw_ok, and_false, false_iff, not_exists]
    rintro rel ⟨-, -, under, -⟩
    rw [← matchAndStripBaseUrl_iff, stripped] at under
    cases under
  | some rel =>
    have only (other : Str) : Under baseUrl text other ↔ rel = other := by
      rw [← matchAndStripBaseUrl_iff, stripped, Option.some.injEq]
    simp only [Bool.not_eq_true', only]
    constructor
    · rintro ⟨decodes, clean, resolved⟩
      exact ⟨rel, decodes, clean, rfl, (relative rel).mp resolved⟩
    · rintro ⟨_, decodes, clean, rfl, resolved⟩
      exact ⟨decodes, clean, (relative rel).mpr resolved⟩

/-- Targets resolve exactly where they decode, lie under the mount and name an allowed part, and
never lead out of the root. -/
theorem resolvePath_exact (root baseUrl target : Str) (some : root ≠ [])
    (normal : ∃ value, normalizeBaseUrl value = .ok baseUrl) :
    (Tidy (pathText target) → ∀ path,
      resolvePath root baseUrl target = .ok path ↔ Resolves root baseUrl target path) ∧
    ∀ path, resolvePath root baseUrl target = .ok path → Within root path := by
  refine ⟨fun tidy path => ?_, fun path resolved => ?_⟩
  · rw [resolvePath_iff, Resolves]
    refine and_congr_right fun _ => ⟨?_, ?_⟩
    · rintro ⟨text, rel, decodes, -, under, allowed, same⟩
      exact ⟨text, rel, _, tidy text decodes, under, allowed, (bare_iff some _).mpr rfl, same⟩
    · rintro ⟨text, rel, bare, decodes, under, allowed, bared, same⟩
      obtain ⟨value, checked⟩ := normal
      obtain rfl := (bare_iff some bare).mp bared
      exact ⟨text, rel, decodes.mono faceValue_of_shortest,
        under.noNul (normalizeBaseUrl_noNul checked) allowed.noNul, under, allowed, same⟩
  · obtain ⟨-, text, rel, -, -, -, allowed, rfl⟩ := (resolvePath_iff _ _ _ _).mp resolved
    have inside := inside_of_bare some ((bare_iff some _).mpr rfl) allowed.noBackslash
      allowed.noParent
    unfold located
    split_ifs
    · exact inside.1
    · exact inside.2

theorem resolvePath_exact_mounted :
    resolvePath (str "public/") (str "/app") (str "/app/%62?q") = .ok (str "public/b") ∧
      Resolves (str "public/") (str "/app") (str "/app/%62?q") (str "public/b") ∧
      Within (str "public/") (str "public/b") := by
  have resolved : resolvePath (str "public/") (str "/app") (str "/app/%62?q") =
      .ok (str "public/b") := by decide +kernel
  have path : pathText (str "/app/%62?q") = str "/app/" ++ (str "%62" ++ []) := by decide +kernel
  have high : Numerals.digit? 16 (unit '6') = some 6 := by decide
  have low : Numerals.digit? 16 (unit '2') = some 2 := by decide
  have escapes : Escapes (str "%62") [0x62] := .cons high low .nil
  have decodes : Decodes Shortest (pathText (str "/app/%62?q")) (str "/app/b") := by
    rw [path]
    have last : Decodes Shortest (str "%62" ++ []) (utf16 0x62 ++ []) :=
      .escaped escapes ⟨by decide, by decide⟩ .nil
    exact .plain (by decide) (.plain (by decide) (.plain (by decide) (.plain (by decide)
      (.plain (by decide) last))))
  have tidy : Tidy (pathText (str "/app/%62?q")) := by
    intro text other
    have read := (decodePercent_iff _ _).mpr (decodes.mono faceValue_of_shortest)
    obtain rfl := Except.ok.inj (((decodePercent_iff _ _).mpr other).symm.trans read)
    exact decodes
  have exactly := resolvePath_exact (str "public/") (str "/app") (str "/app/%62?q") (by decide)
    ⟨str "app/", by decide +kernel⟩
  exact ⟨resolved, (exactly.1 tidy _).mp resolved, exactly.2 _ resolved⟩

-- The root of one slash keeps it, and a letter spelled in three bytes passes.
theorem lone_root_and_overlong_letter :
    resolvePath (str "/") (str "/") (str "/") = .ok (str "/") ∧ str "/" ≠ (str "/").dropLast ∧
      resolvePath (str "/") (str "/") (str "/a") = .ok (str "//a") ∧
      str "//a" ≠ (str "/").dropLast ++ str "/" ++ str "a" ∧
      resolvePath (str "public") (str "/") (str "/%E0%81%A1") = .ok (str "public/a") ∧
      ¬∃ text, Decodes Shortest (pathText (str "/%E0%81%A1")) text := by
  refine ⟨by decide +kernel, by decide, by decide +kernel, by decide, by decide +kernel, ?_⟩
  rintro ⟨text, decodes⟩
  have path : pathText (str "/%E0%81%A1") = str "/%E0%81%A1" := by decide +kernel
  have ascii : ((str "/%E0%81%A1").all (·.toNat < 0x80)) = true := by decide +kernel
  rw [path] at decodes
  obtain ⟨bytes, read, strict⟩ := decodePoints_of_decodes
    (fun u member => by simpa using List.all_eq_true.mp ascii u member) decodes
  have known : percentBytes (str "/%E0%81%A1") = some [0x2F, 0xE0, 0x81, 0xA1] := by decide +kernel
  obtain rfl := Option.some.inj (known.symm.trans read)
  revert strict
  decide +kernel

end HttpServer.Core
