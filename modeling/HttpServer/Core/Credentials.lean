import HttpServer.Core.Security
import HttpServer.Library.Base64
import HttpServer.Library.FaceValue
import Mathlib.Data.Nat.Bitwise
import Mathlib.Tactic.IntervalCases

set_option autoImplicit false

namespace HttpServer.Core

open Unicode Text Base64

def alphabet : Str := str "ABCDEFGHIJKLMNOPQRSTUVWXYZabcdefghijklmnopqrstuvwxyz0123456789+/"

def blanks : Str := str "= \r\n\t"

def Base64Text (text : Str) (bytes : List Nat) : Prop :=
  (∀ u ∈ text, u ∈ alphabet ∨ u ∈ blanks) ∧ bytes = octets (text.filterMap (alphabet.idxOf? ·))

-- The scheme in any case, and behind it the text of the credentials.
def BasicBytes (header : Str) (bytes : List Nat) : Prop :=
  ∃ scheme encoded, trim header = scheme ++ encoded ∧ toLower scheme = str "basic " ∧
    Base64Text (trim encoded) bytes

theorem push_low (val : Int32) {d : Nat} (small : d < 64) :
    ((val <<< 6) ||| Int32.ofNat d).toBitVec.toNat % 4096 = val.toBitVec.toNat % 64 * 64 + d := by
  have shifted : (val <<< 6).toBitVec = val.toBitVec <<< 6 := by
    rw [Int32.toBitVec_shiftLeft]
    rfl
  have digit : (Int32.ofNat d).toBitVec.toNat = d := by
    rw [Int32.toBitVec_ofNat', BitVec.toNat_ofNat]
    omega
  have kept : val.toBitVec.toNat <<< 6 % 2 ^ 32 = (val.toBitVec.toNat % 2 ^ 26) <<< 6 := by
    rw [Nat.shiftLeft_eq, Nat.shiftLeft_eq]
    omega
  rw [Int32.toBitVec_or, BitVec.toNat_or, shifted, digit, BitVec.toNat_shiftLeft, kept,
    ← Nat.shiftLeft_add_eq_or_of_lt small, Nat.shiftLeft_eq]
  omega

theorem shift_mask (val : Int32) (s : Nat) (near : s ≤ 4) :
    ((val >>> Int32.ofNat s) &&& 0xFF).toInt.toNat = val.toBitVec.toNat % 4096 / 2 ^ s % 256 := by
  have shifted : (val >>> Int32.ofNat s).toBitVec = val.toBitVec.sshiftRight s := by
    have amount : (Int32.ofNat s).toBitVec.smod 32 = BitVec.ofNat 32 s := by
      interval_cases s <;> decide
    rw [Int32.toBitVec_shiftRight, amount, BitVec.sshiftRight_eq', BitVec.toNat_ofNat,
      Nat.mod_eq_of_lt (by omega)]
  have mask (i : Nat) : (0xFF : Int32).toBitVec.getLsbD i = decide (i < 8) := by
    have ones : (0xFF : Int32).toBitVec = BitVec.ofNat 32 (2 ^ 8 - 1) := rfl
    rw [ones, BitVec.getLsbD_ofNat, Nat.testBit_two_pow_sub_one]
    by_cases low : i < 8 <;> simp [low]
    omega
  have value : ((val >>> Int32.ofNat s) &&& 0xFF).toBitVec.toNat =
      val.toBitVec.toNat % 4096 / 2 ^ s % 256 := by
    apply Nat.eq_of_testBit_eq
    intro i
    change _ = (val.toBitVec.toNat % 2 ^ 12 / 2 ^ s % 2 ^ 8).testBit i
    rw [Int32.toBitVec_and, shifted, BitVec.testBit_toNat, BitVec.getLsbD_and,
      BitVec.getLsbD_sshiftRight, mask, Nat.testBit_mod_two_pow, Nat.testBit_div_two_pow,
      Nat.testBit_mod_two_pow, BitVec.testBit_toNat, Nat.add_comm i s]
    by_cases low : i < 8
    · have inside : s + i < 32 ∧ s + i < 12 ∧ ¬ 32 ≤ i := by omega
      simp [low, inside]
    · simp [low]
  rw [← Int32.toInt_toBitVec, BitVec.toInt_eq_toNat_of_lt (by omega), Int.toNat_natCast, value]

def sextet (c : Nat) : Option Nat := (alphabet.map UInt16.toNat).idxOf? c

theorem sextet_lt {c d : Nat} (found : sextet c = some d) : d < 64 :=
  (List.findIdx?_eq_some_iff_getElem.mp found).1

theorem base64CharValue_eq (c : Nat) :
    base64CharValue c = (sextet c).map Int32.ofNat := by
  by_cases ascii : c < 0x80
  · have table : ∀ c < 0x80, base64CharValue c = (sextet c).map Int32.ofNat := by decide +kernel
    exact table c ascii
  · have outside : c ∉ alphabet.map UInt16.toNat := by
      have low : (alphabet.map UInt16.toNat).all (· < 0x80) = true := by decide +kernel
      exact fun member => ascii (by simpa using List.all_eq_true.mp low c member)
    rw [sextet, List.idxOf?_eq_none_iff.mpr outside, Option.map_none]
    unfold base64CharValue
    repeat rw [if_neg (by omega)]

-- `valb` between two characters, by the sextets read of the group.
def position : Nat → Int32
  | 0 => -8
  | 1 => -2
  | 2 => -4
  | _ => -6

-- Only the last sextet read still matters, whatever else `val` has gathered.
theorem base64Loop_eq (cs : List Nat) (read last : Nat) (val : Int32) (inside : read < 4)
    (kept : read = 0 ∨ val.toBitVec.toNat % 64 = last) :
    base64Loop cs val (position read) =
      if ∀ c ∈ cs, (sextet c).isSome ∨ c ∈ blanks.map UInt16.toNat then
        some (owed read last (cs.filterMap sextet))
      else none := by
  induction cs generalizing read last val with
  | nil => simp [base64Loop, owed_nil]
  | cons c rest ih =>
    have blank : (c = 0x3D ∨ c = 0x20 ∨ c = 0x0D ∨ c = 0x0A ∨ c = 0x09) ↔
        c ∈ blanks.map UInt16.toNat := by
      have points : blanks.map UInt16.toNat = [0x3D, 0x20, 0x0D, 0x0A, 0x09] := by decide
      simp [points]
    rw [base64Loop, base64CharValue_eq]
    cases found : sextet c with
    | none =>
      simp only [Option.map_none, blank, List.filterMap_cons, found, List.mem_cons,
        forall_eq_or_imp, Option.isSome_none, Bool.false_eq_true, false_or]
      by_cases skipped : c ∈ blanks.map UInt16.toNat
      · rw [if_pos skipped, ih read last val inside kept]
        simp only [skipped, true_and]
      · rw [if_neg skipped, if_neg (fun all => skipped all.1)]
    | some d =>
      have small := sextet_lt found
      have low := push_low val small
      have next : ((val <<< 6) ||| Int32.ofNat d).toBitVec.toNat % 64 = d := by omega
      simp only [Option.map_some, List.filterMap_cons, found, List.mem_cons, forall_eq_or_imp,
        Option.isSome_some, true_or, true_and]
      have emitted (s byte after : Nat) (near : s ≤ 4) (due : position read + 6 = Int32.ofNat s)
          (ready : (0 : Int32) ≤ Int32.ofNat s) (left : Int32.ofNat s - 8 = position after)
          (early : after < 4) (value : (last % 64 * 64 + d) / 2 ^ s % 256 = byte)
          (owes : ∀ digits, owed read last (d :: digits) = byte :: owed after d digits)
          (pending : val.toBitVec.toNat % 64 = last) :
          (if (0 : Int32) ≤ position read + 6 then
            (base64Loop rest ((val <<< 6) ||| Int32.ofNat d) (position read + 6 - 8)).map
              (((((val <<< 6) ||| Int32.ofNat d) >>> (position read + 6)) &&& 0xFF).toInt.toNat :: ·)
            else base64Loop rest ((val <<< 6) ||| Int32.ofNat d) (position read + 6)) =
          if ∀ c ∈ rest, (sextet c).isSome ∨ c ∈ blanks.map UInt16.toNat then
            some (owed read last (d :: rest.filterMap sextet))
          else none := by
        rw [due, if_pos ready, left, ih after d _ early (.inr next), shift_mask _ s near, low,
          pending, owes]
        have whole : last % 64 = last := by omega
        rw [whole] at value
        rw [value]
        split_ifs <;> rfl
      interval_cases read
      · have early : ¬ (0 : Int32) ≤ position 0 + 6 := by decide
        rw [if_neg early]
        exact ih 1 d _ (by omega) (.inr next)
      · have pending := kept.resolve_left (by omega)
        exact emitted 4 (last * 4 + d / 16) 2 (by omega) (by decide) (by decide) (by decide)
          (by omega) (by omega) (owed_second last d) pending
      · have pending := kept.resolve_left (by omega)
        exact emitted 2 (last % 16 * 16 + d / 4) 3 (by omega) (by decide) (by decide) (by decide)
          (by omega) (by omega) (owed_third last d) pending
      · have pending := kept.resolve_left (by omega)
        exact emitted 0 (last % 4 * 64 + d) 0 (by omega) (by decide) (by decide) (by decide)
          (by omega) (by omega) (owed_fourth last d) pending

theorem sextet_unit (u : UInt16) : sextet u.toNat = alphabet.idxOf? u := by
  rw [sextet, List.idxOf?, List.findIdx?_map, List.idxOf?]
  congr 1
  funext v
  simp [UInt16.toNat_inj]

theorem sextet_isSome (c : Nat) : (sextet c).isSome ↔ c ∈ alphabet.map UInt16.toNat := by
  rw [← Option.ne_none_iff_isSome, sextet, Ne, List.idxOf?_eq_none_iff, not_not]

theorem readable_ascii {c : Nat}
    (readable : (sextet c).isSome ∨ c ∈ blanks.map UInt16.toNat) : c < 0x80 := by
  have letters : (alphabet.map UInt16.toNat).all (· < 0x80) = true := by decide +kernel
  have spaces : (blanks.map UInt16.toNat).all (· < 0x80) = true := by decide +kernel
  rw [sextet_isSome] at readable
  rcases readable with letter | space
  · simpa using List.all_eq_true.mp letters c letter
  · simpa using List.all_eq_true.mp spaces c space

theorem base64Loop_text (text : Str) (bytes : List Nat) :
    base64Loop (codePoints text) 0 (-8) = some bytes ↔ Base64Text text bytes := by
  have whole := base64Loop_eq (codePoints text) 0 0 0 (by omega) (.inl rfl)
  have chars : (∀ c ∈ codePoints text, (sextet c).isSome ∨ c ∈ blanks.map UInt16.toNat) ↔
      ∀ u ∈ text, (sextet u.toNat).isSome ∨ u.toNat ∈ blanks.map UInt16.toNat := by
    have same := allChars_eq text
      (fun c => decide ((sextet c).isSome ∨ c ∈ blanks.map UInt16.toNat)) false fun n high => by
        refine decide_eq_false fun readable => ?_
        have := readable_ascii readable
        omega
    rw [allChars, Bool.eq_iff_iff] at same
    simpa only [List.all_eq_true, decide_eq_true_eq] using same
  have units : (∀ c ∈ codePoints text, (sextet c).isSome ∨ c ∈ blanks.map UInt16.toNat) ↔
      ∀ u ∈ text, u ∈ alphabet ∨ u ∈ blanks := by
    rw [chars]
    simp only [sextet_isSome, List.mem_map_of_injective fun _ _ => UInt16.toNat_inj.mp]
  change base64Loop (codePoints text) 0 (position 0) = _ ↔ _
  rw [whole, Base64Text, ← units]
  split_ifs with readable
  · have ascii : ∀ u ∈ text, u.toNat < 0x80 := fun u member =>
      readable_ascii (chars.mp readable u member)
    have digits : (codePoints text).filterMap sextet = text.filterMap (alphabet.idxOf? ·) := by
      rw [codePoints_ascii text ascii, List.filterMap_map]
      exact List.filterMap_congr fun u _ => sextet_unit u
    rw [digits, Option.some.injEq, eq_comm, and_iff_right readable]
    rfl
  · simp only [false_iff, not_and]
    exact fun all => absurd all readable

theorem continuation_iff {b : Nat} : continuation b = true ↔ IsTail b := by
  simp [continuation, IsTail]

theorem two_eq {a b : Nat} (lead : 0xC2 ≤ a ∧ a ≤ 0xDF) (second : IsTail b) :
    a % 32 * 64 + b % 64 = two a b := by
  unfold IsTail at second
  unfold two
  omega

theorem three_eq {a b c : Nat} (lead : 0xE0 ≤ a ∧ a ≤ 0xEF) (second : IsTail b)
    (third : IsTail c) : a % 16 * 4096 + b % 64 * 64 + c % 64 = three a b c := by
  unfold IsTail at second third
  unfold three
  omega

theorem four_eq {a b c d : Nat} (lead : 0xF0 ≤ a ∧ a ≤ 0xF4) (second : IsTail b)
    (third : IsTail c) (fourth : IsTail d) :
    a % 8 * 262144 + b % 64 * 4096 + c % 64 * 64 + d % 64 = four a b c d := by
  unfold IsTail at second third fourth
  unfold four
  omega

theorem decodeUtf8Points_iff (bytes points : List Nat) :
    decodeUtf8Points bytes = some points ↔ Spells bytes points := by
  constructor
  · intro decoded
    fun_induction decodeUtf8Points bytes generalizing points with
    | case1 =>
      obtain rfl : [] = points := Option.some.inj decoded
      exact .nil
    | case2 a rest low ih =>
      obtain ⟨tail, read, rfl⟩ := Option.map_eq_some_iff.mp decoded
      exact .one low (ih tail read)
    | case3 a notOne lead b rest follows ih =>
      obtain ⟨tail, read, rfl⟩ := Option.map_eq_some_iff.mp decoded
      have second := continuation_iff.mp follows
      rw [two_eq lead second]
      exact .two ⟨lead.1, lead.2, second⟩ (ih tail read)
    | case6 a notOne notTwo lead b c rest follow ih =>
      obtain ⟨tail, read, rfl⟩ := Option.map_eq_some_iff.mp decoded
      simp only [Bool.and_eq_true, continuation_iff] at follow
      rw [three_eq lead follow.1 follow.2]
      exact .three lead follow.1 follow.2 (ih tail read)
    | case9 a notOne notTwo notThree lead b c d rest follow ih =>
      obtain ⟨tail, read, rfl⟩ := Option.map_eq_some_iff.mp decoded
      simp only [Bool.and_eq_true, continuation_iff] at follow
      rw [four_eq lead follow.1.1 follow.1.2 follow.2]
      exact .four lead follow.1.1 follow.1.2 follow.2 (ih tail read)
    | case4 => simp at decoded
    | case5 => simp at decoded
    | case7 => simp at decoded
    | case8 => simp at decoded
    | case10 => simp at decoded
    | case11 => simp at decoded
    | case12 => simp at decoded
  · intro spelt
    induction spelt with
    | nil => rfl
    | one low rest ih =>
      rw [decodeUtf8Points.eq_def]
      simp [low, ih]
    | @two a b bytes points form rest ih =>
      obtain ⟨low, high, second⟩ := form
      have notOne : ¬ a < 0x80 := by omega
      rw [← two_eq ⟨low, high⟩ second, decodeUtf8Points.eq_def]
      simp [notOne, low, high, continuation_iff, second, ih]
    | @three a b c bytes points lead second third rest ih =>
      have notOne : ¬ a < 0x80 := by omega
      have notTwo : ¬ (0xC2 ≤ a ∧ a ≤ 0xDF) := by omega
      rw [← three_eq lead second third, decodeUtf8Points.eq_def]
      simp only [notOne, notTwo, lead, continuation_iff.mpr second, continuation_iff.mpr third, ih,
        Bool.and_self, and_self, if_true, if_false, Option.map_some]
    | @four a b c d bytes points lead second third fourth rest ih =>
      have notOne : ¬ a < 0x80 := by omega
      have notTwo : ¬ (0xC2 ≤ a ∧ a ≤ 0xDF) := by omega
      have notThree : ¬ (0xE0 ≤ a ∧ a ≤ 0xEF) := by omega
      rw [← four_eq lead second third fourth, decodeUtf8Points.eq_def]
      simp only [notOne, notTwo, notThree, lead, continuation_iff.mpr second,
        continuation_iff.mpr third, continuation_iff.mpr fourth, ih, Bool.and_self, and_self,
        if_true, if_false, Option.map_some]

-- The text that bytes spell, each group at its face value.
def Reads (bytes : List Nat) (text : Str) : Prop :=
  ∃ points, Spells bytes points ∧ text = points.flatMap utf16

theorem decodeUtf8Bytes_iff (bytes : List Nat) (text : Str) :
    decodeUtf8Bytes bytes = some text ↔ Reads bytes text := by
  rw [decodeUtf8Bytes, Option.map_eq_some_iff]
  simp only [decodeUtf8Points_iff, Reads, eq_comm (b := text)]

theorem Reads.unique {bytes : List Nat} {s t : Str} (left : Reads bytes s)
    (right : Reads bytes t) : s = t := by
  rw [← decodeUtf8Bytes_iff] at left right
  exact Option.some.inj (left.symm.trans right)

def Credentials (bytes : List Nat) (user password : Str) : Prop :=
  Reads bytes (user ++ unit ':' :: password) ∧ unit ':' ∉ user

theorem basicScheme_iff (trimmed : Str) :
    hasPrefix (toLower trimmed) (str "basic ") = true ↔ toLower (trimmed.take 6) = str "basic " := by
  rw [hasPrefix, List.isPrefixOf_iff_prefix, List.prefix_iff_eq_take, toLower, toLower,
    List.map_take, eq_comm]
  rfl

theorem parseBasicAuthHeader_iff (header user password : Str) :
    parseBasicAuthHeader header = some (user, password) ↔
      ∃ bytes, BasicBytes header bytes ∧ Credentials bytes user password := by
  constructor
  · intro parsed
    simp only [parseBasicAuthHeader, Bool.not_eq_true'] at parsed
    split_ifs at parsed with scheme
    rw [Bool.not_eq_false, basicScheme_iff] at scheme
    simp only [Option.bind_eq_bind, Option.bind_eq_some_iff, base64DecodeString, base64Loop_text,
      decodeUtf8Bytes_iff, Option.some.injEq, Prod.mk.injEq] at parsed
    obtain ⟨decoded, ⟨bytes, text, reads⟩, colon, found, rfl, rfl⟩ := parsed
    obtain ⟨cut, first⟩ := find_eq_some found
    refine ⟨bytes, ⟨_, _, (List.take_append_drop 6 _).symm, scheme, text⟩, ?_, first⟩
    rwa [← cut]
  · rintro ⟨bytes, ⟨scheme, encoded, whole, lower, text⟩, reads, first⟩
    have six : scheme.length = 6 := by
      have same := congrArg List.length lower
      rwa [toLower, List.length_map] at same
    have front : (trim header).take 6 = scheme := by rw [whole, ← six, List.take_left]
    have back : (trim header).drop 6 = encoded := by rw [whole, ← six, List.drop_left]
    have cut := find_append (t := password) first
    simp only [parseBasicAuthHeader, (basicScheme_iff _).mpr (front ▸ lower), back,
      base64DecodeString, (base64Loop_text _ _).mpr text, (decodeUtf8Bytes_iff _ _).mpr reads, cut,
      Bool.not_true, Bool.false_eq_true, if_false, Option.bind_eq_bind, Option.bind_some,
      Option.some.injEq, Prod.mk.injEq]
    simp

theorem cryptoLoop_isSome (expChars actChars : List Nat) (actLen left i diff : Nat) :
    (cryptoLoop expChars actChars actLen left i diff).isSome ↔
      ∀ j, i ≤ j → j < i + left → j < expChars.length ∧ (j < actLen → j < actChars.length) := by
  induction left generalizing i diff with
  | zero => simp [cryptoLoop]; omega
  | succ left ih =>
    have split : (∀ j, i ≤ j → j < i + (left + 1) →
          j < expChars.length ∧ (j < actLen → j < actChars.length)) ↔
        (i < expChars.length ∧ (i < actLen → i < actChars.length)) ∧
          ∀ j, i + 1 ≤ j → j < i + 1 + left →
            j < expChars.length ∧ (j < actLen → j < actChars.length) := by
      constructor
      · exact fun all => ⟨all i (by omega) (by omega), fun j low high => all j (by omega) (by omega)⟩
      · rintro ⟨here, later⟩ j low high
        rcases Nat.eq_or_lt_of_le low with rfl | above
        · exact here
        · exact later j above (by omega)
    rw [split, cryptoLoop]
    by_cases inside : i < expChars.length
    · by_cases read : i < actLen
      · by_cases given : i < actChars.length
        · simp [inside, read, given, ih]
        · simp [inside, read, given]
      · simp [inside, read, ih]
    · cases given : (if i < actLen then actChars[i]? else some 0) <;> simp [inside]

-- Differences gather and never cancel.
theorem cryptoLoop_zero {expChars actChars : List Nat} {actLen left i diff result : Nat}
    (loop : cryptoLoop expChars actChars actLen left i diff = some result) :
    result = 0 ↔ diff = 0 ∧ ∀ j, i ≤ j → j < i + left →
      expChars[j]? = if j < actLen then actChars[j]? else some 0 := by
  induction left generalizing i diff with
  | zero =>
    obtain rfl : diff = result := Option.some.inj loop
    simp only [iff_self_and]
    omega
  | succ left ih =>
    obtain ⟨actChar, act, expChar, exp, rest⟩ : ∃ actChar,
        (if i < actLen then actChars[i]? else some 0) = some actChar ∧
        ∃ expChar, expChars[i]? = some expChar ∧ cryptoLoop expChars actChars actLen left (i + 1)
          (diff ||| expChar ^^^ actChar) = some result := by
      rw [cryptoLoop] at loop
      by_cases read : i < actLen
      · simpa only [read, if_true, Option.bind_eq_bind, Option.bind_eq_some_iff] using loop
      · simpa only [read, if_false, Option.bind_eq_bind, Option.bind_eq_some_iff] using loop
    rw [ih rest, Nat.or_eq_zero_iff, Nat.xor_eq_zero_iff, and_assoc]
    refine and_congr_right fun _ => ?_
    constructor
    · rintro ⟨rfl, later⟩ j low high
      rcases Nat.eq_or_lt_of_le low with rfl | above
      · rw [exp, act]
      · exact later j above (by omega)
    · intro all
      have here := all i (by omega) (by omega)
      rw [exp, act] at here
      exact ⟨Option.some.inj here, fun j low high => all j (by omega) (by omega)⟩

-- What `crypto_equals` needs of its arguments to stay inside its arrays.
def Comparable (expected actual : Str) : Prop :=
  BasicPlane expected ∧ (BasicPlane actual ∨ expected.length ≤ (codePoints actual).length)

theorem cryptoEquals_isSome (expected actual : Str) :
    (cryptoEquals expected actual).isSome ↔ Comparable expected actual := by
  rw [cryptoEquals, Option.isSome_map, cryptoLoop_isSome, Comparable, basicPlane_iff,
    basicPlane_iff]
  have shortExpected := length_codePoints_le expected
  have shortActual := length_codePoints_le actual
  constructor
  · intro all
    refine ⟨?_, ?_⟩
    · by_contra uneven
      have := (all (codePoints expected).length (by omega) (by omega)).1
      omega
    · by_contra beyond
      have := (all (codePoints actual).length (by omega) (by omega)).2 (by omega)
      omega
  · rintro ⟨same, covered⟩ j low high
    omega

theorem cryptoEquals_sound {expected actual : Str} {equal : Bool}
    (compared : cryptoEquals expected actual = some equal) :
    equal = true ↔ expected = actual := by
  have inside := (cryptoEquals_isSome expected actual).mp (by simp [compared])
  obtain ⟨plain, covered⟩ := inside
  rw [basicPlane_iff] at plain covered
  rw [cryptoEquals, Option.map_eq_some_iff] at compared
  obtain ⟨diff, loop, rfl⟩ := compared
  have shortActual := length_codePoints_le actual
  rw [beq_iff_eq, cryptoLoop_zero loop, Nat.xor_eq_zero_iff]
  constructor
  · rintro ⟨even, points⟩
    apply codePoints_inj
    apply List.ext_getElem? 
    intro j
    by_cases inside : j < expected.length
    · rw [points j (by omega) (by omega), if_pos (by omega)]
    · rw [List.getElem?_eq_none (by omega), List.getElem?_eq_none (by omega)]
  · rintro rfl
    refine ⟨rfl, fun j low high => ?_⟩
    rw [if_pos (by omega)]

-- The comparison is defined and right exactly on comparable strings.
theorem cryptoEquals_exact (expected actual : Str) :
    cryptoEquals expected actual = some (decide (expected = actual)) ↔
      Comparable expected actual := by
  rw [← cryptoEquals_isSome]
  constructor
  · intro compared
    simp [compared]
  · intro inside
    obtain ⟨equal, compared⟩ := Option.isSome_iff_exists.mp inside
    rw [compared, Option.some.injEq, Bool.eq_iff_iff, cryptoEquals_sound compared,
      decide_eq_true_eq]

theorem BasicBytes.bound {header : Str} {bytes : List Nat} (basic : BasicBytes header bytes) :
    ∀ b ∈ bytes, b < 256 := by
  obtain ⟨scheme, encoded, -, -, -, rfl⟩ := basic
  apply octets_lt
  intro d member
  obtain ⟨u, -, found⟩ := List.mem_filterMap.mp member
  exact sextet_lt ((sextet_unit u).trans found)

theorem BasicBytes.unique {header : Str} {bytes others : List Nat}
    (left : BasicBytes header bytes) (right : BasicBytes header others) : bytes = others := by
  obtain ⟨scheme, encoded, whole, lower, -, rfl⟩ := left
  obtain ⟨scheme', encoded', whole', lower', -, rfl⟩ := right
  have even := congrArg List.length (lower.trans lower'.symm)
  rw [toLower, toLower, List.length_map, List.length_map] at even
  obtain ⟨-, rfl⟩ := List.append_inj (whole.symm.trans whole') even
  rfl

-- Strictly decoded bytes read as the same text.
theorem reads_of_decode {bytes : List Nat} {text : Str} (bound : ∀ b ∈ bytes, b < 256)
    (decoded : decode (bytes.map UInt8.ofNat) = some text) : Reads bytes text := by
  obtain ⟨points, strict, rfl⟩ := Option.map_eq_some_iff.mp decoded
  have spelt := spells_of_decodePoints _ _ strict
  have same : (bytes.map UInt8.ofNat).map UInt8.toNat = bytes := by
    conv_rhs => rw [← List.map_id bytes]
    rw [List.map_map]
    exact List.map_congr_left fun b member => toNat_ofNat (bound b member)
  rw [same] at spelt
  exact ⟨points, spelt, rfl⟩

/-- The header carries the expected credentials, as strictly decoded text. -/
def Authorizes (header : Option Str) (expected : Str × Str) : Prop :=
  ∃ value bytes, header = some value ∧ BasicBytes value bytes ∧
    decode (bytes.map UInt8.ofNat) = some (expected.1 ++ unit ':' :: expected.2) ∧
    unit ':' ∉ expected.1

def VerifiesRight (header : Option Str) (expected : Str × Str) : Prop :=
  ∃ answer, verifyBasicAuth header expected = some answer ∧
    (answer = true ↔ Authorizes header expected)

/-- What the expected strings need alone, and what they need beside the strings sent. -/
structure Verifiable (header : Option Str) (expected : Str × Str) : Prop where
  user : BasicPlane expected.1
  password : BasicPlane expected.2
  sent : ∀ value bytes user password, header = some value → BasicBytes value bytes →
    Credentials bytes user password →
      Comparable expected.1 user ∧ Comparable expected.2 password ∧
        ((user, password) = expected → (decode (bytes.map UInt8.ofNat)).isSome)

theorem comparable_nil (expected : Str) : Comparable expected [] ↔ BasicPlane expected := by
  have empty : BasicPlane [] := by decide
  simp [Comparable, empty]

theorem parsed_iff (header : Option Str) (user password : Str) :
    header.bind parseBasicAuthHeader = some (user, password) ↔
      ∃ value bytes, header = some value ∧ BasicBytes value bytes ∧
        Credentials bytes user password := by
  simp only [Option.bind_eq_some_iff, parseBasicAuthHeader_iff]
  grind

-- Expected credentials that arrive are the ones parsed.
theorem Authorizes.parsed {header : Option Str} {expected : Str × Str}
    (authorizes : Authorizes header expected) :
    header.bind parseBasicAuthHeader = some expected := by
  obtain ⟨value, bytes, given, basic, decoded, first⟩ := authorizes
  exact (parsed_iff _ _ _).mpr ⟨value, bytes, given, basic, reads_of_decode basic.bound decoded, first⟩

theorem verifiesRight_unparsed {header : Option Str} {expected : Str × Str}
    (unparsed : header.bind parseBasicAuthHeader = none) :
    VerifiesRight header expected ↔ Verifiable header expected := by
  have refused : ¬Authorizes header expected := fun authorizes => by
    simp [authorizes.parsed] at unparsed
  have user := cryptoEquals_isSome expected.1 []
  have password := cryptoEquals_isSome expected.2 []
  rw [comparable_nil] at user password
  constructor
  · rintro ⟨answer, verified, -⟩
    simp only [verifyBasicAuth, unparsed, Option.bind_eq_bind, Option.bind_eq_some_iff] at verified
    obtain ⟨_, first, _, second, -⟩ := verified
    refine ⟨user.mp (by simp [first]), password.mp (by simp [second]), ?_⟩
    intro value bytes u p given basic credentials
    have parsed := (parsed_iff header u p).mpr ⟨value, bytes, given, basic, credentials⟩
    simp [unparsed] at parsed
  · intro verifiable
    obtain ⟨_, first⟩ := Option.isSome_iff_exists.mp (user.mpr verifiable.user)
    obtain ⟨_, second⟩ := Option.isSome_iff_exists.mp (password.mpr verifiable.password)
    exact ⟨false, by simp [verifyBasicAuth, unparsed, first, second], by simp [refused]⟩

theorem verifiesRight_parsed {header : Option Str} {expected : Str × Str} {user password : Str}
    (parsed : header.bind parseBasicAuthHeader = some (user, password)) :
    VerifiesRight header expected ↔ Verifiable header expected := by
  obtain ⟨value, bytes, given, basic, credentials⟩ := (parsed_iff _ _ _).mp parsed
  -- The bytes, and with them the strings sent, are determined by the header.
  have only (value' : Str) (bytes' : List Nat) (given' : header = some value')
      (basic' : BasicBytes value' bytes') : bytes' = bytes := by
    obtain rfl := Option.some.inj (given'.symm.trans given)
    exact basic'.unique basic
  have authorizes : Authorizes header expected ↔
      (user, password) = expected ∧ (decode (bytes.map UInt8.ofNat)).isSome := by
    constructor
    · intro authorizes
      have same := Option.some.inj (parsed.symm.trans authorizes.parsed)
      obtain ⟨value', bytes', given', basic', decoded, -⟩ := authorizes
      rw [only value' bytes' given' basic'] at decoded
      exact ⟨same, by simp [decoded]⟩
    · rintro ⟨rfl, strict⟩
      obtain ⟨text, decoded⟩ := Option.isSome_iff_exists.mp strict
      obtain rfl := (reads_of_decode basic.bound decoded).unique credentials.1
      exact ⟨value, bytes, given, basic, decoded, credentials.2⟩
  constructor
  · rintro ⟨answer, verified, right⟩
    simp only [verifyBasicAuth, parsed, Option.bind_eq_bind, Option.bind_eq_some_iff,
      Option.pure_def, Option.some.injEq] at verified
    obtain ⟨userOk, first, passwordOk, second, rfl⟩ := verified
    have comparable := (cryptoEquals_isSome _ _).mp (Option.isSome_iff_exists.mpr ⟨_, first⟩)
    have comparable' := (cryptoEquals_isSome _ _).mp (Option.isSome_iff_exists.mpr ⟨_, second⟩)
    refine ⟨comparable.1, comparable'.1, ?_⟩
    intro value' bytes' user' password' given' basic' credentials'
    have again := (parsed_iff _ _ _).mpr ⟨value', bytes', given', basic', credentials'⟩
    obtain ⟨rfl, rfl⟩ := Prod.mk.inj (Option.some.inj (again.symm.trans parsed))
    refine ⟨comparable, comparable', ?_⟩
    rintro rfl
    rw [only value' bytes' given' basic']
    exact (authorizes.mp (right.mp (by
      simp [(cryptoEquals_sound first).mpr rfl, (cryptoEquals_sound second).mpr rfl]))).2
  · intro verifiable
    obtain ⟨comparable, comparable', strict⟩ :=
      verifiable.sent value bytes user password given basic credentials
    obtain ⟨userOk, first⟩ := Option.isSome_iff_exists.mp ((cryptoEquals_isSome _ _).mpr comparable)
    obtain ⟨passwordOk, second⟩ :=
      Option.isSome_iff_exists.mp ((cryptoEquals_isSome _ _).mpr comparable')
    refine ⟨userOk && passwordOk, by simp [verifyBasicAuth, parsed, first, second], ?_⟩
    rw [Bool.and_eq_true, cryptoEquals_sound first, cryptoEquals_sound second, authorizes]
    constructor
    · rintro ⟨same, same'⟩
      have whole : (user, password) = expected := Prod.ext same.symm same'.symm
      exact ⟨whole, strict whole⟩
    · rintro ⟨rfl, -⟩
      exact ⟨rfl, rfl⟩

/-- Which headers and expected credentials are verified as they should be, and which strings are
compared as they should be. -/
theorem verifyBasicAuth_exact (header : Option Str) (expected : Str × Str) (s t : Str) :
    (VerifiesRight header expected ↔ Verifiable header expected) ∧
      (cryptoEquals s t = some (decide (s = t)) ↔ Comparable s t) := by
  refine ⟨?_, cryptoEquals_exact s t⟩
  cases parsed : header.bind parseBasicAuthHeader with
  | none => exact verifiesRight_unparsed parsed
  | some credentials => exact verifiesRight_parsed parsed

/-- A user sent in three pairs of surrogates runs past the array of its three characters, and a
letter spelled in three bytes passes for the letter. -/
theorem pairs_trap_and_overlong_passes :
    verifyBasicAuth (some (str "Basic 8J+YgPCfmIDwn5iAOng=")) (str "admin", str "x") = none ∧
      ¬VerifiesRight (some (str "Basic 8J+YgPCfmIDwn5iAOng=")) (str "admin", str "x") ∧
      verifyBasicAuth (some (str "Basic 4IGhOng=")) (str "a", str "x") = some true ∧
      ¬VerifiesRight (some (str "Basic 4IGhOng=")) (str "a", str "x") ∧
      cryptoEquals [0xD83D, 0xDE00] [0xD83D, 0xDE00] = none := by
  have trapped : verifyBasicAuth (some (str "Basic 8J+YgPCfmIDwn5iAOng=")) (str "admin", str "x") =
      none := by decide +kernel
  have passed : verifyBasicAuth (some (str "Basic 4IGhOng=")) (str "a", str "x") = some true := by
    decide +kernel
  refine ⟨trapped, ?_, passed, ?_, by decide +kernel⟩
  · rintro ⟨answer, verified, -⟩
    cases trapped.symm.trans verified
  · rintro ⟨answer, verified, right⟩
    obtain rfl := Option.some.inj (passed.symm.trans verified)
    obtain ⟨value, bytes, given, basic, decoded, -⟩ := right.mp rfl
    obtain rfl := Option.some.inj given
    have spelt : BasicBytes (str "Basic 4IGhOng=") [0xE0, 0x81, 0xA1, 0x3A, 0x78] :=
      ⟨str "Basic ", str "4IGhOng=", by decide +kernel, by decide +kernel,
        (base64Loop_text _ _).mp (by decide +kernel)⟩
    obtain rfl := basic.unique spelt
    have invalid : decode ([0xE0, 0x81, 0xA1, 0x3A, 0x78].map UInt8.ofNat) = none := by
      decide +kernel
    cases invalid.symm.trans decoded

end HttpServer.Core
