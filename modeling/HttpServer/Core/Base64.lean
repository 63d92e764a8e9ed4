import HttpServer.Core.Credentials

set_option autoImplicit false

namespace HttpServer.Core

open Unicode Text Base64

def padding (count : Nat) : Str := List.replicate ((3 - count % 3) % 3) (unit '=')

def base64Digits (bytes : List Nat) : Str := (sextets bytes).map (alphabet.getD · 0)

def octetsOf (s : Str) : List Nat := (encode s).map UInt8.toNat

/-- The Base64 of the text's bytes, with its padding or without, and blanks anywhere. -/
def Standard (s text : Str) : Prop :=
  text.filter (!isSpace ·) = base64Digits (octetsOf s) ++ padding (octetsOf s).length ∨
    text.filter (!isSpace ·) = base64Digits (octetsOf s)

-- The loop of `base64_decode_string` with an accumulator that loses no bit.
def wideLoop : List Nat → Nat → Int → Option (List Nat)
  | [], _, _ => some []
  | c :: rest, val, valb =>
      match sextet c with
      | none =>
          if c = 0x3D ∨ c = 0x20 ∨ c = 0x0D ∨ c = 0x0A ∨ c = 0x09 then wideLoop rest val valb
          else none
      | some d =>
          let val := val * 64 + d
          let valb := valb + 6
          if 0 ≤ valb then (wideLoop rest val (valb - 8)).map (val / 2 ^ valb.toNat % 256 :: ·)
          else wideLoop rest val valb

def Positioned (valb : Int32) : Prop := valb = -8 ∨ valb = -6 ∨ valb = -4 ∨ valb = -2

-- The six low bits are all that the next byte takes of the accumulator.
theorem base64Loop_wide (cs : List Nat) (val valb : Int32) (wide : Nat)
    (positioned : Positioned valb) (low : val.toBitVec.toNat % 64 = wide % 64) :
    base64Loop cs val valb = wideLoop cs wide valb.toInt := by
  induction cs generalizing val valb wide with
  | nil => rfl
  | cons c rest ih =>
    rw [base64Loop, wideLoop, base64CharValue_eq]
    cases found : sextet c with
    | none =>
      simp only [Option.map_none, ih val valb wide positioned low]
    | some d =>
      have pushed := push_low val (sextet_lt found)
      have next : ((val <<< 6) ||| Int32.ofNat d).toBitVec.toNat % 64 = (wide * 64 + d) % 64 := by
        omega
      have twelve : ((val <<< 6) ||| Int32.ofNat d).toBitVec.toNat % 4096 =
          (wide * 64 + d) % 4096 := by
        omega
      have emitted (s : Nat) (near : s ≤ 4) (due : valb + 6 = Int32.ofNat s)
          (due' : valb.toInt + 6 = s) (ready : (0 : Int32) ≤ Int32.ofNat s)
          (after : Positioned (Int32.ofNat s - 8)) (after' : (Int32.ofNat s - 8).toInt = s - 8)
          (byte : (wide * 64 + d) % 4096 / 2 ^ s % 256 = (wide * 64 + d) / 2 ^ s % 256) :
          (if (0 : Int32) ≤ valb + 6 then
            (base64Loop rest ((val <<< 6) ||| Int32.ofNat d) (valb + 6 - 8)).map
              (((((val <<< 6) ||| Int32.ofNat d) >>> (valb + 6)) &&& 0xFF).toInt.toNat :: ·)
            else base64Loop rest ((val <<< 6) ||| Int32.ofNat d) (valb + 6)) =
          if 0 ≤ valb.toInt + 6 then
            (wideLoop rest (wide * 64 + d) (valb.toInt + 6 - 8)).map
              ((wide * 64 + d) / 2 ^ (valb.toInt + 6).toNat % 256 :: ·)
          else wideLoop rest (wide * 64 + d) (valb.toInt + 6) := by
        have nonneg : (0 : Int) ≤ s := by omega
        rw [due, due', if_pos ready, if_pos nonneg, ih _ _ _ after next, after', Int.toNat_natCast,
          shift_mask _ s near, twelve, byte]
      simp only [Option.map_some]
      rcases positioned with rfl | rfl | rfl | rfl
      · have early : ¬ (0 : Int32) ≤ -8 + 6 := by decide
        have early' : ¬ (0 : Int) ≤ (-8 : Int32).toInt + 6 := by decide
        have moved : ((-8 : Int32) + 6).toInt = (-8 : Int32).toInt + 6 := by decide
        have after : Positioned (-8 + 6) := .inr (.inr (.inr rfl))
        rw [if_neg early, if_neg early', ih _ _ _ after next, moved]
      · exact emitted 0 (by omega) (by decide) (by decide) (by decide) (.inl rfl)
          (by decide) (by omega)
      · exact emitted 2 (by omega) (by decide) (by decide) (by decide) (.inr (.inl rfl))
          (by decide) (by omega)
      · exact emitted 4 (by omega) (by decide) (by decide) (by decide) (.inr (.inr (.inl rfl)))
          (by decide) (by omega)

theorem digits_readBack (digits : List Nat) (bound : ∀ d ∈ digits, d < 64) :
    (digits.map (alphabet.getD · 0)).filterMap (alphabet.idxOf? ·) = digits := by
  have table : ∀ d < 64, alphabet.idxOf? (alphabet.getD d 0) = some d := by decide +kernel
  rw [List.filterMap_map]
  have each : digits.filterMap ((alphabet.idxOf? ·) ∘ (alphabet.getD · 0)) =
      digits.filterMap some :=
    List.filterMap_congr fun d member => table d (bound d member)
  rw [each, List.filterMap_some]

theorem base64Digits_mem (bytes : List Nat) (bound : ∀ b ∈ bytes, b < 256) :
    ∀ u ∈ base64Digits bytes, u ∈ alphabet := by
  intro u member
  obtain ⟨d, digit, rfl⟩ := List.mem_map.mp member
  have inside : d < alphabet.length := sextets_lt bytes bound d digit
  rw [List.getD_eq_getElem _ _ inside]
  exact List.getElem_mem inside

theorem padding_blank (count : Nat) : ∀ u ∈ padding count, u = unit '=' :=
  fun _ member => List.eq_of_mem_replicate member

-- Blanks and padding hold no digit.
theorem base64Text_of_filter {text digits pad : Str}
    (kept : text.filter (!isSpace ·) = digits ++ pad) (letters : ∀ u ∈ digits, u ∈ alphabet)
    (filled : ∀ u ∈ pad, u = unit '=') :
    Base64Text text (octets (digits.filterMap (alphabet.idxOf? ·))) := by
  have space (u : UInt16) (blank : isSpace u = true) : u ∈ blanks ∧ alphabet.idxOf? u = none := by
    simp only [isSpace, Bool.or_eq_true, beq_iff_eq] at blank
    rcases blank with ((rfl | rfl) | rfl) | rfl <;> decide
  have equals : unit '=' ∈ blanks ∧ alphabet.idxOf? (unit '=') = none := by decide
  have silent : (pad.filterMap (alphabet.idxOf? ·)) = [] := by
    rw [List.filterMap_eq_nil_iff]
    intro u member
    rw [filled u member, equals.2]
  constructor
  · intro u member
    by_cases blank : isSpace u = true
    · exact .inr (space u blank).1
    · have left : u ∈ digits ++ pad := kept ▸ List.mem_filter.mpr ⟨member, by simp [blank]⟩
      rcases List.mem_append.mp left with digit | pad
      · exact .inl (letters u digit)
      · exact .inr (filled u pad ▸ equals.1)
  · have same : text.filterMap (alphabet.idxOf? ·) =
        (text.filter (!isSpace ·)).filterMap (alphabet.idxOf? ·) := by
      rw [List.filterMap_filter]
      refine List.filterMap_congr fun u _ => ?_
      by_cases blank : isSpace u = true
      · simp [blank, (space u blank).2]
      · simp [blank]
    rw [same, kept, List.filterMap_append, silent, List.append_nil]

theorem octetsOf_lt (s : Str) : ∀ b ∈ octetsOf s, b < 256 := by
  intro b member
  obtain ⟨byte, -, rfl⟩ := List.mem_map.mp member
  exact byte.toNat_lt

theorem decodeUtf8Bytes_octetsOf (s : Str) (wellFormed : WellFormed s) :
    decodeUtf8Bytes (octetsOf s) = some s := by
  rw [decodeUtf8Bytes_iff]
  refine ⟨codePoints s, spells_of_decodePoints _ _ ?_, (utf16_codePoints s).symm⟩
  exact decodePoints_encode (codePoints s) wellFormed

/-- Standard Base64 of well formed text is read back, and no byte depends on the bits that the
accumulator has lost. -/
theorem base64DecodeString_standard (s text : Str) (chars : List Nat) (wellFormed : WellFormed s)
    (standard : Standard s text) :
    base64DecodeString text = some s ∧ base64Loop chars 0 (-8) = wideLoop chars 0 (-8) := by
  have bound := octetsOf_lt s
  have letters := base64Digits_mem (octetsOf s) bound
  have back : octets ((base64Digits (octetsOf s)).filterMap (alphabet.idxOf? ·)) = octetsOf s := by
    rw [base64Digits, digits_readBack _ (sextets_lt _ bound), octets_sextets _ bound]
  have read : Base64Text text (octetsOf s) := by
    rw [← back]
    rcases standard with padded | bare
    · exact base64Text_of_filter padded letters (padding_blank _)
    · exact base64Text_of_filter (bare.trans (List.append_nil _).symm) letters (by simp)
  constructor
  · rw [base64DecodeString, (base64Loop_text _ _).mpr read, Option.bind_some,
      decodeUtf8Bytes_octetsOf s wellFormed]
  · exact base64Loop_wide chars 0 (-8) 0 (.inl rfl) rfl

theorem base64DecodeString_smile :
    base64DecodeString (str "8J+Y\r\n gA==") = some [0xD83D, 0xDE00] ∧
      base64Loop [0x38] 0 (-8) = wideLoop [0x38] 0 (-8) :=
  base64DecodeString_standard [0xD83D, 0xDE00] (str "8J+Y\r\n gA==") [0x38]
    (by unfold WellFormed IsScalar; decide) (by unfold Standard; decide +kernel)

end HttpServer.Core
