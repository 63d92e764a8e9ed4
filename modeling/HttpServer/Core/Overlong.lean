import HttpServer.Core.Credentials
import HttpServer.Core.Resolution
import HttpServer.Library.Groups

set_option autoImplicit false

namespace HttpServer.Core

open Unicode Text

/-- The bytes fall into groups that each are the shortest for their code point, and these code
points are the characters of the text: none but a single byte makes an ASCII character. -/
def OneEncoding (bytes : List Nat) (text : Str) : Prop :=
  ∃ groups, Groups bytes groups ∧ text = (groups.map Prod.snd).flatMap utf16 ∧
    ∀ g ∈ groups, Minimal g.1 g.2 ∧ (g.2 < 0x80 → g.1.length = 1)

theorem oneEncoding_iff {bytes : List Nat} {text : Str} (reads : Reads bytes text) :
    OneEncoding bytes text ↔ bytes.IsChain Fits := by
  constructor
  · rintro ⟨groups, cut, -, minimal⟩
    exact cut.minimal_iff.mp fun g member => (minimal g member).1
  · intro fits
    obtain ⟨points, spells, rfl⟩ := reads
    obtain ⟨groups, cut, rfl⟩ := spells_iff_groups.mp spells
    have minimal := cut.minimal_iff.mpr fits
    exact ⟨groups, cut, rfl, fun g member => ⟨minimal g member, (minimal g member).ascii⟩⟩

theorem decodePercent_bytes {raw text : Str} (decoded : decodePercent raw = .ok text) :
    ∃ bytes, percentBytes raw = some bytes ∧ decodeUtf8Bytes bytes = some text := by
  unfold decodePercent at decoded
  cases collected : percentBytes raw with
  | none => simp [collected] at decoded
  | some bytes =>
    cases read : decodeUtf8Bytes bytes with
    | none => simp [collected, read] at decoded
    | some s =>
      simp only [collected, read] at decoded
      cases decoded
      exact ⟨bytes, rfl, read⟩

/-- Accepted bytes are in shortest form when no `E0` stands before a byte under `A0`, no `F0` before
one under `90` and no `F4` before one from `90` on. -/
theorem decodeUtf8Bytes_shortest (bytes : List Nat) (raw text : Str) :
    (decodeUtf8Bytes bytes = some text → (OneEncoding bytes text ↔ bytes.IsChain Fits)) ∧
      (decodePercent raw = .ok text → ∃ bytes, percentBytes raw = some bytes ∧
        (OneEncoding bytes text ↔ bytes.IsChain Fits)) := by
  have each (bytes : List Nat) (text : Str) (decoded : decodeUtf8Bytes bytes = some text) :
      OneEncoding bytes text ↔ bytes.IsChain Fits :=
    oneEncoding_iff ((decodeUtf8Bytes_iff bytes text).mp decoded)
  refine ⟨each bytes text, fun decoded => ?_⟩
  obtain ⟨bytes, collected, read⟩ := decodePercent_bytes decoded
  exact ⟨bytes, collected, each bytes text read⟩

theorem decodeUtf8Bytes_shortest_euro : OneEncoding [0xE2, 0x82, 0xAC] [0x20AC] ∧
    OneEncoding [0x61, 0xE2, 0x82, 0xAC] [0x61, 0x20AC] := by
  have direct := (decodeUtf8Bytes_shortest [0xE2, 0x82, 0xAC] [] [0x20AC]).1 (by decide +kernel)
  obtain ⟨bytes, collected, escaped⟩ :=
    (decodeUtf8Bytes_shortest [] (str "a%E2%82%AC") [0x61, 0x20AC]).2 (by decide +kernel)
  have here : percentBytes (str "a%E2%82%AC") = some [0x61, 0xE2, 0x82, 0xAC] := by decide +kernel
  rw [here] at collected
  cases collected
  exact ⟨direct.mpr (by decide), escaped.mpr (by decide)⟩

-- Three bytes spell a slash.
theorem long_slash : ¬∀ bytes text, decodeUtf8Bytes bytes = some text → OneEncoding bytes text := by
  intro always
  have accepted : decodeUtf8Bytes [0xE0, 0x80, 0xAF] = some (str "/") := by decide +kernel
  have fits := (oneEncoding_iff ((decodeUtf8Bytes_iff _ _).mp accepted)).mp (always _ _ accepted)
  exact absurd fits (by decide)

end HttpServer.Core
