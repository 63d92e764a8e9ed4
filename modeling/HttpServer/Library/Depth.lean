import HttpServer.Library.Dialogue

set_option autoImplicit false

namespace Dialogue

variable {Q : Type} {A : Q → Type} {R : Type}

def AtMost : Nat → Dialogue Q A R → Prop
  | _, .done _ => True
  | 0, .ask _ _ => False
  | limit + 1, .ask _ next => ∀ answer, AtMost limit (next answer)

theorem atMost_done (limit : Nat) (result : R) : AtMost limit (.done result : Dialogue Q A R) := by
  cases limit <;> trivial

theorem AtMost.mono {limit more : Nat} {d : Dialogue Q A R} (few : AtMost limit d)
    (le : limit ≤ more) : AtMost more d := by
  induction d generalizing limit more with
  | done result => exact atMost_done more result
  | ask query next ih =>
    cases limit with
    | zero => exact few.elim
    | succ limit =>
      cases more with
      | zero => omega
      | succ more => exact fun answer => ih answer (few answer) (by omega)

theorem AtMost.run {limit : Nat} {d last : Dialogue Q A R} {past : History Q A}
    (few : AtMost limit d) (run : Run d past last) : past.length ≤ limit := by
  induction run generalizing limit with
  | here d => exact Nat.zero_le limit
  | answer answer run ih =>
    cases limit with
    | zero => exact few.elim
    | succ limit =>
      have rest := ih (few answer)
      rw [List.length_cons]
      omega

end Dialogue
