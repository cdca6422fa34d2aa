import Teleop.Proofs.Numeric.Exact
import Teleop.Quantity.Extraction

/-!
# Quantities of whole numbers

A whole number of seconds or minutes is a whole number of milliseconds. Neither the products nor the
rounding changes it as long as the milliseconds have no more bits than the format (`asMillis?_seconds`,
`asMillis?_minutes`). A percentage is brought into its range however many digits it has
(`clampPercent_ofInt`).
-/

namespace Teleop.Quantity

open Numeric

variable {n : Nat}

theorem millisOfSeconds_ofInt (h : 1000 * n < 2 ^ binary64.precision) :
    millisOfSeconds (Binary.ofInt n) = .ofNat (1000 * n) := by
  have hn : n < 2 ^ binary64.precision := by omega
  have hproduct : (Binary.ofInt n * Binary.ofInt (1000 : Nat) : Binary64) =
      Binary.ofInt (1000 * n : Nat) := by
    rw [Nat.mul_comm] at h ⊢
    exact Binary.ofInt_mul_ofInt hn (by decide) h (by decide)
  have hbound : 1000 * n ≤ UInt64.size - 1 := Nat.le_trans (Nat.le_of_lt h) (by decide)
  change UInt64.ofNat ((Binary.ofInt n * Binary.ofInt (1000 : Nat) : Binary64).toNatWithin _) = _
  rw [hproduct, Binary.toNatWithin_ofInt h (by decide) hbound]

theorem asMillis?_seconds (h : 1000 * n < 2 ^ binary64.precision) :
    asMillis? ⟨some (Binary.ofInt n), some .seconds⟩ = some (.ofNat (1000 * n)) :=
  congrArg some (millisOfSeconds_ofInt h)

theorem asMillis?_minutes (h : 60000 * n < 2 ^ binary64.precision) :
    asMillis? ⟨some (Binary.ofInt n), some .minutes⟩ = some (.ofNat (60000 * n)) := by
  have hn : n < 2 ^ binary64.precision := by omega
  have hseconds : (Binary.ofInt n * Binary.ofInt (60 : Nat) : Binary64) = Binary.ofInt (60 * n : Nat) := by
    rw [Nat.mul_comm 60]
    exact Binary.ofInt_mul_ofInt hn (by decide) (by omega) (by decide)
  have hmillis : 1000 * (60 * n) = 60000 * n := by omega
  have hfactor := millisOfSeconds_ofInt (n := 60 * n) (by omega)
  change some (millisOfSeconds (Binary.ofInt n * Binary.ofInt (60 : Nat))) = _
  rw [hseconds, hfactor, hmillis]

/-- Beyond a hundred every percentage is a hundred. -/
theorem clampPercent_ofInt (n : Nat) :
    clampPercent (Binary.ofInt n) = Binary.ofInt (min n 100 : Nat) := by
  have hclamp := Binary.clamp_ofInt (f := binary64) (Nat.zero_le 100) (by decide) (by decide) n
  rw [Nat.max_eq_left (Nat.zero_le n)] at hclamp
  exact hclamp

end Teleop.Quantity
