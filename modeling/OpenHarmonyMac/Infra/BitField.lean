import Mathlib.Data.Nat.Bitwise
import Mathlib.Tactic.Ring

/-!
# Fields of bits

The mask of a field of bits in a word. A word that is put together from fields is taken apart by
asking, of each bit, which field it lies in.

* `getLsbD_mask` — the bits of a mask
* `getLsbD_and_mask` — a field keeps its own bits
-/

namespace Infra

variable {w lo len i : Nat}

/-- The mask of the `len` bits from bit `lo` on. -/
def mask (w lo len : Nat) : BitVec w := BitVec.ofNat w ((2 ^ len - 1) <<< lo)

theorem getLsbD_mask : (mask w lo len).getLsbD i = decide (i < w ∧ lo ≤ i ∧ i < lo + len) := by
  rw [mask, BitVec.getLsbD_ofNat, Nat.testBit_shiftLeft, Nat.testBit_two_pow_sub_one]
  by_cases hi : i < w
  · by_cases hlo : lo ≤ i
    · have hiff : i - lo < len ↔ i < lo + len := by omega
      simp [hi, hlo, hiff]
    · simp [hlo]
  · simp [hi]

theorem getLsbD_and_mask (x : BitVec w) :
    (x &&& mask w lo len).getLsbD i = (x.getLsbD i && decide (lo ≤ i ∧ i < lo + len)) := by
  rw [BitVec.getLsbD_and, getLsbD_mask]
  by_cases hi : i < w
  · simp [hi]
  · simp [BitVec.getLsbD_of_ge x i (Nat.le_of_not_lt hi)]

end Infra
