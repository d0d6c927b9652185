import OpenHarmonyMac.Infra.BitField
import Mathlib.Data.List.Basic

/-!
# Device numbers

The macros of the overriding `sys/sysmacros.h`. A device number of a Linux target has 64 bits: the
major number in bits 8 to 19 and 44 to 63, the minor number in bits 0 to 7 and 20 to 43. One of the
host has 32: `makedev` puts the major number in bits 24 to 31, and the minor number in bits 8 to 23.

* `device_number_round_trip` — on Linux, `makedev` and the pair of `major` and `minor` undo each other
* `host_number_iff` — on the host, only for multiples of 16 with the minor number 0
-/

namespace Sysmacros

open Infra

namespace Linux

/-- `major`. The cast to `unsigned` is of the first operand of `|` only, so that the result has the
width of `x`. -/
def major (x : BitVec 64) : BitVec 64 :=
  ((((x >>> 31) >>> 1) &&& 0xfffff000).setWidth 32).setWidth 64 ||| ((x >>> 8) &&& 0x00000fff)

/-- `minor` -/
def minor (x : BitVec 64) : BitVec 32 :=
  (((x >>> 12) &&& 0xffffff00) ||| (x &&& 0x000000ff)).setWidth 32

/-- `makedev`, of the operands as the masks of type `unsigned long long` convert them. -/
def makedev (x y : BitVec 64) : BitVec 64 :=
  ((x &&& 0xfffff000) <<< 32) ||| ((x &&& 0x00000fff) <<< 8) ||| ((y &&& 0xffffff00) <<< 12) |||
    (y &&& 0x000000ff)

/-! ## Where each bit comes from -/

variable {x y d : BitVec 64} {i : Nat}

theorem mask_high_major : (0xfffff000 : BitVec 64) = mask 64 12 20 := by decide

theorem mask_low_major : (0x00000fff : BitVec 64) = mask 64 0 12 := by decide

theorem mask_high_minor : (0xffffff00 : BitVec 64) = mask 64 8 24 := by decide

theorem mask_low_minor : (0x000000ff : BitVec 64) = mask 64 0 8 := by decide

theorem getLsbD_major : (major d).getLsbD i =
    if i < 12 then d.getLsbD (8 + i) else decide (i < 32) && d.getLsbD (32 + i) := by
  rw [major, mask_high_major, mask_low_major]
  simp only [BitVec.getLsbD_or, BitVec.getLsbD_setWidth, getLsbD_and_mask,
    BitVec.getLsbD_ushiftRight]
  split <;> grind

theorem getLsbD_minor : (minor d).getLsbD i =
    if i < 8 then d.getLsbD i else decide (i < 32) && d.getLsbD (12 + i) := by
  rw [minor, mask_high_minor, mask_low_minor]
  simp only [BitVec.getLsbD_or, BitVec.getLsbD_setWidth, getLsbD_and_mask,
    BitVec.getLsbD_ushiftRight]
  split <;> grind

theorem getLsbD_makedev : (makedev x y).getLsbD i =
    if i < 8 then y.getLsbD i
    else if i < 20 then x.getLsbD (i - 8)
    else if i < 44 then y.getLsbD (i - 12)
    else decide (i < 64) && x.getLsbD (i - 32) := by
  rw [makedev, mask_high_major, mask_low_major, mask_high_minor, mask_low_minor]
  simp only [BitVec.getLsbD_or, BitVec.getLsbD_shiftLeft, getLsbD_and_mask]
  split
  · grind
  · split
    · grind
    · split <;> grind

/-! ## The round trips -/

theorem major_makedev (x y : BitVec 32) : major (makedev (x.setWidth 64) (y.setWidth 64)) =
    x.setWidth 64 := by
  refine BitVec.eq_of_getLsbD_eq fun i hi => ?_
  rw [getLsbD_major, getLsbD_makedev, getLsbD_makedev]
  simp only [BitVec.getLsbD_setWidth]
  grind

theorem minor_makedev (x y : BitVec 32) :
    minor (makedev (x.setWidth 64) (y.setWidth 64)) = y := by
  refine BitVec.eq_of_getLsbD_eq fun i hi => ?_
  rw [getLsbD_minor, getLsbD_makedev, getLsbD_makedev]
  simp only [BitVec.getLsbD_setWidth]
  grind

theorem makedev_major_minor (d : BitVec 64) : makedev (major d) ((minor d).setWidth 64) = d := by
  refine BitVec.eq_of_getLsbD_eq fun i hi => ?_
  rw [getLsbD_makedev]
  simp only [BitVec.getLsbD_setWidth, getLsbD_major, getLsbD_minor]
  grind

/-- **The macros undo each other**, on all numbers of their widths. -/
theorem device_number_round_trip :
    (∀ x y : BitVec 32, major (makedev (x.setWidth 64) (y.setWidth 64)) = x.setWidth 64 ∧
      minor (makedev (x.setWidth 64) (y.setWidth 64)) = y) ∧
    ∀ d : BitVec 64, makedev (major d) ((minor d).setWidth 64) = d :=
  ⟨fun x y => ⟨major_makedev x y, minor_makedev x y⟩, makedev_major_minor⟩

end Linux

namespace Darwin

/-- `major` -/
def major (x : BitVec 32) : BitVec 32 := ((x >>> 24) &&& 0xff#32) ||| ((x >>> 8) &&& 0xfff00#32)

/-- `minor` -/
def minor (x : BitVec 32) : BitVec 32 := ((x >>> 8) &&& 0xff#32) ||| (x &&& 0xff00#32)

/-- `makedev`, of the operands as the casts to `uint32_t` convert them. A `dev_t` has 32 bits. -/
def makedev (x y : BitVec 32) : BitVec 32 := (x <<< 24) ||| (y <<< 8)

/-! ## Where each bit comes from -/

variable {d : BitVec 32} {x : BitVec 8} {y : BitVec 16} {i : Nat}

theorem mask_low : 0xff#32 = mask 32 0 8 := by decide

theorem mask_high_major : 0xfff00#32 = mask 32 8 12 := by decide

theorem mask_high_minor : 0xff00#32 = mask 32 8 8 := by decide

theorem getLsbD_major : (major d).getLsbD i =
    if i < 8 then d.getLsbD (24 + i) else decide (i < 20) && d.getLsbD (8 + i) := by
  rw [major, mask_low, mask_high_major]
  simp only [BitVec.getLsbD_or, getLsbD_and_mask, BitVec.getLsbD_ushiftRight]
  split <;> grind

theorem getLsbD_minor : (minor d).getLsbD i =
    if i < 8 then d.getLsbD (8 + i) else decide (i < 16) && d.getLsbD i := by
  rw [minor, mask_low, mask_high_minor]
  simp only [BitVec.getLsbD_or, getLsbD_and_mask, BitVec.getLsbD_ushiftRight]
  split <;> grind

theorem getLsbD_makedev : (makedev (x.setWidth 32) (y.setWidth 32)).getLsbD i =
    if i < 8 then false
    else if i < 24 then y.getLsbD (i - 8)
    else decide (i < 32) && x.getLsbD (i - 24) := by
  rw [makedev]
  simp only [BitVec.getLsbD_or, BitVec.getLsbD_shiftLeft, BitVec.getLsbD_setWidth]
  split
  · grind
  · split <;> grind

/-! ## The round trip -/

theorem getLsbD_major_makedev : (major (makedev (x.setWidth 32) (y.setWidth 32))).getLsbD i =
    if i < 8 then x.getLsbD i
    else if i < 16 then y.getLsbD i
    else decide (i < 20) && x.getLsbD (i - 16) := by
  rw [getLsbD_major, getLsbD_makedev, getLsbD_makedev]
  grind

theorem getLsbD_minor_makedev : (minor (makedev (x.setWidth 32) (y.setWidth 32))).getLsbD i =
    if i < 8 then y.getLsbD i else decide (i < 16) && y.getLsbD (i - 8) := by
  rw [getLsbD_minor, getLsbD_makedev, getLsbD_makedev]
  grind

/-- `major` takes high bits of the minor number, and low bits of the major number twice. -/
theorem major_makedev_iff : major (makedev (x.setWidth 32) (y.setWidth 32)) = x.setWidth 32 ↔
    (∀ i, 8 ≤ i → y.getLsbD i = false) ∧ ∀ i < 4, x.getLsbD i = false := by
  constructor
  · intro h
    have hbit : ∀ i, _ := fun i => congrArg (·.getLsbD i) h
    simp only [getLsbD_major_makedev, BitVec.getLsbD_setWidth] at hbit
    constructor
    · intro i hi
      by_cases hlt : i < 16
      · have := hbit i
        grind
      · exact BitVec.getLsbD_of_ge y i (Nat.le_of_not_lt hlt)
    · intro i hi
      have := hbit (16 + i)
      grind
  · rintro ⟨hy, hx⟩
    refine BitVec.eq_of_getLsbD_eq fun i hi => ?_
    rw [getLsbD_major_makedev, BitVec.getLsbD_setWidth]
    have hhigh := hy i
    have hlow := hx (i - 16)
    grind

/-- `minor` takes the low bits of the minor number twice. -/
theorem minor_makedev_iff : minor (makedev (x.setWidth 32) (y.setWidth 32)) = y.setWidth 32 ↔
    ∀ i < 8, y.getLsbD (8 + i) = y.getLsbD i := by
  constructor
  · intro h i hi
    have hbit := congrArg (·.getLsbD (8 + i)) h
    simp only [getLsbD_minor_makedev, BitVec.getLsbD_setWidth] at hbit
    grind
  · intro hy
    refine BitVec.eq_of_getLsbD_eq fun i hi => ?_
    rw [getLsbD_minor_makedev, BitVec.getLsbD_setWidth]
    have hhigh := hy (i - 8)
    grind

theorem low_bits_iff : (∀ i < 4, x.getLsbD i = false) ↔ x.toNat % 16 = 0 := by
  constructor
  · intro h
    refine Nat.eq_of_testBit_eq fun i => ?_
    rw [show 16 = 2 ^ 4 from rfl, Nat.testBit_mod_two_pow, Nat.zero_testBit]
    by_cases hi : i < 4
    · rw [decide_eq_true hi, Bool.true_and]
      exact h i hi
    · rw [decide_eq_false hi, Bool.false_and]
  · intro h i hi
    have hbit := congrArg (·.testBit i) h
    simp only [show 16 = 2 ^ 4 from rfl, Nat.testBit_mod_two_pow, Nat.zero_testBit,
      decide_eq_true hi, Bool.true_and] at hbit
    exact hbit

/-- **The macros of the host undo each other just in case** the major number is a multiple of 16
and the minor number is 0. -/
theorem host_number_iff (x : BitVec 8) (y : BitVec 16) :
    (major (makedev (x.setWidth 32) (y.setWidth 32)) = x.setWidth 32 ∧
      minor (makedev (x.setWidth 32) (y.setWidth 32)) = y.setWidth 32) ↔
    x.toNat % 16 = 0 ∧ y = 0#16 := by
  rw [major_makedev_iff, minor_makedev_iff, low_bits_iff]
  constructor
  · rintro ⟨⟨hhigh, hx⟩, hlow⟩
    refine ⟨hx, BitVec.eq_of_getLsbD_eq fun i hi => ?_⟩
    rw [BitVec.getLsbD_zero]
    by_cases hi8 : 8 ≤ i
    · exact hhigh i hi8
    · rw [← hlow i (by omega)]
      exact hhigh (8 + i) (Nat.le_add_right 8 i)
  · rintro ⟨hx, rfl⟩
    refine ⟨⟨fun _ _ => BitVec.getLsbD_zero, hx⟩, fun i _ => ?_⟩
    rw [BitVec.getLsbD_zero, BitVec.getLsbD_zero]

/-- The number of `/dev/null` on the host. -/
theorem null_not_undone : major (makedev 3 2) = 0x30003 ∧ minor (makedev 3 2) = 0x202 ∧
    ¬ (major (makedev 3 2) = 3 ∧ minor (makedev 3 2) = 2) := by
  decide

end Darwin

end Sysmacros
