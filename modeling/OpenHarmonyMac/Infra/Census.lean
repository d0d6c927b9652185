import Mathlib.Algebra.Order.BigOperators.Group.Finset
import Mathlib.Data.Fintype.Basic

/-!
# A tally of a family

The members of a finite family have weights, and one member changes at a time.

* `tally` — the sum of the weights
* `census` — how many members have a property
-/

namespace Infra

variable {ι β : Type*} [Fintype ι]

/-- The sum of the weights of all members. -/
def tally (w : β → Nat) (f : ι → β) : Nat := ∑ i, w (f i)

/-- The number of members with the property. -/
def census (p : β → Bool) (f : ι → β) : Nat := tally (fun b => (p b).toNat) f

variable {w w' x x' : β → Nat} {p : β → Bool} {f : ι → β}

theorem le_tally (w : β → Nat) (f : ι → β) (i : ι) : w (f i) ≤ tally w f :=
  Finset.single_le_sum (fun j _ => Nat.zero_le (w (f j))) (Finset.mem_univ i)

theorem tally_eq_zero_iff : tally w f = 0 ↔ ∀ i, w (f i) = 0 := by
  simp [tally, Finset.sum_eq_zero_iff]

theorem exists_of_tally_pos (h : 0 < tally w f) : ∃ i, 0 < w (f i) := by
  by_contra hnone
  refine Nat.ne_of_gt h (tally_eq_zero_iff.mpr fun i => ?_)
  exact Nat.eq_zero_of_not_pos fun hi => hnone ⟨i, hi⟩

/-- A law of the weights is one of the tallies. -/
theorem tally_add_congr (h : ∀ b, w b + w' b = x b + x' b) :
    tally w f + tally w' f = tally x f + tally x' f := by
  rw [tally, tally, tally, tally, ← Finset.sum_add_distrib, ← Finset.sum_add_distrib]
  exact Finset.sum_congr rfl fun i _ => h (f i)

theorem tally_const (n : Nat) (f : ι → β) : tally (fun _ => n) f = Fintype.card ι * n := by
  rw [tally, Finset.sum_const, Finset.card_univ, Nat.nsmul_eq_mul]

theorem tally_le_card {n : Nat} (h : ∀ b, w b ≤ n) : tally w f ≤ Fintype.card ι * n := by
  rw [← tally_const n f]
  exact Finset.sum_le_sum fun i _ => h (f i)

/-- Where no weight is above one and the tally is as large as can be, every weight is one. -/
theorem eq_one_of_card_le_tally (hle : ∀ b, w b ≤ 1) (h : Fintype.card ι ≤ tally w f) (i : ι) :
    w (f i) = 1 := by
  have hsum : tally w f = ∑ _i : ι, 1 := by
    rw [Finset.sum_const, Finset.card_univ, Nat.nsmul_eq_mul, Nat.mul_one]
    exact Nat.le_antisymm (Nat.mul_one (Fintype.card ι) ▸ tally_le_card hle) h
  have hall := (Finset.sum_eq_sum_iff_of_le fun i _ => hle (f i)).mp hsum
  exact hall i (Finset.mem_univ i)

/-- One who is counted makes the number positive. -/
theorem eq_false_of_census (h : census p f = 0) (i : ι) : p (f i) = false := by
  have hzero : (p (f i)).toNat = 0 := tally_eq_zero_iff.mp h i
  cases hp : p (f i) with
  | false => rfl
  | true => simp [hp] at hzero

theorem census_eq_zero (h : ∀ i, p (f i) = false) : census p f = 0 :=
  tally_eq_zero_iff.mpr fun i => by rw [h i]; rfl

variable [DecidableEq ι]

theorem tally_update (w : β → Nat) (f : ι → β) (i : ι) (b : β) :
    tally w (Function.update f i b) + w (f i) = tally w f + w b := by
  have hrest : ∑ j ∈ Finset.univ.erase i, w (Function.update f i b j) =
      ∑ j ∈ Finset.univ.erase i, w (f j) :=
    Finset.sum_congr rfl fun j hj => by
      rw [Function.update_of_ne (Finset.ne_of_mem_erase hj)]
  have hnew := Finset.sum_erase_add (Finset.univ : Finset ι)
    (fun j => w (Function.update f i b j)) (Finset.mem_univ i)
  have hold := Finset.sum_erase_add (Finset.univ : Finset ι) (fun j => w (f j))
    (Finset.mem_univ i)
  rw [hrest, Function.update_self] at hnew
  rw [tally, tally, ← hnew, ← hold]
  omega

theorem census_update (p : β → Bool) (f : ι → β) (i : ι) (b : β) :
    census p (Function.update f i b) + (p (f i)).toNat = census p f + (p b).toNat :=
  tally_update _ f i b

/-- Where the tally is one at most, two members with a weight are the same. -/
theorem eq_of_tally_le_one (h : tally w f ≤ 1) {i j : ι} (hi : 0 < w (f i)) (hj : 0 < w (f j)) :
    i = j := by
  by_contra hne
  have hpair : ∑ k ∈ {i, j}, w (f k) ≤ tally w f :=
    Finset.sum_le_sum_of_subset (Finset.subset_univ _)
  rw [Finset.sum_pair hne] at hpair
  omega

end Infra
