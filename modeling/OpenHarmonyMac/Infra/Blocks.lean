import Mathlib.Data.List.Basic

/-!
# A stream of blocks cut into buffers

A list of blocks is concatenated and the result is cut into buffers without regard to the
block boundaries. `ends base blocks` are the positions at which the blocks end, and
`endsWithin` counts those strictly inside a buffer: one less than the number of blocks that
have bytes in it. `placed base blocks` are the blocks with the positions at which they begin.
-/

namespace Infra

variable {α : Type*}

/-- The positions at which the blocks end, the first one starting at `base`. -/
def ends (base : Nat) : List (List α) → List Nat
  | [] => []
  | b :: bs => (base + b.length) :: ends (base + b.length) bs

/-- How many of the positions lie strictly between `p` and `q`. -/
def endsWithin (es : List Nat) (p q : Nat) : Nat := es.countP (fun e => p < e && e < q)

/-- The blocks with the positions at which they begin. -/
def placed (base : Nat) : List (List α) → List (Nat × List α)
  | [] => []
  | b :: bs => (base, b) :: placed (base + b.length) bs

/-- What holds of each buffer, by where it begins and ends; `p` is the position of the first one. -/
def EachBuffer (P : Nat → Nat → Prop) : Nat → List (List α) → Prop
  | _, [] => True
  | p, b :: bs => P p (p + b.length) ∧ EachBuffer P (p + b.length) bs

instance EachBuffer.decidable (P : Nat → Nat → Prop) [∀ p q, Decidable (P p q)] :
    ∀ (p : Nat) (bs : List (List α)), Decidable (EachBuffer P p bs)
  | _, [] => inferInstanceAs (Decidable True)
  | p, b :: bs =>
    have := EachBuffer.decidable P (p + b.length) bs
    inferInstanceAs (Decidable (_ ∧ _))

theorem le_of_mem_ends {base e : Nat} : ∀ {bs : List (List α)}, e ∈ ends base bs → base ≤ e
  | b :: bs, h => by
    rcases List.mem_cons.mp h with rfl | h
    · omega
    · have := le_of_mem_ends h
      omega

/-- Positions at or before `p` are not inside anything that starts at `p`. -/
theorem endsWithin_cons_le {e p q : Nat} (h : e ≤ p) (es : List Nat) :
    endsWithin (e :: es) p q = endsWithin es p q := by
  unfold endsWithin
  rw [List.countP_cons_of_neg (by simp; omega)]

theorem endsWithin_cons_ge {e p q : Nat} (h : q ≤ e) (es : List Nat) :
    endsWithin (e :: es) p q = endsWithin es p q := by
  unfold endsWithin
  rw [List.countP_cons_of_neg (by simp; omega)]

theorem endsWithin_cons_in {e p q : Nat} (h : p < e) (h' : e < q) (es : List Nat) :
    endsWithin (e :: es) p q = endsWithin es p q + 1 := by
  unfold endsWithin
  rw [List.countP_cons_of_pos (by simp; omega)]

/-- Blocks that start at or behind the end of a buffer do not end in it. -/
theorem endsWithin_ends_of_le {base p q : Nat} (h : q ≤ base) (bs : List (List α)) :
    endsWithin (ends base bs) p q = 0 := by
  unfold endsWithin
  rw [List.countP_eq_zero]
  intro e he
  have := le_of_mem_ends he
  simp
  omega

theorem le_of_mem_placed {base : Nat} {x : Nat × List α} :
    ∀ {bs : List (List α)}, x ∈ placed base bs → base ≤ x.1
  | b :: bs, h => by
    rcases List.mem_cons.mp h with rfl | h
    · exact Nat.le_refl _
    · have := le_of_mem_placed h
      omega

/-- Buffers from `p` on do not tell two properties apart that agree there. -/
theorem eachBuffer_congr {P Q : Nat → Nat → Prop} {p : Nat}
    (h : ∀ p' q, p ≤ p' → p' ≤ q → (P p' q ↔ Q p' q)) :
    ∀ bs : List (List α), EachBuffer P p bs ↔ EachBuffer Q p bs := by
  intro bs
  induction bs generalizing p with
  | nil => exact Iff.rfl
  | cons b bs ih =>
    rw [EachBuffer, EachBuffer, h p _ (Nat.le_refl _) (Nat.le_add_right _ _),
      ih fun p' q hp hq => h p' q (by omega) hq]

end Infra
