import Mathlib.Data.List.Basic

/-!
# Lists in order

* `eq_or_of_pairwise` — two elements of a list are the same or one precedes the other
* `take_eq_take_iff` — two lists in order begin with the same `n` elements when they have the same
  elements that fewer than `n` of the second one precede
-/

namespace Infra

/-- The elements have keys that grow along the list. -/
abbrev Ordered {α : Type*} (key : α → Nat) (as : List α) : Prop :=
  as.Pairwise fun a b => key a < key b

variable {α : Type*} {key : α → Nat} {a b x : α} {as bs : List α} {n : Nat}

theorem eq_or_of_pairwise {r : α → α → Prop} (h : as.Pairwise r) (ha : a ∈ as) (hb : b ∈ as) :
    a = b ∨ r a b ∨ r b a := by
  induction as with
  | nil => cases ha
  | cons c cs ih =>
    obtain ⟨hc, hcs⟩ := List.pairwise_cons.mp h
    rcases List.mem_cons.mp ha with rfl | ha'
    · rcases List.mem_cons.mp hb with rfl | hb'
      · exact .inl rfl
      · exact .inr (.inl (hc b hb'))
    · rcases List.mem_cons.mp hb with rfl | hb'
      · exact .inr (.inr (hc a ha'))
      · exact ih hcs ha' hb'

theorem Ordered.tail (h : Ordered key (a :: as)) : Ordered key as := (List.pairwise_cons.mp h).2

theorem Ordered.not_mem_tail (h : Ordered key (a :: as)) (hx : key x ≤ key a) : x ∉ as := by
  intro hmem
  have hlt := (List.pairwise_cons.mp h).1 x hmem
  omega

theorem Ordered.countP_head (h : Ordered key (a :: as)) (hx : key x ≤ key a) :
    (a :: as).countP (fun b => key b < key x) = 0 := by
  rw [List.countP_eq_zero]
  intro b hb
  have hle : key a ≤ key b := by
    rcases List.mem_cons.mp hb with rfl | hb
    · exact Nat.le_refl _
    · exact Nat.le_of_lt ((List.pairwise_cons.mp h).1 b hb)
  simp only [decide_eq_true_eq]
  omega

theorem countP_cons_of_lt (hx : key a < key x) :
    (a :: as).countP (fun b => key b < key x) = as.countP (fun b => key b < key x) + 1 :=
  List.countP_cons_of_pos (by simpa using hx)

/-- Two lists with the same head. -/
theorem Ordered.cons_iff (ha : Ordered key (a :: as)) (hb : Ordered key (a :: bs)) :
    (∀ x, (a :: bs).countP (fun b => key b < key x) < n + 1 → (x ∈ a :: as ↔ x ∈ a :: bs)) ↔
      ∀ x, bs.countP (fun b => key b < key x) < n → (x ∈ as ↔ x ∈ bs) := by
  constructor
  · intro h x hx
    by_cases hle : key x ≤ key a
    · exact iff_of_false (ha.not_mem_tail hle) (hb.not_mem_tail hle)
    · have hlt := Nat.lt_of_not_le hle
      have hne : x ≠ a := by
        rintro rfl
        exact hle (Nat.le_refl _)
      simpa [hne] using h x (by rw [countP_cons_of_lt hlt]; omega)
  · intro h x hx
    by_cases hxa : x = a
    · simp [hxa]
    by_cases hle : key x ≤ key a
    · simp [hxa, ha.not_mem_tail hle, hb.not_mem_tail hle]
    · rw [countP_cons_of_lt (Nat.lt_of_not_le hle)] at hx
      simpa [hxa] using h x (by omega)

/-- **Lists in order begin alike** when they have the same elements up to there. -/
theorem take_eq_take_iff (ha : Ordered key as) (hb : Ordered key bs) (n : Nat) :
    as.take n = bs.take n ↔
      ∀ x, bs.countP (fun b => key b < key x) < n → (x ∈ as ↔ x ∈ bs) := by
  induction n generalizing as bs with
  | zero => simp
  | succ n ih =>
    cases bs with
    | nil =>
      rw [List.take_nil, List.take_eq_nil_iff]
      simp [List.eq_nil_iff_forall_not_mem]
    | cons b bs =>
      have hbmem := hb.countP_head (Nat.le_refl (key b))
      cases as with
      | nil =>
        refine iff_of_false (by simp) fun h => ?_
        simpa using h b (by omega)
      | cons a as =>
        rw [List.take_succ_cons, List.take_succ_cons, List.cons.injEq]
        by_cases hab : a = b
        · subst hab
          rw [and_iff_right rfl, ih ha.tail hb.tail, ha.cons_iff hb]
        · -- the one of the heads that comes first is not in the other list
          refine iff_of_false (fun h => hab h.1) fun h => ?_
          have hb' : b ∈ as := by
            simpa [Ne.symm hab] using (h b (by omega)).mpr List.mem_cons_self
          have hlt := (List.pairwise_cons.mp ha).1 b hb'
          have hcount := hb.countP_head (Nat.le_of_lt hlt)
          have ha' : a ∈ bs := by
            simpa [hab] using (h a (by omega)).mp List.mem_cons_self
          exact absurd ha' (hb.not_mem_tail (Nat.le_of_lt hlt))

end Infra
