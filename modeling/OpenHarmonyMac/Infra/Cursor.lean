import Mathlib.Tactic.Common

/-!
# Cursors that remove what they have passed

A cursor walks a list and can take out of it the element that it has passed last.

* `Cursor` — what a user knows of it
* `Cursor.sweep` — a loop that visits every element and removes some of them
* `Cursor.sweep_of_forall`, `Cursor.sweep_of_mem` — what such a loop comes to
-/

namespace Infra

/-- A cursor on lists of `α`. `At p passed ahead` says that `p` stands between these two parts of
its list. -/
structure Cursor (α : Type) where
  Pos : Type
  start : List α → Pos
  next : Pos → Option (α × Pos)
  remove : Pos → Pos
  /-- The list as it is. -/
  list : Pos → List α
  At : Pos → List α → List α → Prop
  at_start : ∀ xs, At (start xs) [] xs
  list_of_at : ∀ {p passed ahead}, At p passed ahead → list p = passed ++ ahead
  next_of_at_nil : ∀ {p passed}, At p passed [] → next p = none
  next_of_at_cons : ∀ {p passed x ahead}, At p passed (x :: ahead) →
    ∃ p', next p = some (x, p') ∧ At p' (passed ++ [x]) ahead
  at_remove : ∀ {p passed x ahead p'}, At p passed (x :: ahead) → next p = some (x, p') →
    At (remove p') passed ahead

/-- How a loop over a list ends: at its end, or in the middle of a visit that goes wrong. -/
inductive Swept (π σ : Type)
  | ended (p : π) (s : σ)
  | broken
  | outOfFuel
deriving DecidableEq, Repr

namespace Cursor

variable {α σ : Type} (c : Cursor α) (visit : σ → α → Option (Bool × σ))

/-- The loop. A visit says whether the element is to be removed, `none` that it goes wrong. -/
def sweep : Nat → c.Pos → σ → Swept c.Pos σ
  | 0, _, _ => .outOfFuel
  | n + 1, p, s =>
    match c.next p with
    | none => .ended p s
    | some (x, p) =>
      match visit s x with
      | none => .broken
      | some (true, s) => sweep n (c.remove p) s
      | some (false, s) => sweep n p s

variable {c visit} {gone : α → Bool} {after : σ → α → σ} {passed ahead : List α} {p : c.Pos}

/-- **No visit goes wrong.** The loop comes to the end of the list, which has lost what was to be
removed. -/
theorem sweep_of_forall (hvisit : ∀ x ∈ ahead, ∀ s, visit s x = some (gone x, after s x))
    (hp : c.At p passed ahead) {n : Nat} (hn : ahead.length < n) (s : σ) :
    ∃ p', c.sweep visit n p s = .ended p' (ahead.foldl after s) ∧
      c.list p' = passed ++ ahead.filter (! gone ·) := by
  induction ahead generalizing n p passed s with
  | nil =>
    obtain ⟨n, rfl⟩ := Nat.exists_eq_succ_of_ne_zero (Nat.ne_of_gt hn)
    refine ⟨p, ?_, c.list_of_at hp⟩
    rw [sweep, c.next_of_at_nil hp]
    rfl
  | cons x ahead ih =>
    obtain ⟨n, rfl⟩ := Nat.exists_eq_succ_of_ne_zero (Nat.ne_of_gt (Nat.zero_lt_of_lt hn))
    obtain ⟨q, hnext, hq⟩ := c.next_of_at_cons hp
    rw [List.length_cons] at hn
    rw [List.forall_mem_cons] at hvisit
    rw [sweep, hnext]
    simp only [hvisit.1 s, List.foldl_cons]
    cases hgone : gone x with
    | true =>
      obtain ⟨p', hsweep, hlist⟩ := ih hvisit.2 (c.at_remove hp hnext) (Nat.lt_of_succ_lt_succ hn)
        (after s x)
      exact ⟨p', hsweep, by rw [hlist, List.filter_cons_of_neg (by simp [hgone])]⟩
    | false =>
      obtain ⟨p', hsweep, hlist⟩ := ih hvisit.2 hq (Nat.lt_of_succ_lt_succ hn) (after s x)
      refine ⟨p', hsweep, ?_⟩
      rw [hlist, List.filter_cons_of_pos (by simp [hgone]), List.append_assoc,
        List.singleton_append]

/-- **Some visit goes wrong.** -/
theorem sweep_of_mem {x : α} (hx : x ∈ ahead) (hvisit : ∀ s, visit s x = none)
    (hp : c.At p passed ahead) {n : Nat} (hn : ahead.length < n) (s : σ) :
    c.sweep visit n p s = .broken := by
  induction ahead generalizing n p passed s with
  | nil => cases hx
  | cons y ahead ih =>
    obtain ⟨n, rfl⟩ := Nat.exists_eq_succ_of_ne_zero (Nat.ne_of_gt (Nat.zero_lt_of_lt hn))
    obtain ⟨q, hnext, hq⟩ := c.next_of_at_cons hp
    rw [List.length_cons] at hn
    rw [sweep, hnext]
    rcases List.mem_cons.mp hx with rfl | hx
    · simp only [hvisit s]
    · cases hy : visit s y with
      | none => simp only [hy]
      | some r =>
        obtain ⟨gone, s'⟩ := r
        cases gone with
        | true =>
          simp only [hy]
          exact ih hx (c.at_remove hp hnext) (Nat.lt_of_succ_lt_succ hn) s'
        | false =>
          simp only [hy]
          exact ih hx hq (Nat.lt_of_succ_lt_succ hn) s'

/-- The two parts of the list, the passed one from its end. -/
def zipper (α : Type) : Cursor α where
  Pos := List α × List α
  start xs := ([], xs)
  next
    | (_, []) => none
    | (passed, x :: ahead) => some (x, (x :: passed, ahead))
  remove p := (p.1.tail, p.2)
  list p := p.1.reverse ++ p.2
  At p passed ahead := p = (passed.reverse, ahead)
  at_start _ := rfl
  list_of_at := by
    rintro p passed ahead rfl
    rw [List.reverse_reverse]
  next_of_at_nil := by
    rintro p passed rfl
    rfl
  next_of_at_cons := by
    rintro p passed x ahead rfl
    exact ⟨_, rfl, by rw [List.reverse_append, List.reverse_singleton, List.singleton_append]⟩
  at_remove := by
    rintro p passed x ahead p' rfl hnext
    obtain ⟨-, rfl⟩ := Prod.mk.inj (Option.some.inj hnext)
    rfl

end Cursor

end Infra
