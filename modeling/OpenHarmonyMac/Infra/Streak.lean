import Mathlib.Data.List.Iterate

/-!
# Streaks

The end of a history in which each item is the successor of the one before it. A counter and a copy
of the last item are enough to tell how long it is.

* `EndsInStreak` — the last `n` items are one
* `Tally` — what the counter and the copy tell
* `Tally.concat` — a further item
-/

namespace Infra

variable {α : Type*} {next : α → α} {start last y : α} {xs : List α} {n count : Nat}

/-- Each of the last `n` items but the first of them is the successor of the one before it. -/
def EndsInStreak (next : α → α) (n : Nat) (xs : List α) : Prop :=
  ∃ past x, xs = past ++ List.iterate next x n

theorem endsInStreak_zero (x : α) : EndsInStreak next 0 xs := ⟨xs, x, (List.append_nil xs).symm⟩

theorem endsInStreak_one : EndsInStreak next 1 (xs ++ [y]) := ⟨xs, y, rfl⟩

theorem EndsInStreak.length_le (h : EndsInStreak next n xs) : n ≤ xs.length := by
  obtain ⟨past, x, rfl⟩ := h
  rw [List.length_append, List.length_iterate]
  exact Nat.le_add_left n _

theorem iterate_succ_eq_concat (x : α) :
    List.iterate next x (n + 1) = List.iterate next x n ++ [next^[n] x] :=
  List.iterate_add next x n 1

/-- An item makes the streak longer if it is the successor of the last one. -/
theorem endsInStreak_concat : EndsInStreak next (n + 2) (xs ++ [y]) ↔
    EndsInStreak next (n + 1) xs ∧ ∃ x ∈ xs.getLast?, y = next x := by
  constructor
  · rintro ⟨past, x, heq⟩
    rw [iterate_succ_eq_concat, ← List.append_assoc] at heq
    obtain ⟨rfl, hy⟩ := List.append_inj' heq rfl
    refine ⟨⟨past, x, rfl⟩, next^[n] x, ?_, ?_⟩
    · rw [iterate_succ_eq_concat, ← List.append_assoc]
      exact List.getLast?_concat
    · rw [← Function.iterate_succ_apply' next n x]
      exact List.singleton_inj.mp hy
  · rintro ⟨⟨past, x, rfl⟩, z, hz, rfl⟩
    rw [iterate_succ_eq_concat, ← List.append_assoc, List.getLast?_concat] at hz
    refine ⟨past, x, ?_⟩
    rw [iterate_succ_eq_concat (n := n + 1), Function.iterate_succ_apply', Option.mem_some.mp hz,
      List.append_assoc]

/-- The counter and the copy of the last item. Before the first item the copy is `start`. -/
structure Tally (next : α → α) (start : α) (count : Nat) (last : α) (xs : List α) : Prop where
  last : xs.getLast?.getD start = last
  le_count : ∀ n, n ≤ count ↔ EndsInStreak next n xs

theorem tally_nil : Tally next start 0 start [] where
  last := rfl
  le_count n := by
    constructor
    · intro hn
      rw [Nat.le_zero.mp hn]
      exact endsInStreak_zero start
    · intro h
      exact h.length_le

/-- **What the counting makes of a further item.** -/
theorem Tally.concat [DecidableEq α] (h : Tally next start count last xs) :
    Tally next start (if y = next last then count + 1 else 1) y (xs ++ [y]) where
  last := by simp
  le_count n := by
    match n with
    | 0 =>
      refine ⟨fun _ => endsInStreak_zero y, fun _ => Nat.zero_le _⟩
    | 1 =>
      refine ⟨fun _ => endsInStreak_one, fun _ => ?_⟩
      split <;> omega
    | n + 2 =>
      rw [endsInStreak_concat, ← h.le_count]
      cases hlast : xs.getLast? with
      | none =>
        -- The first item: its predecessor is not in the history, and the streak is it alone.
        have hcount : count = 0 := by
          have hle := ((h.le_count count).mp (Nat.le_refl count)).length_le
          rw [List.getLast?_eq_none_iff.mp hlast] at hle
          exact Nat.le_zero.mp hle
        rw [hcount]
        constructor
        · intro hn
          split at hn <;> omega
        · rintro ⟨hn, -⟩
          omega
      | some x =>
        have hx : x = last := by
          have := h.last
          rwa [hlast] at this
        subst hx
        constructor
        · intro hn
          split at hn
          · next hy => exact ⟨by omega, x, rfl, hy⟩
          · omega
        · rintro ⟨hn, z, hz, rfl⟩
          rw [Option.mem_some.mp hz, if_pos rfl]
          omega

end Infra
