import Mathlib.Data.List.Nodup
import Mathlib.Data.List.Perm.Basic

/-!
# Lists of items with keys

A table that is kept as a list and searched by key. An item is found by the first key that
matches, so a second one of the same key stays unseen.

* `UniqueKeys` — no two items have the same key
* `uniqueKeys_concat`, `UniqueKeys.eraseP` — entering an item and taking one out
* `HoldsLast` — a table that holds the last item of each key of a history
-/

namespace Infra

variable {α κ : Type*} {key : α → κ} {l l' : List α} {x y : α} {k : κ} {p : α → Bool}

/-- No two items of the list have the same key. -/
def UniqueKeys (key : α → κ) (l : List α) : Prop := (l.map key).Nodup

instance [DecidableEq κ] : Decidable (UniqueKeys key l) :=
  inferInstanceAs (Decidable (l.map key).Nodup)

theorem uniqueKeys_nil : UniqueKeys key [] := List.nodup_nil

theorem UniqueKeys.sublist (h : UniqueKeys key l) (hsub : l'.Sublist l) : UniqueKeys key l' :=
  List.Nodup.sublist (hsub.map key) h

/-- An item may be entered just in case its key is new. -/
theorem uniqueKeys_concat (h : UniqueKeys key l) :
    UniqueKeys key (l ++ [x]) ↔ ∀ y ∈ l, key y ≠ key x := by
  unfold UniqueKeys at h ⊢
  rw [List.map_append, List.map_singleton]
  constructor
  · intro hnodup y hy heq
    exact List.disjoint_of_nodup_append hnodup (List.mem_map_of_mem hy)
      (heq ▸ List.mem_singleton_self _)
  · intro hnew
    refine List.Nodup.append h (List.nodup_singleton _) ?_
    intro k hk hx
    obtain ⟨y, hy, rfl⟩ := List.mem_map.mp hk
    exact hnew y hy (List.mem_singleton.mp hx)

/-- To erase the item that a search finds is to erase the first one that it looks for. -/
theorem erase_of_find? [DecidableEq α] (h : l.find? p = some x) : l.erase x = l.eraseP p := by
  induction l with
  | nil => cases h
  | cons y l ih =>
    by_cases hy : p y = true
    · rw [List.find?_cons_of_pos hy] at h
      cases h
      rw [List.erase_cons_head, List.eraseP_cons_of_pos hy]
    · rw [List.find?_cons_of_neg hy] at h
      have hne : ¬ (y == x) = true := by
        rw [beq_iff_eq]
        rintro rfl
        exact hy (List.find?_some h)
      rw [List.erase_cons_tail hne, List.eraseP_cons_of_neg hy, ih h]

/-- When the keys are unique, there is no other item of the key that is taken out. -/
theorem UniqueKeys.eraseP (h : UniqueKeys key l) (hp : ∀ x, p x = true ↔ key x = k) :
    ∀ y ∈ l.eraseP p, key y ≠ k := by
  induction l with
  | nil =>
    intro y hy
    cases hy
  | cons x l ih =>
    obtain ⟨hx, hl⟩ := List.nodup_cons.mp h
    intro y hy hkey
    by_cases hpx : p x = true
    · rw [List.eraseP_cons_of_pos hpx] at hy
      apply hx
      rw [(hp x).mp hpx, ← hkey]
      exact List.mem_map_of_mem hy
    · rw [List.eraseP_cons_of_neg hpx] at hy
      rcases List.mem_cons.mp hy with rfl | hy
      · exact hpx ((hp y).mpr hkey)
      · exact ih hl y hy hkey

/-- Taking out an item of another key leaves those of a key alone. -/
theorem mem_eraseP_of_key_ne (hp : ∀ x, p x = true ↔ key x = k) (hy : key y ≠ k) :
    y ∈ l.eraseP p ↔ y ∈ l :=
  List.mem_eraseP_of_neg fun hpy => hy ((hp y).mp hpy)

/-! ## The last item of each key -/

section Last

variable [DecidableEq κ] {table table' xs ys : List α}

/-- The last item of the key. -/
def lastOf (key : α → κ) (k : κ) (xs : List α) : Option α :=
  (xs.filter fun y => key y = k).getLast?

theorem lastOf_concat :
    lastOf key k (xs ++ [x]) = if key x = k then some x else lastOf key k xs := by
  unfold lastOf
  rw [List.filter_append]
  split
  · next h => simp [h]
  · next h => simp [h]

/-- For each key the table holds the last item of the history and no other. -/
def HoldsLast (key : α → κ) (table xs : List α) : Prop :=
  ∀ k, (table.filter fun y => key y = k) = (lastOf key k xs).toList

theorem eq_toList_of_perm {l : List α} {o : Option α} (h : l.Perm o.toList) : l = o.toList := by
  cases o with
  | none => exact List.perm_nil.mp h
  | some y => exact List.perm_singleton.mp h

/-- **A new item takes the place of the one of its key.** -/
theorem HoldsLast.put (h : HoldsLast key table xs)
    (ht : table'.Perm (x :: table.filter fun y => key y ≠ key x)) :
    HoldsLast key table' (xs ++ [x]) := by
  intro k
  refine eq_toList_of_perm ((ht.filter fun y => key y = k).trans ?_)
  rw [lastOf_concat]
  by_cases hk : key x = k
  · subst hk
    rw [if_pos rfl, List.filter_cons_of_pos (by simp), List.filter_filter]
    simp
  · rw [if_neg hk, List.filter_cons_of_neg (by simpa using hk), List.filter_filter, ← h k]
    refine List.Perm.of_eq (List.filter_congr fun y _ => ?_)
    by_cases hy : key y = k <;> simp [hy, Ne.symm hk]

end Last

end Infra
