import Mathlib.Data.List.Perm.Basic
import Mathlib.Data.List.Nodup

/-!
# Custody of allocated items

Items are created, passed from one owner to another, and released. `Custody created released
owned` says that the books are right: an item that was created has either been released, once,
or has one owner.

The owners are one list with an entry for each item they own, so that a hand-over is a
permutation of it.
-/

namespace Infra

variable {ν : Type*} {created released owned owned' : List ν} {n : ν}

/-- Each item created was released once or has one owner, and there are no other items. -/
structure Custody (created released owned : List ν) : Prop where
  perm : (released ++ owned).Perm created
  nodup : created.Nodup

namespace Custody

theorem empty : Custody ([] : List ν) [] [] := ⟨List.Perm.refl _, List.nodup_nil⟩

theorem create (h : Custody created released owned) (hn : n ∉ created) :
    Custody (n :: created) released (n :: owned) where
  perm := List.perm_middle.trans (h.perm.cons n)
  nodup := List.nodup_cons.mpr ⟨hn, h.nodup⟩

theorem release (h : Custody created released (n :: owned)) :
    Custody created (n :: released) owned where
  perm := List.perm_middle.symm.trans h.perm
  nodup := h.nodup

/-- Items change hands. -/
theorem move (h : Custody created released owned) (hp : owned.Perm owned') :
    Custody created released owned' where
  perm := (hp.append_left released).symm.trans h.perm
  nodup := h.nodup

theorem nodup_all (h : Custody created released owned) : (released ++ owned).Nodup :=
  h.perm.nodup_iff.mpr h.nodup

theorem owned_nodup (h : Custody created released owned) : owned.Nodup :=
  (List.nodup_append.mp h.nodup_all).2.1

/-- What has an owner is not released. -/
theorem not_released (h : Custody created released owned) (hn : n ∈ owned) : n ∉ released :=
  fun hr => (List.nodup_append.mp h.nodup_all).2.2 n hr n hn rfl

variable [DecidableEq ν]

theorem count_eq (h : Custody created released owned) (n : ν) :
    released.count n + owned.count n = created.count n := by
  rw [← List.count_append, h.perm.count_eq]

/-- **An item is released once or owned once, and not both.** -/
theorem count_eq_one (h : Custody created released owned) (hn : n ∈ created) :
    released.count n + owned.count n = 1 := by
  rw [h.count_eq, List.count_eq_one_of_mem h.nodup hn]

end Custody

end Infra
