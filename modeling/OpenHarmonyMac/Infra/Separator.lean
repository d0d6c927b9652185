import Mathlib.Data.List.DropRight
import Mathlib.Data.List.TakeWhile

/-!
# Cutting a list at a separator

A list that is cut at the first separator, or at the last one, when what stands on that side has
none.
-/

namespace Infra

variable {α : Type*} [BEq α] [LawfulBEq α] {sep : α} {l front behind : List α}

theorem bne_of_not_mem (h : sep ∉ l) : ∀ x ∈ l, (x != sep) = true := fun _ hx =>
  bne_iff_ne.mpr fun heq => h (heq ▸ hx)

theorem dropWhile_of_not_mem (h : sep ∉ l) : l.dropWhile (· != sep) = [] :=
  List.dropWhile_eq_nil_iff.mpr (bne_of_not_mem h)

theorem takeWhile_append_sep (h : sep ∉ front) (behind : List α) :
    (front ++ sep :: behind).takeWhile (· != sep) = front := by
  rw [List.takeWhile_append_of_pos (bne_of_not_mem h), List.takeWhile_cons_of_neg (by simp),
    List.append_nil]

theorem dropWhile_append_sep (h : sep ∉ front) (behind : List α) :
    (front ++ sep :: behind).dropWhile (· != sep) = sep :: behind := by
  rw [List.dropWhile_append_of_pos (bne_of_not_mem h), List.dropWhile_cons_of_neg (by simp)]

theorem rdropWhile_append_sep (h : sep ∉ behind) (front : List α) :
    (front ++ sep :: behind).rdropWhile (· != sep) = front ++ [sep] := by
  have hreverse : (front ++ sep :: behind).reverse = behind.reverse ++ sep :: front.reverse := by
    simp
  rw [List.rdropWhile, hreverse, dropWhile_append_sep (mt List.mem_reverse.mp h)]
  simp

theorem rtakeWhile_append_sep (h : sep ∉ behind) (front : List α) :
    (front ++ sep :: behind).rtakeWhile (· != sep) = behind := by
  have hreverse : (front ++ sep :: behind).reverse = behind.reverse ++ sep :: front.reverse := by
    simp
  rw [List.rtakeWhile, hreverse, takeWhile_append_sep (mt List.mem_reverse.mp h),
    List.reverse_reverse]

theorem rtakeWhile_of_not_mem (h : sep ∉ l) : l.rtakeWhile (· != sep) = l :=
  List.rtakeWhile_eq_self_iff.mpr (bne_of_not_mem h)

end Infra
