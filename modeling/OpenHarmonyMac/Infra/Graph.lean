import Mathlib.Data.List.Chain

/-!
# Paths and reachability

* `IsPath` — a path of a relation, from a start on
* `IsPath.reachable` — its end is reachable
* `forall_reachable_of_closed` — what is closed under the relation holds of all that is reachable
-/

namespace Infra

variable {α : Type*} {r : α → α → Prop} {a b c : α} {l : List α}

/-- The list is a path that starts at `a`. -/
structure IsPath (r : α → α → Prop) (a : α) (l : List α) : Prop where
  head : l.head? = some a
  chain : l.IsChain r

theorem IsPath.single : IsPath r a [a] := ⟨rfl, .singleton a⟩

theorem IsPath.concat (h : IsPath r a l) (hlast : l.getLast? = some b) (hr : r b c) :
    IsPath r a (l ++ [c]) := by
  constructor
  · rw [List.head?_append, h.head]
    rfl
  · refine h.chain.append (.singleton c) fun x hx y hy => ?_
    rw [hlast] at hx
    cases hx
    cases hy
    exact hr

theorem IsPath.reachable (h : IsPath r a l) (hlast : l.getLast? = some b) :
    Relation.ReflTransGen r a b := by
  obtain ⟨rest, rfl⟩ := List.head?_eq_some_iff.mp h.head
  refine List.relationReflTransGen_of_exists_isChain_cons rest h.chain ?_
  rw [List.getLast?_eq_some_getLast (List.cons_ne_nil _ _)] at hlast
  exact Option.some.inj hlast

/-- What holds at the start and is kept along the relation holds of all that is reachable. -/
theorem forall_reachable_of_closed {S : α → Prop} (ha : S a) (hclosed : ∀ x y, S x → r x y → S y)
    (h : Relation.ReflTransGen r a b) : S b := by
  induction h with
  | refl => exact ha
  | tail _ hr ih => exact hclosed _ _ ih hr

end Infra
