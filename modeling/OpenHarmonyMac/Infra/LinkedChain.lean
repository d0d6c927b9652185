import Mathlib.Data.List.Nodup
import Mathlib.Logic.Function.Basic

/-!
# Chains of links

The nodes of a linked list, in the order in which the links go through them. A list that is linked
both ways is a chain for its links forward, and its reverse is one for its links back.
-/

namespace Infra

variable {α : Type*} {next next' : α → Option α} {l r : List α} {x y : α} {p q : Option α}

/-- Each link goes to what comes next in the list, and the last one to `q`. -/
def Chain (next : α → Option α) : List α → Option α → Prop
  | [], _ => True
  | x :: l, q => next x = l.head?.or q ∧ Chain next l q

namespace Chain

@[simp] theorem nil : Chain next [] q := trivial

@[simp] theorem singleton : Chain next [x] q ↔ next x = q := by simp [Chain]

theorem append_iff : Chain next (l ++ r) q ↔ Chain next l (r.head?.or q) ∧ Chain next r q := by
  induction l with
  | nil => simp
  | cons x l ih =>
    have hhead : (l ++ r).head?.or q = l.head?.or (r.head?.or q) := by
      rw [List.head?_append, Option.or_assoc]
    rw [List.cons_append, Chain, Chain, ih, hhead, and_assoc]

/-- The link of a node in the list. -/
theorem link (h : Chain next (l ++ x :: r) q) : next x = r.head?.or q := (append_iff.mp h).2.1

/-- The link of the last node. -/
theorem last (h : Chain next l q) (hx : l.getLast? = some x) : next x = q := by
  obtain ⟨l, rfl⟩ := List.getLast?_eq_some_iff.mp hx
  exact h.link

theorem congr (h : Chain next l q) (heq : ∀ x ∈ l, next' x = next x) : Chain next' l q := by
  induction l with
  | nil => exact nil
  | cons x l ih =>
    rw [List.forall_mem_cons] at heq
    exact ⟨heq.1.trans h.1, ih h.2 heq.2⟩

end Chain

/-- The nodes that the links go through from `o` on, `k` of them at most. -/
def walk (next : α → Option α) : Nat → Option α → List α
  | k + 1, some x => x :: walk next k (next x)
  | _, _ => []

theorem Chain.walk_eq (h : Chain next l none) {k : Nat} (hk : l.length ≤ k) :
    walk next k l.head? = l := by
  induction l generalizing k with
  | nil => cases k <;> rfl
  | cons x l ih =>
    cases k with
    | zero => simp at hk
    | succ k =>
      have hx : next x = l.head? := by rw [h.1, Option.or_none]
      rw [List.head?_cons, walk, hx, ih h.2 (by simpa using hk)]

section Update

variable [DecidableEq α]

/-- The link of a node is moved, where there is such a node. -/
def relink (next : α → Option α) (o q : Option α) : α → Option α :=
  match o with
  | some x => Function.update next x q
  | none => next

namespace Chain

theorem update_of_notMem (h : Chain next l q) (hx : x ∉ l) :
    Chain (Function.update next x p) l q :=
  h.congr fun _ hy => Function.update_of_ne (ne_of_mem_of_not_mem hy hx) _ _

/-- The last link is moved to somewhere else. -/
theorem update_last (h : Chain next (l ++ [x]) q) (hx : x ∉ l) :
    Chain (Function.update next x p) (l ++ [x]) p := by
  rw [append_iff] at h ⊢
  refine ⟨?_, by simp⟩
  have hl : Chain next l (some x) := h.1
  exact hl.update_of_notMem hx

theorem relink_of_notMem {o : Option α} (h : Chain next l q) (ho : ∀ x ∈ o, x ∉ l) :
    Chain (relink next o p) l q := by
  cases o with
  | none => exact h
  | some x => exact h.update_of_notMem (ho x rfl)

theorem relink_last (h : Chain next l q) (hl : l.Nodup) :
    Chain (relink next l.getLast? p) l p := by
  rcases List.eq_nil_or_concat l with rfl | ⟨l, x, rfl⟩
  · exact nil
  · rw [List.concat_eq_append] at h hl ⊢
    rw [List.getLast?_append, List.getLast?_singleton, Option.some_or]
    refine h.update_last fun hx => ?_
    have := List.disjoint_of_nodup_append hl hx
    simp at this

end Chain

end Update

end Infra
