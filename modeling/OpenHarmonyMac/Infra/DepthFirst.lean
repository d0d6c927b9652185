import Mathlib.Algebra.BigOperators.Group.Finset.Basic
import Mathlib.Algebra.Order.BigOperators.Group.Finset
import Mathlib.Data.List.Chain
import Mathlib.Logic.Relation

/-!
# Depth first search with an explicit path

A search keeps the nodes that are finished, in order, the path from the current node back to the
root, and for each node the position of the successor to look at next.

* `Search` — what a search has done so far
* `Search.advance`, `Search.descend`, `Search.finish` — its three steps
* `Search.remaining` — a bound on the steps that are left
* `Postorder` — the order that is left at the end
-/

namespace Infra.DepthFirst

variable {α : Type*} {succ : α → List α} {root p d : α} {done path rest l : List α} {next : α → Nat}

/-- One node depends on another through any number of steps. -/
abbrev Reach (succ : α → List α) : α → α → Prop := Relation.ReflTransGen fun x y => y ∈ succ x

/-- The nodes that the root reaches, each once and each behind its successors. A successor may come
later only where the two lie on a cycle. -/
structure Postorder (succ : α → List α) (root : α) (l : List α) : Prop where
  nodup : l.Nodup
  mem_iff : ∀ x, x ∈ l ↔ Reach succ root x
  ordered : ∀ l₁ x l₂, l = l₁ ++ x :: l₂ → ∀ y ∈ succ x, y ∈ l₁ ∨ Reach succ y x

/-- Without cycles a node comes behind all that it reaches. -/
theorem Postorder.before_of_acyclic (h : Postorder succ root l)
    (hacyclic : ∀ x y, y ∈ succ x → ¬ Reach succ y x) {l₁ l₂ : List α} {x y : α}
    (hl : l = l₁ ++ x :: l₂) (hxy : Relation.TransGen (fun x y => y ∈ succ x) x y) : y ∈ l₁ := by
  induction hxy with
  | single hy => exact (h.ordered _ _ _ hl _ hy).resolve_right (hacyclic _ _ hy)
  | @tail y z _ hz ih =>
    obtain ⟨m₁, m₂, rfl⟩ := List.append_of_mem ih
    have hl' : l = m₁ ++ y :: (m₂ ++ x :: l₂) := by rw [hl, List.append_assoc, List.cons_append]
    have := (h.ordered _ _ _ hl' _ hz).resolve_right (hacyclic _ _ hz)
    exact List.mem_append_left _ this

/-- What a search from `root` has done: `done` is finished and `path` leads from the current node
back to the root. -/
structure Search (succ : α → List α) (root : α) (done path : List α) (next : α → Nat) : Prop where
  nodup : (done ++ path).Nodup
  root_mem : root ∈ done ++ path
  reach : ∀ x ∈ done ++ path, Reach succ root x
  chain : path.IsChain fun x y => x ∈ succ y
  closed : ∀ x ∈ done, ∀ y ∈ succ x, y ∈ done ++ path
  visited : ∀ x ∈ path, ∀ y ∈ (succ x).take (next x), y ∈ done ++ path
  ordered : ∀ l₁ x l₂, done = l₁ ++ x :: l₂ → ∀ y ∈ succ x, y ∈ l₁ ∨ Reach succ y x

namespace Search

theorem start (hnext : next root = 0) : Search succ root [] [root] next where
  nodup := List.nodup_singleton root
  root_mem := List.mem_singleton_self root
  reach x hx := by
    cases List.mem_singleton.mp hx
    exact .refl
  chain := .singleton root
  closed x hx := absurd hx List.not_mem_nil
  visited x hx y hy := by
    cases List.mem_singleton.mp hx
    rw [hnext, List.take_zero] at hy
    exact absurd hy List.not_mem_nil
  ordered l₁ x l₂ h := by simp at h

/-- Each node of the path reaches the current one. -/
theorem reach_head (h : Search succ root done (p :: rest) next) {x : α} (hx : x ∈ p :: rest) :
    Reach succ x p := by
  obtain ⟨front, back, hsplit⟩ := List.append_of_mem hx
  have hchain := h.chain
  rw [hsplit] at hchain
  -- the part of the path in front of `x`, from its end
  have hfront : ∀ (front : List α) (x : α), (front ++ x :: back).IsChain (fun x y => x ∈ succ y) →
      ∀ q, (front ++ x :: back).head? = some q → Reach succ x q := by
    intro front
    induction front with
    | nil =>
      intro x _ q hq
      cases hq
      exact .refl
    | cons a front ih =>
      intro x hc q hq
      cases hq
      obtain ⟨b, tail, hb⟩ : ∃ b tail, front ++ x :: back = b :: tail := by
        cases front <;> exact ⟨_, _, rfl⟩
      rw [List.cons_append, hb] at hc
      rw [List.isChain_cons_cons] at hc
      refine Relation.ReflTransGen.tail (ih x (hb ▸ hc.2) b ?_) hc.1
      rw [hb, List.head?_cons]
  refine hfront front x hchain p ?_
  rw [← hsplit, List.head?_cons]

/-- The next successor has been reached before: the search goes on behind it. -/
theorem advance [DecidableEq α] (h : Search succ root done (p :: rest) next)
    (hd : (succ p)[next p]? = some d) (hmem : d ∈ done ++ p :: rest) :
    Search succ root done (p :: rest) (Function.update next p (next p + 1)) where
  nodup := h.nodup
  root_mem := h.root_mem
  reach := h.reach
  chain := h.chain
  closed := h.closed
  ordered := h.ordered
  visited x hx y hy := by
    by_cases hxp : x = p
    · cases hxp
      rw [Function.update_self, List.take_add_one, hd, Option.toList_some, List.mem_append,
        List.mem_singleton] at hy
      rcases hy with hy | rfl
      · exact h.visited _ hx y hy
      · exact hmem
    · rw [Function.update_of_ne hxp] at hy
      exact h.visited x hx y hy

/-- The next successor is new: it becomes the current node. -/
theorem descend [DecidableEq α] (h : Search succ root done (p :: rest) next)
    (hd : (succ p)[next p]? = some d) (hmem : d ∉ done ++ p :: rest) :
    Search succ root done (d :: p :: rest) (Function.update next d 0) := by
  have hsucc : d ∈ succ p := List.mem_of_getElem? hd
  have hmono : ∀ x ∈ done ++ p :: rest, x ∈ done ++ d :: p :: rest := by
    intro x hx
    rw [List.mem_append] at hx ⊢
    exact hx.imp_right (List.mem_cons_of_mem d)
  refine ⟨?_, hmono _ h.root_mem, ?_, List.isChain_cons_cons.mpr ⟨hsucc, h.chain⟩,
    fun x hx y hy => hmono _ (h.closed x hx y hy), ?_, h.ordered⟩
  · rw [List.nodup_middle]
    exact List.nodup_cons.mpr ⟨hmem, h.nodup⟩
  · intro x hx
    rw [List.mem_append, List.mem_cons, or_left_comm, ← List.mem_append] at hx
    rcases hx with rfl | hx
    · exact (h.reach p (by simp)).tail hsucc
    · exact h.reach x hx
  · intro x hx y hy
    by_cases hxd : x = d
    · cases hxd
      rw [Function.update_self, List.take_zero] at hy
      exact absurd hy List.not_mem_nil
    · rw [Function.update_of_ne hxd] at hy
      exact hmono _ (h.visited x ((List.mem_cons.mp hx).resolve_left hxd) y hy)

/-- All successors of the current node have been looked at: it is finished. -/
theorem finish (h : Search succ root done (p :: rest) next) (hp : (succ p).length ≤ next p) :
    Search succ root (done ++ [p]) rest next := by
  have hall : ∀ y ∈ succ p, y ∈ done ++ p :: rest := by
    intro y hy
    refine h.visited p List.mem_cons_self y ?_
    rwa [List.take_of_length_le hp]
  have hassoc : done ++ [p] ++ rest = done ++ p :: rest := by
    rw [List.append_assoc, List.singleton_append]
  refine ⟨hassoc ▸ h.nodup, hassoc ▸ h.root_mem, hassoc ▸ h.reach, h.chain.tail, ?_, ?_, ?_⟩
  · intro x hx y hy
    rw [hassoc]
    rw [List.mem_append, List.mem_singleton] at hx
    rcases hx with hx | rfl
    · exact h.closed x hx y hy
    · exact hall y hy
  · intro x hx y hy
    rw [hassoc]
    exact h.visited x (List.mem_cons_of_mem p hx) y hy
  · intro l₁ x l₂ hl y hy
    rcases List.eq_nil_or_concat l₂ with rfl | ⟨l₂, z, rfl⟩
    · obtain ⟨rfl, hx⟩ := List.append_inj' hl rfl
      cases hx
      rcases List.mem_append.mp (hall y hy) with hdone | hpath
      · exact Or.inl hdone
      · exact Or.inr (h.reach_head hpath)
    · rw [List.concat_eq_append, ← List.cons_append, ← List.append_assoc] at hl
      exact h.ordered l₁ x l₂ (List.append_inj' hl rfl).1 y hy

/-- A search whose path is empty has left the order. -/
theorem postorder (h : Search succ root done [] next) : Postorder succ root done where
  nodup := by simpa using h.nodup
  ordered := h.ordered
  mem_iff x := by
    constructor
    · intro hx
      exact h.reach x (by simpa using hx)
    · intro hx
      induction hx with
      | refl => simpa using h.root_mem
      | tail _ hyz ih => simpa using h.closed _ ih _ hyz

end Search

/-! ## The steps that are left -/

variable [DecidableEq α]

/-- What a node still costs: its successors from the next one on; two more before it is reached. -/
def cost (succ : α → List α) (seen : List α) (next : α → Nat) (x : α) : Nat :=
  if x ∈ seen then (succ x).length - next x else (succ x).length + 2

/-- A bound on the steps that are left of a search among the nodes `nodes`. -/
def remaining (succ : α → List α) (nodes : Finset α) (done path : List α) (next : α → Nat) : Nat :=
  ∑ x ∈ nodes, cost succ (done ++ path) next x + path.length

variable {nodes : Finset α}

theorem remaining_advance (succ : α → List α) (done rest : List α) (next : α → Nat)
    (hp : p ∈ nodes) (hnext : next p < (succ p).length) :
    remaining succ nodes done (p :: rest) (Function.update next p (next p + 1)) <
      remaining succ nodes done (p :: rest) next := by
  refine Nat.add_lt_add_right (Finset.sum_lt_sum (fun x _ => ?_) ⟨p, hp, ?_⟩) _
  · by_cases hx : x = p
    · cases hx
      simp only [cost, Function.update_self]
      split <;> omega
    · simp only [cost, Function.update_of_ne hx, le_refl]
  · simp only [cost, Function.update_self, List.mem_append, List.mem_cons, true_or, or_true,
      if_true]
    omega

theorem remaining_descend (succ : α → List α) (next : α → Nat) (hd : d ∈ nodes)
    (hmem : d ∉ done ++ p :: rest) :
    remaining succ nodes done (d :: p :: rest) (Function.update next d 0) <
      remaining succ nodes done (p :: rest) next := by
  have hcost : ∀ x, x ≠ d → cost succ (done ++ d :: p :: rest) (Function.update next d 0) x =
      cost succ (done ++ p :: rest) next x := by
    intro x hx
    have hiff : x ∈ done ++ d :: p :: rest ↔ x ∈ done ++ p :: rest := by simp [hx]
    simp only [cost, hiff, Function.update_of_ne hx]
  have hnew : cost succ (done ++ d :: p :: rest) (Function.update next d 0) d + 2 =
      cost succ (done ++ p :: rest) next d := by
    simp [cost, hmem]
  have hrest :
      ∑ x ∈ nodes.erase d, cost succ (done ++ d :: p :: rest) (Function.update next d 0) x =
        ∑ x ∈ nodes.erase d, cost succ (done ++ p :: rest) next x :=
    Finset.sum_congr rfl fun x hx => hcost x (Finset.ne_of_mem_erase hx)
  have h₁ := Finset.add_sum_erase nodes
    (cost succ (done ++ d :: p :: rest) (Function.update next d 0)) hd
  have h₂ := Finset.add_sum_erase nodes (cost succ (done ++ p :: rest) next) hd
  simp only [remaining, List.length_cons]
  omega

theorem remaining_finish (succ : α → List α) (nodes : Finset α) (done rest : List α) (p : α)
    (next : α → Nat) :
    remaining succ nodes (done ++ [p]) rest next < remaining succ nodes done (p :: rest) next := by
  have hassoc : done ++ [p] ++ rest = done ++ p :: rest := by
    rw [List.append_assoc, List.singleton_append]
  simp only [remaining, hassoc, List.length_cons]
  omega

end Infra.DepthFirst
