import Mathlib.Data.Finset.Card
import OpenHarmonyMac.Infra.DepthFirst

/-!
# Breadth first search in a list that grows

The list starts with some nodes. For each position in turn, the successors of the node there that
the list does not have yet are put behind it.

* `addNew` — what one node adds
* `Grown` — what the list is, whatever positions have been gone through
* `Sweep` — what the list is when the positions in front of `i` have been gone through
* `Sweep.mem_iff` — at the end the list is what the start reaches
-/

namespace Infra.BreadthFirst

open DepthFirst (Reach)

variable {α : Type*} {succ : α → List α} {start l ds : List α} {i : Nat} {x y d : α}

/-- The list when some positions have been gone through. -/
structure Grown (succ : α → List α) (start l : List α) : Prop where
  added : ∃ new, l = start ++ new ∧ new.Nodup ∧ ∀ x ∈ new, x ∉ start
  reach : ∀ x ∈ l, ∃ y ∈ start, Reach succ y x

/-- The list when the positions in front of `i` have been gone through. -/
structure Sweep (succ : α → List α) (start l : List α) (i : Nat) : Prop
    extends Grown succ start l where
  closed : ∀ x ∈ l.take i, ∀ y ∈ succ x, y ∈ l

namespace Grown

/-- The successors of one node grow to what lies one step or more behind it. -/
theorem transGen {p : α} (h : Grown succ (succ p) l) (hx : x ∈ l) :
    Relation.TransGen (fun a b => b ∈ succ a) p x :=
  Relation.TransGen.head'_iff.mpr (h.reach x hx)

/-- The list has no more new nodes than there are. -/
theorem length_le [DecidableEq α] (nodes : Finset α) (h : Grown succ start l)
    (hnodes : ∀ x ∈ l, x ∈ nodes) : l.length ≤ start.length + nodes.card := by
  obtain ⟨new, rfl, hnodup, _⟩ := h.added
  rw [List.length_append, ← List.toFinset_card_of_nodup hnodup]
  refine Nat.add_le_add_left (Finset.card_le_card fun x hx => hnodes x ?_) _
  exact List.mem_append_right _ (List.mem_toFinset.mp hx)

end Grown

namespace Sweep

theorem initial (start : List α) : Sweep succ start start 0 where
  added := ⟨[], by simp⟩
  reach x hx := ⟨x, hx, .refl⟩
  closed x hx := by simp at hx

/-- When all positions have been gone through, the list is what the start reaches. -/
theorem mem_iff (h : Sweep succ start l i) (hi : l.length ≤ i) :
    x ∈ l ↔ ∃ y ∈ start, Reach succ y x := by
  constructor
  · exact h.reach x
  · rintro ⟨y, hy, hyx⟩
    induction hyx with
    | refl =>
      obtain ⟨new, rfl, _⟩ := h.added
      exact List.mem_append_left _ hy
    | tail _ hz ih => exact h.closed _ (by rwa [List.take_of_length_le hi]) _ hz

/-- The successors of one node start a sweep that finds what lies one step or more behind it. -/
theorem mem_iff_transGen {p : α} (h : Sweep succ (succ p) l i) (hi : l.length ≤ i) :
    x ∈ l ↔ Relation.TransGen (fun a b => b ∈ succ a) p x :=
  (h.mem_iff hi).trans (Relation.TransGen.head'_iff (r := fun a b => b ∈ succ a)).symm

end Sweep

/-! ## One step -/

variable [DecidableEq α]

/-- The nodes of `ds` that are new go behind the list. -/
def addNew (l ds : List α) : List α := ds.foldl (fun l d => if d ∈ l then l else l ++ [d]) l

@[simp] theorem addNew_nil (l : List α) : addNew l [] = l := rfl

theorem addNew_cons (l ds : List α) (d : α) :
    addNew l (d :: ds) = addNew (if d ∈ l then l else l ++ [d]) ds := rfl

/-- What is added is new, each once, and nothing else is missing. -/
theorem addNew_eq (l ds : List α) : ∃ new, addNew l ds = l ++ new ∧ new.Nodup ∧
    (∀ x ∈ new, x ∉ l) ∧ (∀ x ∈ new, x ∈ ds) ∧ ∀ x ∈ ds, x ∈ l ++ new := by
  induction ds generalizing l with
  | nil => exact ⟨[], by simp⟩
  | cons d ds ih =>
    rw [addNew_cons]
    split
    · next hd =>
      obtain ⟨new, heq, hnodup, hnew, hsub, hall⟩ := ih l
      refine ⟨new, heq, hnodup, hnew, fun x hx => List.mem_cons_of_mem d (hsub x hx), ?_⟩
      exact List.forall_mem_cons.mpr ⟨List.mem_append_left _ hd, hall⟩
    · next hd =>
      obtain ⟨new, heq, hnodup, hnew, hsub, hall⟩ := ih (l ++ [d])
      have hassoc : l ++ [d] ++ new = l ++ d :: new := by simp
      refine ⟨d :: new, by rw [heq, hassoc],
        List.nodup_cons.mpr ⟨fun h => hnew d h (by simp), hnodup⟩,
        List.forall_mem_cons.mpr ⟨hd, fun x hx h => hnew x hx (List.mem_append_left _ h)⟩,
        List.forall_mem_cons.mpr
          ⟨List.mem_cons_self, fun x hx => List.mem_cons_of_mem d (hsub x hx)⟩,
        List.forall_mem_cons.mpr ⟨by simp, fun x hx => hassoc ▸ hall x hx⟩⟩

/-- A node of the list adds its successors. -/
theorem Grown.step (h : Grown succ start l) (hx : x ∈ l) :
    Grown succ start (addNew l (succ x)) := by
  obtain ⟨new, rfl, hnodup, hnew⟩ := h.added
  obtain ⟨new', heq, hnodup', hnew', hsub, -⟩ := addNew_eq (start ++ new) (succ x)
  rw [heq]
  refine ⟨⟨new ++ new', by rw [List.append_assoc], ?_, ?_⟩, ?_⟩
  · refine List.Nodup.append hnodup hnodup' fun z hz hz' => ?_
    exact hnew' z hz' (List.mem_append_right _ hz)
  · intro z hz
    rcases List.mem_append.mp hz with hz | hz
    · exact hnew z hz
    · exact fun hs => hnew' z hz (List.mem_append_left _ hs)
  · intro z hz
    rcases List.mem_append.mp hz with hz | hz
    · exact h.reach z hz
    · obtain ⟨y, hy, hyx⟩ := h.reach x hx
      exact ⟨y, hy, hyx.tail (hsub z hz)⟩

/-- The node at position `i` adds its successors. -/
theorem Sweep.step (h : Sweep succ start l i) (hx : l[i]? = some x) :
    Sweep succ start (addNew l (succ x)) (i + 1) := by
  refine ⟨h.toGrown.step (List.mem_of_getElem? hx), ?_⟩
  obtain ⟨new, heq, -, -, -, hall⟩ := addNew_eq l (succ x)
  intro z hz y hy
  have hi : i < l.length := (List.getElem?_eq_some_iff.mp hx).1
  rw [heq] at hz ⊢
  rw [List.take_append_of_le_length hi, List.take_add_one, hx, Option.toList_some,
    List.mem_append, List.mem_singleton] at hz
  rcases hz with hz | rfl
  · exact List.mem_append_left _ (h.closed z hz y hy)
  · exact hall y hy

end Infra.BreadthFirst
