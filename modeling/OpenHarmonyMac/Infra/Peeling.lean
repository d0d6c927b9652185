import Mathlib.Algebra.BigOperators.Group.Finset.Basic
import Mathlib.Data.Finset.Card
import Mathlib.Data.List.Basic
import Mathlib.Logic.Function.Basic

/-!
# Peeling a graph from a root

A node is taken when all its parents have been, from a root on. The parents that are left are
crossed out one by one, and a node that has none left waits in a queue.

* `peel` — the queue, gone through
* `Peeled` — what is taken at the end, in which order
* `Peeled.mem_iff` — it is what the root and the condition generate
* `Peeled.mem_of_forall` — on well founded parents, it is all that has the condition throughout
-/

namespace Infra.Peeling

variable {α : Type*}

/-- What waits, what has been taken, and the parents that are left of each node. -/
structure State (α : Type*) where
  queue : List α
  taken : List α
  parents : α → List α

/-- What is taken from the root `p`: a node other than the root must be free, and comes behind all
its parents. -/
structure Peeled (par succ : α → List α) (free : α → Bool) (p : α) (l : List α) : Prop where
  nodup : l.Nodup
  root : p ∈ l
  ordered : ∀ l₁ x l₂, l = l₁ ++ x :: l₂ → x = p ∨ free x = true ∧ par x ≠ [] ∧ ∀ y ∈ par x, y ∈ l₁
  closed : ∀ y ∈ l, ∀ x ∈ succ y, free x = true → (∀ z ∈ par x, z ∈ l) → x ∈ l

/-- What the root and the condition generate. -/
inductive Generated (par : α → List α) (free : α → Bool) (p : α) : α → Prop
  | root : Generated par free p p
  | node {x : α} (hfree : free x = true) (hne : par x ≠ [])
      (hpar : ∀ y ∈ par x, Generated par free p y) : Generated par free p x

section Peeled

variable {par succ : α → List α} {free : α → Bool} {p x : α} {l : List α}

theorem Peeled.mem_iff (h : Peeled par succ free p l) (hsucc : ∀ x, ∀ y ∈ par x, x ∈ succ y) :
    x ∈ l ↔ Generated par free p x := by
  constructor
  · -- by the position in the list, since the parents of a node come before it
    have hpos : ∀ (n : Nat) (x : α), (∃ l₁ l₂, l = l₁ ++ x :: l₂ ∧ l₁.length ≤ n) →
        Generated par free p x := by
      intro n
      induction n with
      | zero =>
        rintro x ⟨l₁, l₂, hl, hlen⟩
        rcases h.ordered l₁ x l₂ hl with rfl | ⟨-, hne, hpar⟩
        · exact Generated.root
        · obtain ⟨y, hy⟩ := List.exists_mem_of_ne_nil _ hne
          have hy₁ := hpar y hy
          rw [List.eq_nil_of_length_eq_zero (Nat.le_zero.mp hlen)] at hy₁
          cases hy₁
      | succ n ih =>
        rintro x ⟨l₁, l₂, hl, hlen⟩
        rcases h.ordered l₁ x l₂ hl with rfl | ⟨hfree, hne, hpar⟩
        · exact Generated.root
        · refine Generated.node hfree hne fun y hy => ih y ?_
          obtain ⟨l₃, l₄, hl₁⟩ := List.append_of_mem (hpar y hy)
          refine ⟨l₃, l₄ ++ x :: l₂, by rw [hl, hl₁, List.append_assoc, List.cons_append], ?_⟩
          rw [hl₁, List.length_append, List.length_cons] at hlen
          omega
    intro hx
    obtain ⟨l₁, l₂, hl⟩ := List.append_of_mem hx
    exact hpos l₁.length x ⟨l₁, l₂, hl, Nat.le_refl _⟩
  · intro hx
    induction hx with
    | root => exact h.root
    | @node x hfree hne _ ih =>
      obtain ⟨y, hy⟩ := List.exists_mem_of_ne_nil _ hne
      exact h.closed y (ih y hy) x (hsucc x y hy) hfree ih

/-- Where no chain of parents goes on for ever, what has the condition throughout is taken. -/
theorem Peeled.mem_of_forall (h : Peeled par succ free p l)
    (hsucc : ∀ x, ∀ y ∈ par x, x ∈ succ y) (hwf : WellFounded fun y x => y ∈ par x) {Z : α → Prop}
    (hZ : ∀ x, Z x → x = p ∨ free x = true ∧ par x ≠ [] ∧ ∀ y ∈ par x, Z y) (hx : Z x) : x ∈ l := by
  rw [h.mem_iff hsucc]
  induction x using hwf.induction with
  | _ x ih =>
    rcases hZ x hx with rfl | ⟨hfree, hne, hpar⟩
    · exact Generated.root
    · exact Generated.node hfree hne fun y hy => ih y hy (hpar y hy)

end Peeled

/-! ## The queue -/

variable [DecidableEq α]

/-- `cur` is crossed out among the parents of `d`, which joins the queue when none is left. -/
def release (free : α → Bool) (cur : α) (s : State α) (d : α) : State α :=
  if (s.parents d).erase cur = [] ∧ free d = true ∧ d ∉ s.queue then
    { s with
      queue := s.queue ++ [d]
      parents := Function.update s.parents d ((s.parents d).erase cur) }
  else { s with parents := Function.update s.parents d ((s.parents d).erase cur) }

/-- The queue is gone through, for as many turns as there is fuel. -/
def peel (free : α → Bool) (succ : α → List α) : Nat → State α → Option (State α)
  | 0, _ => none
  | fuel + 1, s =>
    match s.queue with
    | [] => some s
    | cur :: queue =>
      if cur ∈ s.taken then peel free succ fuel { s with queue := queue }
      else
        peel free succ fuel
          ((succ cur).foldl (release free cur) { s with queue := queue, taken := s.taken ++ [cur] })

variable {par succ : α → List α} {free : α → Bool} {p cur d : α} {s : State α} {ds : List α}

@[simp] theorem taken_release : (release free cur s d).taken = s.taken := by
  unfold release
  split <;> rfl

theorem parents_release : (release free cur s d).parents =
    Function.update s.parents d ((s.parents d).erase cur) := by
  unfold release
  split <;> rfl

/-- What the loop over the successors of `cur` does. -/
theorem foldl_release (free : α → Bool) (cur : α) (ds : List α) (s : State α)
    (hnodup : ∀ x, (s.parents x).Nodup) :
    (ds.foldl (release free cur) s).taken = s.taken ∧
      (∀ x, (ds.foldl (release free cur) s).parents x =
        if x ∈ ds then (s.parents x).erase cur else s.parents x) ∧
      ∃ new, (ds.foldl (release free cur) s).queue = s.queue ++ new ∧ new.length ≤ ds.length ∧
        (∀ x ∈ new, x ∈ ds ∧ free x = true ∧ (s.parents x).erase cur = []) ∧
        ∀ x ∈ ds, free x = true → (s.parents x).erase cur = [] → x ∈ s.queue ++ new := by
  induction ds generalizing s with
  | nil => exact ⟨rfl, fun x => rfl, [], by simp⟩
  | cons d ds ih =>
    have hparents : ∀ x, (release free cur s d).parents x =
        if x = d then (s.parents x).erase cur else s.parents x := by
      intro x
      rw [parents_release]
      by_cases hx : x = d
      · rw [hx, Function.update_self, if_pos rfl]
      · rw [Function.update_of_ne hx, if_neg hx]
    have hagain : ∀ x, ((release free cur s d).parents x).erase cur = (s.parents x).erase cur := by
      intro x
      rw [hparents]
      split
      · exact List.erase_of_not_mem (hnodup x).not_mem_erase
      · rfl
    have hnodup' : ∀ x, ((release free cur s d).parents x).Nodup := by
      intro x
      rw [hparents]
      split
      · exact (hnodup x).erase cur
      · exact hnodup x
    obtain ⟨htaken, hpar, new, hqueue, hlen, hnew, hall⟩ := ih _ hnodup'
    simp only [hagain] at hpar hnew hall
    refine ⟨htaken.trans taken_release, fun x => ?_, ?_⟩
    · rw [List.foldl_cons, hpar, hparents]
      by_cases hx : x ∈ ds
      · rw [if_pos hx, if_pos (List.mem_cons_of_mem d hx)]
      · by_cases hd : x = d
        · rw [if_neg hx, if_pos hd, if_pos (hd ▸ List.mem_cons_self)]
        · rw [if_neg hx, if_neg hd, if_neg (by simp [hd, hx])]
    · rw [List.foldl_cons, hqueue]
      by_cases hjoin : (s.parents d).erase cur = [] ∧ free d = true ∧ d ∉ s.queue
      · have hrelease : (release free cur s d).queue = s.queue ++ [d] := by
          unfold release
          rw [if_pos hjoin]
        rw [hrelease, List.append_assoc, List.singleton_append] at hall ⊢
        refine ⟨d :: new, rfl, Nat.succ_le_succ hlen, ?_, ?_⟩
        · rw [List.forall_mem_cons]
          refine ⟨⟨List.mem_cons_self, hjoin.2.1, hjoin.1⟩, fun x hx => ?_⟩
          obtain ⟨hmem, hfree, hnil⟩ := hnew x hx
          exact ⟨List.mem_cons_of_mem d hmem, hfree, hnil⟩
        · rw [List.forall_mem_cons]
          refine ⟨fun _ _ => List.mem_append_right _ List.mem_cons_self, fun x hx => hall x hx⟩
      · have hrelease : (release free cur s d).queue = s.queue := by
          unfold release
          rw [if_neg hjoin]
        rw [hrelease] at hall ⊢
        refine ⟨new, rfl, Nat.le_succ_of_le hlen, fun x hx => ?_, ?_⟩
        · obtain ⟨hmem, hfree, hnil⟩ := hnew x hx
          exact ⟨List.mem_cons_of_mem d hmem, hfree, hnil⟩
        · rw [List.forall_mem_cons]
          refine ⟨fun hfree hnil => List.mem_append_left _ ?_, fun x hx => hall x hx⟩
          by_contra hnot
          exact hjoin ⟨hnil, hfree, hnot⟩

/-! ## What holds between two turns -/

/-- The parents know their successors, and the nodes know their parents. -/
structure Graph (par succ : α → List α) (nodes : Finset α) : Prop where
  nodup : ∀ x, (par x).Nodup
  succ_of_mem : ∀ x, ∀ y ∈ par x, x ∈ succ y
  mem_par : ∀ y ∈ nodes, ∀ x ∈ succ y, y ∈ par x
  inside : ∀ y ∈ nodes, ∀ x ∈ succ y, x ∈ nodes

structure Invariant (par succ : α → List α) (free : α → Bool) (p : α) (nodes : Finset α)
    (s : State α) : Prop where
  nodup : s.taken.Nodup
  root : p ∈ s.taken ∨ p ∈ s.queue
  left : ∀ x, s.parents x = (par x).filter (· ∉ s.taken)
  queued : ∀ x ∈ s.queue, x = p ∨ free x = true ∧ par x ≠ [] ∧ ∀ y ∈ par x, y ∈ s.taken
  ordered : ∀ l₁ x l₂, s.taken = l₁ ++ x :: l₂ →
    x = p ∨ free x = true ∧ par x ≠ [] ∧ ∀ y ∈ par x, y ∈ l₁
  closed : ∀ y ∈ s.taken, ∀ x ∈ succ y, free x = true → (∀ z ∈ par x, z ∈ s.taken) →
    x ∈ s.taken ∨ x ∈ s.queue
  inside : ∀ x, x ∈ s.taken ∨ x ∈ s.queue → x ∈ nodes

variable {nodes : Finset α} {queue : List α}

theorem Invariant.initial (hp : p ∈ nodes) :
    Invariant par succ free p nodes { queue := [p], taken := [], parents := par } where
  nodup := List.nodup_nil
  root := Or.inr List.mem_cons_self
  left x := by simp
  queued x hx := Or.inl (List.mem_singleton.mp hx)
  ordered l₁ x l₂ h := by simp at h
  closed y hy := by simp at hy
  inside x hx := by simpa using hx.elim (by simp) (fun h => List.mem_singleton.mp h ▸ hp)

/-- A node that has been taken is skipped. -/
theorem Invariant.skip (h : Invariant par succ free p nodes s) (hqueue : s.queue = cur :: queue)
    (hcur : cur ∈ s.taken) : Invariant par succ free p nodes { s with queue := queue } := by
  have hrest : ∀ {x}, x ∈ s.queue → x ∈ s.taken ∨ x ∈ queue := by
    intro x hx
    rw [hqueue, List.mem_cons] at hx
    rcases hx with rfl | hx
    · exact Or.inl hcur
    · exact Or.inr hx
  have hsub : ∀ {x}, x ∈ queue → x ∈ s.queue := fun hx => hqueue ▸ List.mem_cons_of_mem cur hx
  exact ⟨h.nodup, h.root.elim Or.inl hrest, h.left, fun x hx => h.queued x (hsub hx), h.ordered,
    fun y hy x hx hfree hpar => (h.closed y hy x hx hfree hpar).elim Or.inl hrest,
    fun x hx => h.inside x (hx.imp_right hsub)⟩

/-- A node is taken, and crossed out. -/
theorem Invariant.take (hg : Graph par succ nodes) (h : Invariant par succ free p nodes s)
    (hqueue : s.queue = cur :: queue) (hcur : cur ∉ s.taken) :
    Invariant par succ free p nodes
      ((succ cur).foldl (release free cur)
        { s with queue := queue, taken := s.taken ++ [cur] }) := by
  have hnodup : ∀ x, (s.parents x).Nodup := by
    intro x
    rw [h.left]
    exact (hg.nodup x).filter _
  have hcurnodes : cur ∈ nodes := h.inside cur (Or.inr (hqueue ▸ List.mem_cons_self))
  obtain ⟨htaken, hparents, new, hnewqueue, -, hnew, hall⟩ := foldl_release free cur
    (succ cur) { s with queue := queue, taken := s.taken ++ [cur] } hnodup
  generalize (succ cur).foldl (release free cur)
    { s with queue := queue, taken := s.taken ++ [cur] } = t at *
  have hmem : ∀ {x}, x ∈ t.taken ↔ x ∈ s.taken ∨ x = cur := by
    intro x
    rw [htaken, List.mem_append, List.mem_singleton]
  have herase : ∀ x, (s.parents x).erase cur = (par x).filter (· ∉ t.taken) := by
    intro x
    rw [(hnodup x).erase_eq_filter, h.left, List.filter_filter]
    refine List.filter_congr fun y _ => ?_
    by_cases heq : y = cur <;> simp [hmem, heq]
  have hnil : ∀ {x}, (s.parents x).erase cur = [] ↔ ∀ y ∈ par x, y ∈ t.taken := by
    intro x
    rw [herase, List.filter_eq_nil_iff]
    simp
  have hqueued : ∀ {x}, x ∈ t.queue → x ∈ queue ∨ x ∈ new := by
    intro x hx
    rwa [hnewqueue, List.mem_append] at hx
  have hsub : ∀ {x}, x ∈ queue → x ∈ s.queue := fun hx => hqueue ▸ List.mem_cons_of_mem cur hx
  refine ⟨?_, ?_, fun x => ?_, fun x hx => ?_, fun l₁ x l₂ hl => ?_, fun y hy x hx hfree hpar => ?_,
    fun x hx => ?_⟩
  · rw [htaken]
    exact List.Nodup.append h.nodup (List.nodup_singleton cur)
      (List.disjoint_singleton.mpr hcur)
  · rcases h.root with hp | hp
    · exact Or.inl (hmem.mpr (Or.inl hp))
    · rw [hqueue, List.mem_cons] at hp
      rcases hp with rfl | hp
      · exact Or.inl (hmem.mpr (Or.inr rfl))
      · exact Or.inr (hnewqueue ▸ List.mem_append_left _ hp)
  · rw [hparents]
    split
    · exact herase x
    · next hx =>
      -- a node that is no successor of `cur` does not have it among its parents
      have hcurpar : cur ∉ par x := fun hpar => hx (hg.succ_of_mem x cur hpar)
      rw [h.left]
      refine List.filter_congr fun y hy => ?_
      have hne : y ≠ cur := fun heq => hcurpar (heq ▸ hy)
      simp [hmem, hne]
  · rcases hqueued hx with hx | hx
    · rcases h.queued x (hsub hx) with hroot | ⟨hfree, hne, hpar⟩
      · exact Or.inl hroot
      · exact Or.inr ⟨hfree, hne, fun y hy => hmem.mpr (Or.inl (hpar y hy))⟩
    · obtain ⟨hsucc, hfree, hpar⟩ := hnew x hx
      have hcurpar := hg.mem_par cur hcurnodes x hsucc
      exact Or.inr ⟨hfree, List.ne_nil_of_mem hcurpar, hnil.mp hpar⟩
  · rw [htaken] at hl
    rcases List.append_eq_append_iff.mp hl with ⟨m, hl₁, hcur'⟩ | ⟨m, hl₁, hcur'⟩
    · rcases List.singleton_eq_append_iff.mp hcur' with ⟨hm, hx⟩ | ⟨hm, hx⟩
      · rw [hm, List.append_nil] at hl₁
        have hxcur : x = cur := (List.cons.inj hx).1
        rw [hxcur, hl₁]
        exact h.queued cur (hqueue ▸ List.mem_cons_self)
      · cases hx
    · cases m with
      | nil =>
        have hxcur : x = cur := (List.cons.inj hcur').1
        rw [List.append_nil] at hl₁
        rw [hxcur, ← hl₁]
        exact h.queued cur (hqueue ▸ List.mem_cons_self)
      | cons z m =>
        obtain ⟨rfl, -⟩ := List.cons.inj hcur'
        exact h.ordered l₁ x m hl₁
  · by_cases hcurx : x ∈ succ cur
    · have := hall x hcurx hfree (hnil.mpr hpar)
      exact Or.inr (hnewqueue ▸ this)
    · have hy' : y ∈ s.taken := (hmem.mp hy).resolve_right fun heq => hcurx (heq ▸ hx)
      have hpar' : ∀ z ∈ par x, z ∈ s.taken := fun z hz =>
        (hmem.mp (hpar z hz)).resolve_right fun heq => hcurx (hg.succ_of_mem x cur (heq ▸ hz))
      rcases h.closed y hy' x hx hfree hpar' with hx | hx
      · exact Or.inl (hmem.mpr (Or.inl hx))
      · rw [hqueue, List.mem_cons] at hx
        rcases hx with rfl | hx
        · exact Or.inl (hmem.mpr (Or.inr rfl))
        · exact Or.inr (hnewqueue ▸ List.mem_append_left _ hx)
  · rcases hx with hx | hx
    · rcases hmem.mp hx with hx | rfl
      · exact h.inside x (Or.inl hx)
      · exact hcurnodes
    · rcases hqueued hx with hx | hx
      · exact h.inside x (Or.inr (hsub hx))
      · exact hg.inside cur hcurnodes x (hnew x hx).1

/-! ## All turns -/

/-- The turns that are left at most. -/
def turns (succ : α → List α) (nodes : Finset α) (s : State α) : Nat :=
  s.queue.length + ∑ x ∈ nodes.filter (· ∉ s.taken), (succ x).length

theorem turns_take (hg : Graph par succ nodes) (h : Invariant par succ free p nodes s)
    (hqueue : s.queue = cur :: queue) (hcur : cur ∉ s.taken) :
    turns succ nodes ((succ cur).foldl (release free cur)
      { s with queue := queue, taken := s.taken ++ [cur] }) < turns succ nodes s := by
  have hnodup : ∀ x, (s.parents x).Nodup := by
    intro x
    rw [h.left]
    exact (hg.nodup x).filter _
  obtain ⟨htaken, -, new, hnewqueue, hlen, -⟩ := foldl_release free cur
    (succ cur) { s with queue := queue, taken := s.taken ++ [cur] } hnodup
  have hcurnodes : cur ∈ nodes.filter (· ∉ s.taken) := by
    rw [Finset.mem_filter]
    exact ⟨h.inside cur (Or.inr (hqueue ▸ List.mem_cons_self)), hcur⟩
  have hrest : nodes.filter (· ∉ s.taken ++ [cur]) = (nodes.filter (· ∉ s.taken)).erase cur := by
    ext x
    simp [and_left_comm, and_comm]
  have hsum := Finset.add_sum_erase _ (fun x => (succ x).length) hcurnodes
  unfold turns
  rw [htaken, hnewqueue, hrest, hqueue, List.length_append, List.length_cons]
  show queue.length + new.length + _ < _
  omega

/-- With fuel for all turns, what is taken is as it should be, and no more parents are left than
those that have not been taken. -/
theorem peel_peeled (hg : Graph par succ nodes) : ∀ (fuel : Nat) (s : State α),
    Invariant par succ free p nodes s → turns succ nodes s < fuel →
      ∃ t, peel free succ fuel s = some t ∧ Peeled par succ free p t.taken ∧
        (∀ x, t.parents x = (par x).filter (· ∉ t.taken)) ∧ ∀ x ∈ t.taken, x ∈ nodes := by
  intro fuel
  induction fuel with
  | zero => exact fun s _ hturns => absurd hturns (Nat.not_lt_zero _)
  | succ fuel ih =>
    intro s h hturns
    rw [peel]
    cases hqueue : s.queue with
    | nil =>
      refine ⟨s, rfl, ⟨h.nodup, ?_, h.ordered, fun y hy x hx hfree hpar => ?_⟩, h.left,
        fun x hx => h.inside x (Or.inl hx)⟩
      · exact h.root.resolve_right (by simp [hqueue])
      · exact (h.closed y hy x hx hfree hpar).resolve_right (by simp [hqueue])
    | cons cur queue =>
      simp only
      by_cases hcur : cur ∈ s.taken
      · rw [if_pos hcur]
        refine ih _ (h.skip hqueue hcur) ?_
        unfold turns at hturns
        rw [hqueue, List.length_cons] at hturns
        show queue.length + ∑ x ∈ nodes.filter (· ∉ s.taken), (succ x).length < fuel
        omega
      · rw [if_neg hcur]
        have hlt := turns_take hg h hqueue hcur
        exact ih _ (h.take hg hqueue hcur) (by omega)

end Infra.Peeling
