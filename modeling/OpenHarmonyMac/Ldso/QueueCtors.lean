import OpenHarmonyMac.Ldso.Dso

/-!
# The order of constructors

`queue_ctors` sorts the objects that an object needs, so that their constructors can run in order.
One buffer holds both the queue, which grows from its start, and the stack of the search, which
grows from its end.

* `Walk` — the buffer, with the ends of the queue and of the stack
* `Loader.queueCtors` — the function
* `queueCtors_cases` — what it does to well formed objects
-/

namespace Ldso

open Infra DepthFirst

variable {δ : Type} [DecidableEq δ]

/-- The state of `queue_ctors`: the objects, the buffer, `qpos` and `spos`. -/
structure Walk (δ : Type) where
  objects : Loader δ
  buf : List (Option δ)
  qpos : Nat
  spos : Nat

namespace Walk

variable (w : Walk δ)

/-- `stack[--spos] = d` -/
def push (d : δ) : Except Stop (Walk δ) :=
  if w.spos = 0 then .error .badAccess
  else .ok { w with buf := w.buf.set (w.spos - 1) (some d), spos := w.spos - 1 }

/-- `p = stack[spos++]` -/
def pop : Except Stop (δ × Walk δ) :=
  match w.buf[w.spos]? with
  | some (some p) => .ok (p, { w with spos := w.spos + 1 })
  | _ => .error .badAccess

/-- `queue[qpos++] = p` -/
def enqueue (p : δ) : Except Stop (Walk δ) :=
  if w.qpos < w.buf.length then
    .ok { w with buf := w.buf.set w.qpos (some p), qpos := w.qpos + 1 }
  else .error .badAccess

def setNextDep (d : δ) (n : Nat) : Walk δ :=
  { w with objects := w.objects.update d fun o => { o with nextDep := n } }

def setMark (d : δ) : Walk δ := { w with objects := w.objects.setMark d true }

/-- The inner loop, which goes down from `p` until all direct dependencies of the current object
have been looked at. -/
def visit : Nat → Walk δ → δ → Except Stop (Walk δ × δ)
  | 0, _, _ => .error .outOfFuel
  | fuel + 1, w, p =>
    if (w.objects.dso p).nextDep < (w.objects.dso p).ndepsDirect then
      match (w.objects.dso p).deps[(w.objects.dso p).nextDep]? with
      | none => .error .badAccess
      | some d =>
        if (w.objects.dso d).mark then
          visit fuel (w.setNextDep p ((w.objects.dso p).nextDep + 1)) p
        else
          match w.push p with
          | .error e => .error e
          | .ok w => visit fuel ((w.setNextDep d 0).setMark d) d
    else .ok (w, p)

/-- The outer loop. -/
def sort : Nat → Walk δ → Except Stop (Walk δ)
  | 0, _ => .error .outOfFuel
  | fuel + 1, w =>
    if w.spos < w.buf.length then
      match w.pop with
      | .error e => .error e
      | .ok (p, w) =>
        match visit fuel w p with
        | .error e => .error e
        | .ok (w, p) =>
          match w.enqueue p with
          | .error e => .error e
          | .ok w => sort fuel w
    else .ok w

end Walk

/-- What stands in a queue in front of its `NULL`. -/
def entries : List (Option δ) → List δ
  | some d :: rest => d :: entries rest
  | _ => []

namespace Loader

/-- The number of slots that the buffer gets. -/
def ctorSlots (s : Loader δ) (p : δ) : Nat :=
  (if (s.dso p).bfsBuilt then (s.dso p).deps.length + 1 else s.list.length) + 1

/-- `countof(builtin_ctor_queue)` -/
def builtinSlots : Nat := 4

/-- `queue_ctors`. There is no queue when the objects are only listed, or when there is no memory
for it. -/
def queueCtors (lddMode calloc runtime : Bool) (fuel : Nat) (s : Loader δ) (p : δ) :
    Except Stop (Loader δ × Option (List (Option δ))) :=
  if lddMode then .ok (s, none)
  else
    let s' := s.clearMarks (if (s.dso p).bfsBuilt then (s.dso p).deps else s.list)
    let cnt := s.ctorSlots p
    if ¬ ((s.list.head? = some p ∧ cnt ≤ builtinSlots) ∨ calloc) then
      if runtime then .error .rtldFail else .ok (s', none)
    else
      match (Walk.mk s' (List.replicate cnt none) 0 cnt).push p with
      | .error e => .error e
      | .ok w =>
        match Walk.sort fuel ((w.setNextDep p 0).setMark p) with
        | .error e => .error e
        | .ok w =>
          if w.qpos < w.buf.length then
            .ok (w.objects.clearMarks ((w.buf.take w.qpos).filterMap id),
              some (w.buf.set w.qpos none))
          else .error .badAccess

end Loader

/-! ## The buffer -/

/-- The queue and the stack in the buffer. -/
structure Holds (w : Walk δ) (done stack : List δ) : Prop where
  buf : ∃ gap, w.buf = done.map some ++ gap ++ stack.map some
  qpos : w.qpos = done.length
  spos : w.spos + stack.length = w.buf.length

variable {w v : Walk δ} {done stack : List δ} {p d : δ}

omit [DecidableEq δ] in
theorem Holds.push (h : Holds w done stack) (hroom : done.length + stack.length < w.buf.length) :
    ∃ w', w.push p = .ok w' ∧ Holds w' done (p :: stack) ∧ w'.objects = w.objects ∧
      w'.buf.length = w.buf.length := by
  obtain ⟨gap, hbuf⟩ := h.buf
  have hspos := h.spos
  have hlen : w.buf.length = done.length + gap.length + stack.length := by
    simp [hbuf, Nat.add_assoc]
  rcases List.eq_nil_or_concat gap with rfl | ⟨gap, x, rfl⟩
  · simp at hlen
    omega
  have hsplit : w.buf = (done.map some ++ gap) ++ x :: stack.map some := by simp [hbuf]
  have hpos : w.spos - 1 = (done.map some ++ gap).length := by
    simp at hlen ⊢
    omega
  refine ⟨_, if_neg (by simp at hlen; omega), ⟨⟨gap, ?_⟩, h.qpos, ?_⟩, rfl, List.length_set⟩
  · show w.buf.set (w.spos - 1) (some p) = _
    rw [hpos, hsplit, List.set_append_right _ _ le_rfl]
    simp
  · simp only [List.length_set, List.length_cons]
    omega

omit [DecidableEq δ] in
theorem Holds.pop (h : Holds w done (p :: stack)) :
    ∃ w', w.pop = .ok (p, w') ∧ Holds w' done stack ∧ w'.objects = w.objects ∧ w'.buf = w.buf := by
  obtain ⟨gap, hbuf⟩ := h.buf
  have hspos := h.spos
  have hlen : w.buf.length = done.length + gap.length + (stack.length + 1) := by
    simp [hbuf, Nat.add_assoc]
  have hget : w.buf[w.spos]? = some (some p) := by
    have hpos : w.spos = (done.map some ++ gap).length := by
      simp at hspos ⊢
      omega
    rw [hpos, hbuf, List.getElem?_append_right le_rfl]
    simp
  refine ⟨{ w with spos := w.spos + 1 }, by rw [Walk.pop, hget],
    ⟨⟨gap ++ [some p], by simp [hbuf]⟩, h.qpos, ?_⟩, rfl, rfl⟩
  show w.spos + 1 + stack.length = w.buf.length
  rw [← hspos, List.length_cons]
  omega

omit [DecidableEq δ] in
theorem Holds.enqueue (h : Holds w done stack)
    (hroom : done.length + stack.length < w.buf.length) :
    ∃ w', w.enqueue p = .ok w' ∧ Holds w' (done ++ [p]) stack ∧ w'.objects = w.objects ∧
      w'.buf.length = w.buf.length := by
  obtain ⟨gap, hbuf⟩ := h.buf
  have hspos := h.spos
  have hlen : w.buf.length = done.length + gap.length + stack.length := by
    simp [hbuf, Nat.add_assoc]
  cases gap with
  | nil =>
    simp at hlen
    omega
  | cons x gap =>
    have hq : w.qpos < w.buf.length := by rw [h.qpos]; omega
    refine ⟨_, if_pos hq, ⟨⟨gap, ?_⟩, ?_, ?_⟩, rfl, List.length_set⟩
    · show w.buf.set w.qpos (some p) = _
      rw [h.qpos, hbuf, List.append_assoc, List.set_append_right _ _ (by simp)]
      simp
    · simp [h.qpos]
    · simp only [List.length_set]
      omega

/-! ## The search -/

/-- The same objects but for their marks and the dependency to look at next. -/
structure Same (s t : Loader δ) : Prop where
  list : t.list = s.list
  dso : ∀ e, t.dso e = { s.dso e with mark := (t.dso e).mark, nextDep := (t.dso e).nextDep }

variable {s t : Loader δ} {root c : δ} {path : List δ} {nodes : Finset δ} {fuel : Nat}

omit [DecidableEq δ] in
theorem Same.direct (h : Same s t) : t.direct = s.direct := by
  funext e
  rw [Loader.direct, h.dso e]
  rfl

/-- The search in the buffer and in the objects. The stack holds what is behind the current object
on the path. -/
structure Searching (s : Loader δ) (root : δ) (w : Walk δ) (done path stack : List δ) : Prop where
  holds : Holds w done stack
  search : Search s.direct root done path fun e => (w.objects.dso e).nextDep
  same : Same s w.objects
  marks : ∀ e ∈ s.list, (w.objects.dso e).mark = decide (e ∈ done ++ path)

omit [DecidableEq δ] in
theorem Loader.WellFormed.of_same (h : s.WellFormed) (hst : Same s t)
    (hmark : ∀ e ∈ s.list, (t.dso e).mark = false) : t.WellFormed := by
  intro d hd
  rw [hst.list] at hd
  have hs := h d hd
  have hdirect := hst.direct
  refine ⟨hmark d hd, by rw [hdirect, hst.list]; exact hs.listed, ?_, ?_, ?_, ?_⟩ <;> rw [hst.dso d]
  · exact hs.enough
  · exact hs.plain
  · exact fun hb => (hs.bfs hb).congr hdirect
  · exact fun hb => (hs.all hb).congr hdirect

theorem Same.clearMarks (h : Same s t) (ds : List δ) : Same s (t.clearMarks ds) where
  list := (Loader.list_clearMarks ds t).trans h.list
  dso e := by
    rw [Loader.dso_clearMarks, h.dso e]

theorem nextDep_setNextDep (w : Walk δ) (d : δ) (n : Nat) :
    (fun e => ((w.setNextDep d n).objects.dso e).nextDep) =
      Function.update (fun e => (w.objects.dso e).nextDep) d n := by
  funext e
  by_cases he : e = d
  · cases he
    simp [Walk.setNextDep, Loader.update]
  · simp [Walk.setNextDep, Loader.update, he]

theorem Same.setNextDep (h : Same s w.objects) (n : Nat) : Same s (w.setNextDep d n).objects where
  list := h.list
  dso e := by
    by_cases he : e = d
    · cases he
      simp only [Walk.setNextDep, Loader.update, Function.update_self]
      rw [h.dso d]
    · simpa [Walk.setNextDep, Loader.update, he] using h.dso e

theorem Same.setMark (h : Same s w.objects) : Same s (w.setMark d).objects where
  list := h.list
  dso e := by
    by_cases he : e = d
    · cases he
      simp only [Walk.setMark, Loader.setMark, Loader.update, Function.update_self]
      rw [h.dso d]
    · simpa [Walk.setMark, Loader.setMark, Loader.update, he] using h.dso e

theorem mark_setNextDep (w : Walk δ) (d e : δ) (n : Nat) :
    ((w.setNextDep d n).objects.dso e).mark = (w.objects.dso e).mark := by
  by_cases he : e = d
  · cases he
    simp [Walk.setNextDep, Loader.update]
  · simp [Walk.setNextDep, Loader.update, he]

/-- The next dependency is marked: the search goes on behind it. -/
theorem Searching.advance (h : Searching s root w done (c :: stack) stack)
    (hd : (s.direct c)[(w.objects.dso c).nextDep]? = some d) (hmem : d ∈ done ++ c :: stack) :
    Searching s root (w.setNextDep c ((w.objects.dso c).nextDep + 1)) done (c :: stack) stack where
  holds := ⟨h.holds.buf, h.holds.qpos, h.holds.spos⟩
  search := by
    rw [nextDep_setNextDep]
    exact h.search.advance hd hmem
  same := h.same.setNextDep _
  marks e he := (mark_setNextDep w c e _).trans (h.marks e he)

theorem nextDep_descend (hobj : v.objects = w.objects) (d : δ) :
    (fun e => (((v.setNextDep d 0).setMark d).objects.dso e).nextDep) =
      Function.update (fun e => (w.objects.dso e).nextDep) d 0 := by
  rw [← hobj, ← nextDep_setNextDep]
  funext e
  rw [Walk.setMark, Loader.dso_setMark]
  split <;> rfl

/-- The next dependency is not marked: the search goes down to it. -/
theorem Searching.descend (h : Searching s root w done (c :: stack) stack)
    (hd : (s.direct c)[(w.objects.dso c).nextDep]? = some d) (hmem : d ∉ done ++ c :: stack)
    (hw : Holds v done (c :: stack)) (hobj : v.objects = w.objects) :
    Searching s root ((v.setNextDep d 0).setMark d) done (d :: c :: stack) (c :: stack) where
  holds := ⟨hw.buf, hw.qpos, hw.spos⟩
  search := by
    rw [nextDep_descend hobj]
    exact h.search.descend hd hmem
  same := ((hobj ▸ h.same : Same s v.objects).setNextDep 0).setMark
  marks e he := by
    have hiff : e ∈ done ++ d :: c :: stack ↔ e = d ∨ e ∈ done ++ c :: stack := by
      rw [List.mem_append, List.mem_cons, or_left_comm, ← List.mem_append]
    rw [Walk.setMark, Loader.dso_setMark]
    by_cases hed : e = d
    · simp [hed]
    · rw [if_neg hed, mark_setNextDep, hobj, h.marks e he]
      simp [hed]

/-- The inner loop ends at an object whose direct dependencies have all been reached. -/
theorem visit_searching (h : s.WellFormed) (hroot : root ∈ s.list)
    (hroom : ∀ l : List δ, l.Nodup → (∀ x ∈ l, Reach s.direct root x) → l.length < n) :
    ∀ (fuel : Nat) {w : Walk δ} {c : δ} {stack : List δ},
      Searching s root w done (c :: stack) stack → w.buf.length = n →
      remaining s.direct s.list.toFinset done (c :: stack) (fun e => (w.objects.dso e).nextDep) <
        fuel →
      ∃ w' c' stack', w.visit fuel c = .ok (w', c') ∧
        Searching s root w' done (c' :: stack') stack' ∧ w'.buf.length = n ∧
        (s.direct c').length ≤ (w'.objects.dso c').nextDep ∧
        remaining s.direct s.list.toFinset done (c' :: stack')
            (fun e => (w'.objects.dso e).nextDep) ≤
          remaining s.direct s.list.toFinset done (c :: stack)
            (fun e => (w.objects.dso e).nextDep) := by
  intro fuel
  induction fuel with
  | zero => exact fun _ _ hfuel => absurd hfuel (Nat.not_lt_zero _)
  | succ fuel ih =>
    intro w c stack hs hlen hfuel
    have hreach : ∀ x ∈ done ++ c :: stack, x ∈ s.list := fun x hx =>
      mem_list_of_reach h hroot (hs.search.reach x hx)
    have hc : c ∈ s.list := hreach c (by simp)
    have hfields := hs.same.dso c
    have hdeps : (w.objects.dso c).deps = (s.dso c).deps := by rw [hfields]
    have hcount : (w.objects.dso c).ndepsDirect = (s.dso c).ndepsDirect := by rw [hfields]
    have hdirect : (s.direct c).length = (s.dso c).ndepsDirect := by
      rw [Loader.direct, List.length_take, Nat.min_eq_left (h c hc).enough]
    rw [Walk.visit, hdeps, hcount]
    by_cases hnext : (w.objects.dso c).nextDep < (s.dso c).ndepsDirect
    · obtain ⟨d, hd⟩ : ∃ d, (s.direct c)[(w.objects.dso c).nextDep]? = some d :=
        ⟨_, List.getElem?_eq_getElem (hdirect ▸ hnext)⟩
      have hd' : (s.dso c).deps[(w.objects.dso c).nextDep]? = some d := by
        rw [← hd, Loader.direct, List.getElem?_take_of_lt hnext]
      have hdl : d ∈ s.list := (h c hc).listed d (List.mem_of_getElem? hd)
      rw [if_pos hnext, hd']
      simp only
      by_cases hmem : d ∈ done ++ c :: stack
      · -- the dependency has been reached before
        rw [if_pos (by rw [hs.marks d hdl]; simpa using hmem)]
        have hlt := remaining_advance s.direct done stack
          (fun e => (w.objects.dso e).nextDep) (List.mem_toFinset.mpr hc)
          (by rw [hdirect]; exact hnext)
        rw [← nextDep_setNextDep] at hlt
        obtain ⟨w', c', stack', hv, hs', hlen', hdone, hle⟩ :=
          ih (hs.advance hd hmem) hlen (by omega)
        exact ⟨w', c', stack', hv, hs', hlen', hdone, by omega⟩
      · -- the dependency is new, and there is room for the current object on the stack
        have hspace : done.length + (c :: stack).length < n := by
          rw [← List.length_append]
          exact hroom _ hs.search.nodup hs.search.reach
        obtain ⟨v, hpush, hv, hobj, hvlen⟩ := hs.holds.push (p := c)
          (by rw [hlen]; simp only [List.length_cons] at hspace; omega)
        rw [if_neg (by rw [hs.marks d hdl]; simpa using hmem), hpush]
        have hs' := hs.descend hd hmem hv hobj
        have hlt := remaining_descend s.direct (fun e => (w.objects.dso e).nextDep)
          (List.mem_toFinset.mpr hdl) hmem
        rw [← nextDep_descend hobj] at hlt
        obtain ⟨w', c', stack', hv', hs'', hlen', hdone, hle⟩ :=
          ih hs' (hvlen.trans hlen) (by omega)
        exact ⟨w', c', stack', hv', hs'', hlen', hdone, by omega⟩
    · rw [if_neg hnext]
      exact ⟨w, c, stack, rfl, hs, hlen, by omega, le_rfl⟩

/-- The outer loop ends with an empty stack. -/
theorem sort_searching (h : s.WellFormed) (hroot : root ∈ s.list)
    (hroom : ∀ l : List δ, l.Nodup → (∀ x ∈ l, Reach s.direct root x) → l.length < n) :
    ∀ {fuel : Nat} {w : Walk δ} {done stack : List δ},
      Searching s root w done stack stack → w.buf.length = n →
      remaining s.direct s.list.toFinset done stack (fun e => (w.objects.dso e).nextDep) + 1 <
        fuel →
      ∃ w' done', w.sort fuel = .ok w' ∧ Searching s root w' done' [] [] ∧ w'.buf.length = n := by
  intro fuel
  induction fuel with
  | zero => exact fun _ _ hfuel => absurd hfuel (Nat.not_lt_zero _)
  | succ fuel ih =>
    intro w done stack hs hlen hfuel
    have hspos := hs.holds.spos
    rw [Walk.sort]
    cases stack with
    | nil =>
      rw [if_neg (by simpa using hspos.ge)]
      exact ⟨w, done, rfl, hs, hlen⟩
    | cons c stack =>
      obtain ⟨w₁, hpop, hholds, hobj, hbuf⟩ := hs.holds.pop
      rw [if_pos (by simp only [List.length_cons] at hspos; omega), hpop]
      have hs₁ : Searching s root w₁ done (c :: stack) stack :=
        ⟨hholds, hobj ▸ hs.search, hobj ▸ hs.same, hobj ▸ hs.marks⟩
      obtain ⟨w₂, c', stack', hvisit, hs₂, hlen₂, hall, hle⟩ :=
        visit_searching h hroot hroom fuel hs₁ (by rw [hbuf, hlen]) (by rw [hobj]; omega)
      have hspace : done.length + (c' :: stack').length < n := by
        rw [← List.length_append]
        exact hroom _ hs₂.search.nodup hs₂.search.reach
      obtain ⟨w₃, henqueue, hholds₃, hobj₃, hbuf₃⟩ := hs₂.holds.enqueue (p := c')
        (by rw [hlen₂]; simp only [List.length_cons] at hspace; omega)
      have hassoc : done ++ [c'] ++ stack' = done ++ c' :: stack' := by simp
      have hs₃ : Searching s root w₃ (done ++ [c']) stack' stack' :=
        ⟨hholds₃, hobj₃ ▸ hs₂.search.finish hall, hobj₃ ▸ hs₂.same,
          by rw [hobj₃, hassoc]; exact hs₂.marks⟩
      have hlt := remaining_finish s.direct s.list.toFinset done stack' c'
        (fun e => (w₃.objects.dso e).nextDep)
      simp only [hvisit, henqueue]
      rw [hobj₃] at hlt
      rw [hobj] at hle
      exact ih hs₃ (hbuf₃.trans hlen₂) (by rw [hobj₃]; omega)

omit [DecidableEq δ] in
theorem entries_append_none (l : List δ) (rest : List (Option δ)) :
    entries (l.map some ++ none :: rest) = l := by
  induction l with
  | nil => rfl
  | cons d l ih => exact congrArg (d :: ·) ih

/-- What the root reaches fits into the buffer, with a slot to spare. -/
theorem lt_ctorSlots (h : s.WellFormed) (hp : p ∈ s.list) {l : List δ} (hl : l.Nodup)
    (hreach : ∀ x ∈ l, Reach s.direct p x) : l.length < s.ctorSlots p := by
  unfold Loader.ctorSlots
  split
  · next hbuilt =>
    have hsub : l.toFinset ⊆ insert p (s.dso p).deps.toFinset := by
      intro x hx
      rw [Finset.mem_insert, List.mem_toFinset]
      rcases Relation.reflTransGen_iff_eq_or_transGen.mp (hreach x (List.mem_toFinset.mp hx)) with
        hxp | hx'
      · exact Or.inl hxp
      · exact Or.inr ((((h p hp).bfs hbuilt).mem_iff x).mpr hx')
    have := Finset.card_le_card hsub
    have := Finset.card_insert_le p (s.dso p).deps.toFinset
    have := List.toFinset_card_le (s.dso p).deps
    rw [List.toFinset_card_of_nodup hl] at *
    omega
  · have hsub : l.toFinset ⊆ s.list.toFinset := fun x hx =>
      List.mem_toFinset.mpr (mem_list_of_reach h hp (hreach x (List.mem_toFinset.mp hx)))
    have := Finset.card_le_card hsub
    have := List.toFinset_card_le s.list
    rw [List.toFinset_card_of_nodup hl] at *
    omega

/-- The search at its start, with `p` on the stack. -/
theorem searching_start (h : s.WellFormed) (ds : List δ) (hw : Holds w [] [p])
    (hobj : w.objects = s.clearMarks ds) :
    Searching s p ((w.setNextDep p 0).setMark p) [] [p] [p] where
  holds := ⟨hw.buf, hw.qpos, hw.spos⟩
  search := by
    refine Search.start ?_
    rw [Walk.setMark, Loader.dso_setMark]
    simp [Walk.setNextDep, Loader.update]
  same := by
    have hsame : Same s w.objects := hobj ▸ Same.clearMarks ⟨rfl, fun _ => rfl⟩ ds
    exact (hsame.setNextDep 0).setMark
  marks e he := by
    rw [Walk.setMark, Loader.dso_setMark]
    by_cases hep : e = p
    · simp [hep]
    · rw [if_neg hep, mark_setNextDep, hobj, Loader.dso_clearMarks, (h e he).unmarked]
      simp [hep]

/-- A bound on the turns that the loops of `queue_ctors` take. -/
def Loader.work (s : Loader δ) : Nat := ∑ x ∈ s.list.toFinset, ((s.direct x).length + 2) + 2

theorem remaining_le_work (next : δ → Nat) :
    remaining s.direct s.list.toFinset [] [p] next + 1 ≤ s.work := by
  have hsum : ∑ x ∈ s.list.toFinset, cost s.direct ([] ++ [p]) next x ≤
      ∑ x ∈ s.list.toFinset, ((s.direct x).length + 2) := by
    refine Finset.sum_le_sum fun x _ => ?_
    unfold cost
    split <;> omega
  simp only [remaining, Loader.work, List.length_singleton]
  omega

/-- `queue_ctors` on well formed objects: there is no queue where there is no memory for one, and
otherwise the queue has the objects that `p` needs, in order. It ends, and uses no memory but its
own. -/
theorem queueCtors_cases (calloc runtime : Bool) (h : s.WellFormed) (hp : p ∈ s.list)
    (hfuel : s.work < fuel) :
    ¬ (s.list.head? = some p ∧ s.ctorSlots p ≤ Loader.builtinSlots) ∧ calloc = false ∧
        (s.queueCtors false calloc runtime fuel p = .error .rtldFail ∧ runtime = true ∨
          ∃ t, s.queueCtors false calloc runtime fuel p = .ok (t, none) ∧ runtime = false ∧
            Same s t ∧ t.WellFormed) ∨
      ∃ t buf, s.queueCtors false calloc runtime fuel p = .ok (t, some buf) ∧
        Postorder s.direct p (entries buf) ∧ Same s t ∧ t.WellFormed := by
  unfold Loader.queueCtors
  rw [if_neg Bool.false_ne_true]
  generalize (if (s.dso p).bfsBuilt then (s.dso p).deps else s.list) = ds
  have hcleared : Same s (s.clearMarks ds) := Same.clearMarks ⟨rfl, fun _ => rfl⟩ ds
  simp only
  split
  · next hmem =>
    rw [not_or] at hmem
    refine Or.inl ⟨hmem.1, by simpa using hmem.2, ?_⟩
    cases runtime
    · refine Or.inr ⟨s.clearMarks ds, rfl, rfl, hcleared, h.of_same hcleared fun e he => ?_⟩
      rw [Loader.dso_clearMarks, (h e he).unmarked, Bool.false_and]
    · exact Or.inl ⟨rfl, rfl⟩
  · refine Or.inr ?_
    have hroom := fun l => lt_ctorSlots (l := l) h hp
    have hpos : 0 < s.ctorSlots p := Nat.succ_pos _
    have hinit : Holds ⟨s.clearMarks ds, List.replicate (s.ctorSlots p) none, 0, s.ctorSlots p⟩
        [] [] := ⟨⟨List.replicate (s.ctorSlots p) none, by simp⟩, rfl, by simp⟩
    obtain ⟨w, hpush, hw, hobj, hlen⟩ := hinit.push (p := p) (by simpa using hpos)
    rw [hpush]
    simp only
    obtain ⟨w', done, hsort, hs, hlen'⟩ := sort_searching h hp hroom
      (searching_start h ds hw hobj) (hlen.trans (by simp))
      (lt_of_le_of_lt (remaining_le_work _) hfuel)
    rw [hsort]
    obtain ⟨gap, hbuf⟩ := hs.holds.buf
    have hdone : done.length < s.ctorSlots p := by
      simpa using hroom _ hs.search.nodup hs.search.reach
    have hgap : done.length + gap.length = s.ctorSlots p := by simpa [hbuf] using hlen'
    obtain ⟨x, gap, rfl⟩ := List.exists_cons_of_length_pos (l := gap) (by omega)
    have htake : (w'.buf.take w'.qpos).filterMap id = done := by
      rw [hs.holds.qpos, hbuf]
      simp
    have hset : w'.buf.set w'.qpos none = done.map some ++ none :: gap := by
      rw [hs.holds.qpos, hbuf]
      simp
    simp only
    rw [if_pos (by rw [hs.holds.qpos, hlen']; exact hdone), htake, hset]
    refine ⟨_, _, rfl, ?_, hs.same.clearMarks done,
      h.of_same (hs.same.clearMarks done) fun e he => ?_⟩
    · rw [entries_append_none]
      exact hs.search.postorder
    · rw [Loader.dso_clearMarks, hs.marks e he]
      simp

/-- The queue has the object and what it needs, directly or not, each once. A direct dependency
stands in front of what needs it, unless it needs that too; where there are no cycles, so does an
indirect one. -/
theorem queueCtors_order {calloc runtime : Bool} (h : s.WellFormed) (hp : p ∈ s.list)
    (hfuel : s.work < fuel)
    (hmem : calloc = true ∨ s.list.head? = some p ∧ s.ctorSlots p ≤ Loader.builtinSlots) :
    ∃ t buf, s.queueCtors false calloc runtime fuel p = .ok (t, some buf) ∧ t.WellFormed ∧
      (entries buf).Nodup ∧
      (∀ x, x ∈ entries buf ↔ x = p ∨ Relation.TransGen (Needs s) p x) ∧
      (∀ l₁ x l₂, entries buf = l₁ ++ x :: l₂ → ∀ y, Needs s x y →
        y ∈ l₁ ∨ y = x ∨ Relation.TransGen (Needs s) y x) ∧
      ((∀ x, ¬ Relation.TransGen (Needs s) x x) → ∀ l₁ x l₂, entries buf = l₁ ++ x :: l₂ →
        ∀ y, Relation.TransGen (Needs s) x y → y ∈ l₁) := by
  rcases queueCtors_cases calloc runtime h hp hfuel with
    ⟨hno, hcalloc, _⟩ | ⟨t, buf, hq, hpost, _, ht⟩
  · exact absurd hmem (by simp [hcalloc, hno])
  have hreach : ∀ x y, Reach s.direct x y ↔ y = x ∨ Relation.TransGen (Needs s) x y :=
    fun x y => Relation.reflTransGen_iff_eq_or_transGen
  refine ⟨t, buf, hq, ht, hpost.nodup, fun x => (hpost.mem_iff x).trans (hreach p x), ?_, ?_⟩
  · intro l₁ x l₂ hl y hy
    exact (hpost.ordered l₁ x l₂ hl y hy).imp_right fun hyx =>
      ((hreach y x).mp hyx).imp_left Eq.symm
  · intro hacyclic l₁ x l₂ hl y hxy
    refine hpost.before_of_acyclic (fun a b hab hba => hacyclic a ?_) hl hxy
    exact Relation.TransGen.head' hab hba

theorem queueCtors_order_chain :
    ∃ t buf, chain.queueCtors false true true 12 0 = .ok (t, some buf) ∧ t.WellFormed ∧
      (entries buf).Nodup ∧
      (∀ x, x ∈ entries buf ↔ x = 0 ∨ Relation.TransGen (Needs chain) 0 x) ∧
      (∀ l₁ x l₂, entries buf = l₁ ++ x :: l₂ → ∀ y, Needs chain x y →
        y ∈ l₁ ∨ y = x ∨ Relation.TransGen (Needs chain) y x) ∧
      ((∀ x, ¬ Relation.TransGen (Needs chain) x x) → ∀ l₁ x l₂, entries buf = l₁ ++ x :: l₂ →
        ∀ y, Relation.TransGen (Needs chain) x y → y ∈ l₁) :=
  queueCtors_order wellFormed_chain (by decide) (by decide) (Or.inl rfl)

end Ldso
