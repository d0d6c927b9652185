import Mathlib.Data.List.Basic

/-!
# Passes that go on after a failure

A pass visits things one after the other. What a visit returns may depend on all visits before it,
and a failure is remembered but does not end the pass.

* `Pass.each` — a loop over passes
* `Covers` — what a pass visits and when it succeeds, whatever fails on the way
-/

namespace Infra

/-- From what has been visited to the result, 0 for a success, and what has been visited then. -/
abbrev Pass (ν : Type*) := List ν → Int × List ν

variable {α ν : Type*} {act : List ν → ν → Int} {earlier xs ys : List ν} {x : ν}

/-- The pass that visits one thing. -/
def Pass.visit (act : List ν → ν → Int) (x : ν) : Pass ν :=
  fun earlier => (act earlier x, earlier ++ [x])

/-- The loop: its result is `failure` if the result of some call is not 0. -/
def Pass.each (failure : Int) (call : α → Pass ν) (items : List α) : Pass ν := fun earlier =>
  items.foldl (fun (result, visited) item =>
    let (ret, visited) := call item visited
    (if ret ≠ 0 then failure else result, visited)) (0, earlier)

/-- Each visit succeeds. -/
def Succeeds (act : List ν → ν → Int) (earlier xs : List ν) : Prop :=
  ∀ before x after, xs = before ++ x :: after → act (earlier ++ before) x = 0

/-- The pass visits `xs` in this order, and succeeds just in case each visit does. -/
def Covers (act : List ν → ν → Int) (pass : Pass ν) (xs : List ν) : Prop :=
  ∀ earlier, (pass earlier).2 = earlier ++ xs ∧ ((pass earlier).1 = 0 ↔ Succeeds act earlier xs)

theorem succeeds_nil : Succeeds act earlier [] := by
  intro before x after h
  simp at h

theorem succeeds_append :
    Succeeds act earlier (xs ++ ys) ↔ Succeeds act earlier xs ∧ Succeeds act (earlier ++ xs) ys := by
  constructor
  · intro h
    refine ⟨fun before x after hxs => ?_, fun before x after hys => ?_⟩
    · exact h before x (after ++ ys) (by rw [hxs, List.append_assoc, List.cons_append])
    · rw [List.append_assoc]
      exact h (xs ++ before) x after (by rw [hys, List.append_assoc])
  · rintro ⟨hxs, hys⟩ before x after h
    -- the visit is one of `xs`, or comes after them
    rcases List.append_eq_append_iff.mp h with ⟨before', hbefore, hafter⟩ | ⟨rest, hsplit, hcons⟩
    · rw [hbefore, ← List.append_assoc]
      exact hys before' x after hafter
    · cases rest with
      | nil =>
        rw [List.append_nil] at hsplit
        rw [List.nil_append] at hcons
        have hfirst := hys [] x after hcons.symm
        rwa [List.append_nil, hsplit] at hfirst
      | cons x' rest =>
        obtain ⟨rfl, -⟩ := List.cons.inj hcons
        exact hxs before x rest hsplit

theorem succeeds_singleton : Succeeds act earlier [x] ↔ act earlier x = 0 := by
  constructor
  · intro h
    have hx := h [] x [] rfl
    rwa [List.append_nil] at hx
  · intro hx before x' after h
    cases before with
    | nil =>
      obtain ⟨rfl, -⟩ := List.cons.inj h
      rwa [List.append_nil]
    | cons y before =>
      have hlen := congrArg List.length h
      simp at hlen

/-- Only the answers to the visits themselves matter. -/
theorem succeeds_congr {act' : List ν → ν → Int} (h : ∀ x ∈ xs, ∀ before, act before x = act' before x) :
    Succeeds act earlier xs ↔ Succeeds act' earlier xs := by
  refine forall_congr' fun before => forall_congr' fun x => forall_congr' fun after => ?_
  refine imp_congr_right ?_
  rintro rfl
  rw [h x (by simp)]

theorem succeeds_of_forall (h : ∀ x ∈ xs, ∀ before, act before x = 0) :
    Succeeds act earlier xs := by
  rintro before x after rfl
  exact h x (by simp) _

theorem succeeds_cons :
    Succeeds act earlier (x :: xs) ↔ act earlier x = 0 ∧ Succeeds act (earlier ++ [x]) xs := by
  rw [← List.singleton_append, succeeds_append, succeeds_singleton]

theorem covers_visit : Covers act (Pass.visit act x) [x] :=
  fun _ => ⟨rfl, succeeds_singleton.symm⟩

theorem covers_skip : Covers act (fun earlier => (0, earlier)) [] :=
  fun _ => ⟨(List.append_nil _).symm, iff_of_true rfl succeeds_nil⟩

/-- **The rule for loops**, by induction on the items: the results so far are part of the
statement. -/
theorem covers_each {failure : Int} (hfailure : failure ≠ 0) {call : α → Pass ν}
    {f : α → List ν} (items : List α) (h : ∀ item ∈ items, Covers act (call item) (f item)) :
    Covers act (Pass.each failure call items) (items.flatMap f) := by
  intro earlier
  suffices hfold : ∀ (result : Int) (visited : List ν),
      (items.foldl (fun (result, visited) item =>
        let (ret, visited) := call item visited
        (if ret ≠ 0 then failure else result, visited)) (result, visited)).2 =
          visited ++ items.flatMap f ∧
      ((items.foldl (fun (result, visited) item =>
        let (ret, visited) := call item visited
        (if ret ≠ 0 then failure else result, visited)) (result, visited)).1 = 0 ↔
          result = 0 ∧ Succeeds act visited (items.flatMap f)) by
    obtain ⟨hvisited, hresult⟩ := hfold 0 earlier
    exact ⟨hvisited, hresult.trans (and_iff_right rfl)⟩
  induction items with
  | nil => exact fun result visited => ⟨(List.append_nil _).symm, by simp [succeeds_nil]⟩
  | cons item items ih =>
    intro result visited
    obtain ⟨hvisited, hret⟩ := h item List.mem_cons_self visited
    obtain ⟨ihvisited, ihresult⟩ := ih (fun i hi => h i (List.mem_cons_of_mem _ hi))
      (if (call item visited).1 ≠ 0 then failure else result) (call item visited).2
    rw [List.foldl_cons]
    refine ⟨?_, ?_⟩
    · rw [ihvisited, hvisited, List.append_assoc, List.flatMap_cons]
    · rw [ihresult, List.flatMap_cons, succeeds_append, hvisited, ← hret]
      by_cases hzero : (call item visited).1 = 0
      · simp [hzero]
      · simp [hzero, hfailure]

end Infra
