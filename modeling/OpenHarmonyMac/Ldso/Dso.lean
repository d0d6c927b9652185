import Mathlib.Logic.Function.Basic
import OpenHarmonyMac.Infra.BreadthFirst

/-!
# Loaded objects and their dependencies

The dynamic linker keeps a `struct dso` for each loaded object, in a list that starts at `head`. An
object names the objects that it needs in `deps`, an array that ends with `NULL`. The first
`ndeps_direct` entries are those of its own `DT_NEEDED` tags, what stands behind them are the
dependencies of its dependencies.

* `Dso`, `Loader` — the objects, and the list of them
* `extendBfsDeps` — puts the indirect dependencies behind the direct ones
* `Loader.WellFormed` — what holds of the objects between two calls
-/

namespace Ldso

open Infra

variable {δ : Type}

/-- The fields of a `struct dso` that have to do with its dependencies. -/
structure Dso (δ : Type) where
  deps : List δ := []
  ndepsDirect : Nat := 0
  bfsBuilt : Bool := false
  depsAll : List δ := []
  depsAllBuilt : Bool := false
  mark : Bool := false
  nextDep : Nat := 0
  deriving DecidableEq, Repr

/-- Whether memory can be had: for the first `deps_all`, and for the array that is to hold the
dependencies of what stands at a position. -/
structure Memory where
  calloc : Bool := true
  realloc : Nat → Bool := fun _ => true

/-- The objects, and the list of them from `head` on. -/
@[ext]
structure Loader (δ : Type) where
  dso : δ → Dso δ
  list : List δ

/-- Why a function does not come to its end: it leaves through `longjmp`, it uses memory that is not
its own, or its loops have not ended. -/
inductive Stop
  | rtldFail
  | badAccess
  | outOfFuel
  deriving DecidableEq, Repr

/-- The direct dependencies. -/
def Loader.direct (s : Loader δ) (d : δ) : List δ := (s.dso d).deps.take (s.dso d).ndepsDirect

/-! ## What holds between two calls -/

/-- Direct dependency. -/
def Needs (s : Loader δ) (a b : δ) : Prop := b ∈ s.direct a

/-- The array has all that its object needs, directly or not, the direct dependencies first. -/
structure Complete (s : Loader δ) (p : δ) (l : List δ) : Prop where
  added : ∃ new, l = s.direct p ++ new ∧ new.Nodup ∧ ∀ x ∈ new, x ∉ s.direct p
  mem_iff : ∀ x, x ∈ l ↔ Relation.TransGen (Needs s) p x

/-- The object is not marked, it needs objects in the list only, and the arrays that have been built
for it are complete. -/
structure Sound (s : Loader δ) (d : δ) : Prop where
  unmarked : (s.dso d).mark = false
  listed : ∀ e ∈ s.direct d, e ∈ s.list
  enough : (s.dso d).ndepsDirect ≤ (s.dso d).deps.length
  plain : (s.dso d).bfsBuilt = false → (s.dso d).deps.length = (s.dso d).ndepsDirect
  bfs : (s.dso d).bfsBuilt = true → Complete s d (s.dso d).deps
  all : (s.dso d).depsAllBuilt = true → Complete s d (s.dso d).depsAll

def Loader.WellFormed (s : Loader δ) : Prop := ∀ d ∈ s.list, Sound s d

variable {s : Loader δ} {p d : δ} {l : List δ} {b : Bool}

theorem Complete.congr {t : Loader δ} (h : Complete s p l) (ht : t.direct = s.direct) :
    Complete t p l where
  added := ht ▸ h.added
  mem_iff x := by
    have : Needs t = Needs s := by
      funext a c
      rw [Needs, Needs, ht]
    rw [this]
    exact h.mem_iff x

/-- All that the root reaches is in the list. -/
theorem mem_list_of_reach {root : δ} (h : s.WellFormed) (hroot : root ∈ s.list)
    (hd : DepthFirst.Reach s.direct root d) : d ∈ s.list := by
  induction hd with
  | refl => exact hroot
  | tail _ hz ih => exact (h _ ih).listed _ hz

/-! ## The functions -/

variable [DecidableEq δ]

namespace Loader

variable (s : Loader δ)

def update (d : δ) (f : Dso δ → Dso δ) : Loader δ :=
  { s with dso := Function.update s.dso d (f (s.dso d)) }

def setMark (d : δ) (mark : Bool) : Loader δ := s.update d fun o => { o with mark := mark }

/-- `mark = 0` for each of the objects. -/
def clearMarks (ds : List δ) : Loader δ := ds.foldl (fun s d => s.setMark d false) s

def setMarks (ds : List δ) : Loader δ := ds.foldl (fun s d => s.setMark d true) s

/-- The array that `extend_bfs_deps` builds: `deps_all` or `deps`. -/
def built (toDepsAll : Bool) (d : δ) : List δ :=
  if toDepsAll then (s.dso d).depsAll else (s.dso d).deps

def setBuilt (toDepsAll : Bool) (d : δ) (l : List δ) : Loader δ :=
  s.update d fun o => if toDepsAll then { o with depsAll := l } else { o with deps := l }

/-- One turn of the inner loop: a dependency that is not marked is marked and goes to the end of the
array. -/
def addUnmarked (toDepsAll : Bool) (p : δ) (s : Loader δ) (d : δ) : Loader δ :=
  if (s.dso d).mark then s
  else (s.setMark d true).setBuilt toDepsAll p (s.built toDepsAll p ++ [d])

/-- The loop of `extend_bfs_deps` from position `i` of the array on. `runtime` tells whether the
program has started. -/
def extendLoop (memory : Memory) (runtime toDepsAll : Bool) (p : δ) :
    Nat → Nat → Loader δ → Except Stop (Loader δ)
  | 0, _, _ => .error .outOfFuel
  | fuel + 1, i, s =>
    match (s.built toDepsAll p)[i]? with
    | none => .ok s
    | some dep =>
      if memory.realloc i then
        extendLoop memory runtime toDepsAll p fuel (i + 1)
          ((s.direct dep).foldl (addUnmarked toDepsAll p) s)
      else if runtime then .error .rtldFail
      else extendLoop memory runtime toDepsAll p fuel (i + 1) s

/-- `extend_bfs_deps`. The array for `deps_all` is not checked, and has room for the direct
dependencies alone at first. -/
def extendBfsDeps (memory : Memory) (runtime : Bool) (fuel : Nat) (s : Loader δ) (p : δ)
    (toDepsAll : Bool) : Except Stop (Loader δ) :=
  if (s.dso p).bfsBuilt then .ok s
  else if toDepsAll ∧ (s.dso p).depsAllBuilt then .ok s
  else if toDepsAll ∧ (¬ memory.calloc ∨ (s.dso p).ndepsDirect < (s.dso p).deps.length) then
    .error .badAccess
  else
    match extendLoop memory runtime toDepsAll p fuel 0
      ((s.setBuilt toDepsAll p (s.dso p).deps).setMarks (s.dso p).deps) with
    | .error e => .error e
    | .ok s =>
      .ok ((s.update p fun o =>
        if toDepsAll then { o with depsAllBuilt := true }
        else { o with bfsBuilt := true }).clearMarks s.list)

end Loader

/-! ## Marks -/

namespace Loader

theorem dso_setMark (s : Loader δ) (d e : δ) (m : Bool) :
    (s.setMark d m).dso e = if e = d then { s.dso e with mark := m } else s.dso e := by
  unfold setMark update
  by_cases h : e = d
  · cases h
    simp
  · simp [h]

@[simp] theorem list_setMark (s : Loader δ) (d : δ) (m : Bool) : (s.setMark d m).list = s.list :=
  rfl

theorem dso_setMarks (ds : List δ) (s : Loader δ) (e : δ) :
    (s.setMarks ds).dso e = { s.dso e with mark := (s.dso e).mark || decide (e ∈ ds) } := by
  induction ds generalizing s with
  | nil => simp [setMarks]
  | cons d ds ih =>
    show ((s.setMark d true).setMarks ds).dso e = _
    rw [ih, dso_setMark]
    by_cases h : e = d <;> simp [h]

theorem dso_clearMarks (ds : List δ) (s : Loader δ) (e : δ) :
    (s.clearMarks ds).dso e = { s.dso e with mark := (s.dso e).mark && !decide (e ∈ ds) } := by
  induction ds generalizing s with
  | nil => simp [clearMarks]
  | cons d ds ih =>
    show ((s.setMark d false).clearMarks ds).dso e = _
    rw [ih, dso_setMark]
    by_cases h : e = d <;> simp [h]

@[simp] theorem list_setMarks (ds : List δ) (s : Loader δ) : (s.setMarks ds).list = s.list := by
  induction ds generalizing s with
  | nil => rfl
  | cons d ds ih => exact ih (s.setMark d true)

@[simp] theorem list_clearMarks (ds : List δ) (s : Loader δ) : (s.clearMarks ds).list = s.list := by
  induction ds generalizing s with
  | nil => rfl
  | cons d ds ih => exact ih (s.setMark d false)

/-! ## `extend_bfs_deps` -/

/-- The objects while the array of `p` is `l`: what stands in it is marked. -/
def building (s : Loader δ) (b : Bool) (p : δ) (l : List δ) : Loader δ :=
  (s.setMarks l).setBuilt b p l

theorem dso_building (e : δ) : (s.building b p l).dso e =
    if e = p then
      if b then { s.dso e with depsAll := l, mark := (s.dso e).mark || decide (e ∈ l) }
      else { s.dso e with deps := l, mark := (s.dso e).mark || decide (e ∈ l) }
    else { s.dso e with mark := (s.dso e).mark || decide (e ∈ l) } := by
  unfold building setBuilt update
  by_cases h : e = p
  · cases h
    simp only [Function.update_self, dso_setMarks, if_true]
  · simp only [Function.update_of_ne h, dso_setMarks, if_neg h]

@[simp] theorem list_building : (s.building b p l).list = s.list := list_setMarks l s

theorem built_building : (s.building b p l).built b p = l := by
  unfold built
  rw [dso_building]
  cases b <;> simp

theorem mark_building (d : δ) :
    ((s.building b p l).dso d).mark = ((s.dso d).mark || decide (d ∈ l)) := by
  rw [dso_building]
  split
  · cases b <;> rfl
  · rfl

theorem setMark_setBuilt (l : List δ) (d : δ) (m : Bool) :
    (s.setBuilt b p l).setMark d m = (s.setMark d m).setBuilt b p l := by
  ext1
  · funext e
    by_cases hdp : d = p
    · cases hdp
      by_cases he : e = p <;> cases b <;> simp [setBuilt, setMark, update, he]
    · by_cases he : e = d <;> by_cases hp : e = p <;> cases b <;>
        simp_all [setBuilt, setMark, update, Ne.symm hdp]
  · rfl

theorem setMarks_setBuilt (ds l : List δ) (s : Loader δ) :
    (s.setBuilt b p l).setMarks ds = (s.setMarks ds).setBuilt b p l := by
  induction ds generalizing s with
  | nil => rfl
  | cons d ds ih =>
    show ((s.setBuilt b p l).setMark d true).setMarks ds = _
    rw [setMark_setBuilt, ih]
    rfl

theorem setBuilt_setBuilt (l l' : List δ) :
    (s.setBuilt b p l).setBuilt b p l' = s.setBuilt b p l' := by
  ext1
  · funext e
    by_cases he : e = p <;> cases b <;> simp [setBuilt, update, he]
  · rfl

theorem setMarks_concat (s : Loader δ) (l : List δ) (d : δ) :
    s.setMarks (l ++ [d]) = (s.setMarks l).setMark d true := by
  simp [setMarks, List.foldl_append]

theorem addUnmarked_building (hd : (s.dso d).mark = false) :
    addUnmarked b p (s.building b p l) d = s.building b p (if d ∈ l then l else l ++ [d]) := by
  unfold addUnmarked
  rw [mark_building, hd, Bool.false_or]
  by_cases hmem : d ∈ l
  · simp [hmem]
  · simp only [hmem, decide_false, Bool.false_eq_true, if_false, built_building]
    rw [building, building, setMarks_concat, setMark_setBuilt, setBuilt_setBuilt]

theorem foldl_addUnmarked_building {ds : List δ} (h : ∀ d ∈ ds, (s.dso d).mark = false) :
    ds.foldl (addUnmarked b p) (s.building b p l) = s.building b p (BreadthFirst.addNew l ds) := by
  induction ds generalizing l with
  | nil => rfl
  | cons d ds ih =>
    rw [List.forall_mem_cons] at h
    rw [List.foldl_cons, addUnmarked_building h.1, ih h.2, BreadthFirst.addNew_cons]

/-- The direct dependencies stay at the front of the array that grows. -/
theorem direct_building (hp : (s.dso p).deps.length = (s.dso p).ndepsDirect)
    (hl : s.direct p <+: l) (e : δ) : (s.building b p l).direct e = s.direct e := by
  unfold direct
  rw [dso_building]
  by_cases h : e = p
  · cases h
    cases b
    · obtain ⟨new, rfl⟩ := hl
      simp [direct, ← hp]
    · simp
  · simp [h]

/-- The loop goes through all positions, also through those that it adds. It gives up where memory
runs out in a program that has started, and goes on to the next position where it has not. -/
theorem extendLoop_building (b : Bool) (memory : Memory) (runtime : Bool)
    (hp : (s.dso p).deps.length = (s.dso p).ndepsDirect)
    (hmark : ∀ d ∈ s.list, (s.dso d).mark = false)
    (hlisted : ∀ d ∈ s.list, ∀ e ∈ s.direct d, e ∈ s.list) :
    ∀ (fuel : Nat) {i : Nat} {l : List δ}, BreadthFirst.Grown s.direct (s.direct p) l →
      (runtime = false ∧ (∃ j < i, memory.realloc j = false) ∨
        BreadthFirst.Sweep s.direct (s.direct p) l i) →
      (∀ x ∈ l, x ∈ s.list) → i ≤ l.length →
      (s.direct p).length + s.list.toFinset.card < fuel + i →
      (extendLoop memory runtime b p fuel i (s.building b p l) = .error .rtldFail ∧
          runtime = true ∧ ∃ j, memory.realloc j = false) ∨
        ∃ l', extendLoop memory runtime b p fuel i (s.building b p l) = .ok (s.building b p l') ∧
          BreadthFirst.Grown s.direct (s.direct p) l' ∧
          (runtime = false ∧ (∃ j < l'.length, memory.realloc j = false) ∨
            BreadthFirst.Sweep s.direct (s.direct p) l' l'.length) ∧ ∀ x ∈ l', x ∈ s.list := by
  intro fuel
  induction fuel with
  | zero =>
    intro i l hg hs hl hi hfuel
    have := hg.length_le s.list.toFinset (by simpa using hl)
    omega
  | succ fuel ih =>
    intro i l hg hs hl hi hfuel
    rw [extendLoop, built_building]
    cases hx : l[i]? with
    | none =>
      have hlen : l.length = i := Nat.le_antisymm (List.getElem?_eq_none_iff.mp hx) hi
      exact Or.inr ⟨l, rfl, hg, hlen ▸ hs, hl⟩
    | some dep =>
      have hmem : dep ∈ l := List.mem_of_getElem? hx
      have hdep : dep ∈ s.list := hl dep hmem
      have hlt : i < l.length := (List.getElem?_eq_some_iff.mp hx).1
      simp only
      by_cases hm : memory.realloc i = true
      · obtain ⟨new, hnew, _⟩ := hg.added
        rw [if_pos hm, direct_building hp ⟨new, hnew.symm⟩,
          foldl_addUnmarked_building fun d hd => hmark d (hlisted dep hdep d hd)]
        obtain ⟨new', heq, _, _, hsub, _⟩ := BreadthFirst.addNew_eq l (s.direct dep)
        refine ih (hg.step hmem) ?_ (fun x hx' => ?_) ?_ (by omega)
        · rcases hs with ⟨hruntime, j, hj, hfail⟩ | hs
          · exact Or.inl ⟨hruntime, j, Nat.lt_succ_of_lt hj, hfail⟩
          · exact Or.inr (hs.step hx)
        · rw [heq, List.mem_append] at hx'
          rcases hx' with hx' | hx'
          · exact hl x hx'
          · exact hlisted dep hdep x (hsub x hx')
        · rw [heq, List.length_append]
          omega
      · have hfail : memory.realloc i = false := by simpa using hm
        rw [if_neg hm]
        cases hruntime : runtime with
        | true =>
          rw [if_pos rfl]
          exact Or.inl ⟨rfl, rfl, i, hfail⟩
        | false =>
          -- what the dependency at this position needs is not put into the array
          subst hruntime
          rw [if_neg (by decide)]
          exact ih hg (Or.inl ⟨rfl, i, Nat.lt_succ_self i, hfail⟩) hl hlt (by omega)

/-- The array of `p` is `l` and known to be complete. -/
def complete (s : Loader δ) (b : Bool) (p : δ) (l : List δ) : Loader δ :=
  s.update p fun o =>
    if b then { o with depsAll := l, depsAllBuilt := true }
    else { o with deps := l, bfsBuilt := true }

/-- The marks are gone when the array is complete. -/
theorem clearMarks_building (hp : p ∈ s.list) (hmark : ∀ d ∈ s.list, (s.dso d).mark = false)
    (hl : ∀ x ∈ l, x ∈ s.list) :
    ((s.building b p l).update p fun o =>
      if b then { o with depsAllBuilt := true } else { o with bfsBuilt := true }).clearMarks
        (s.building b p l).list = s.complete b p l := by
  have hm : ∀ e, (((s.dso e).mark || decide (e ∈ l)) && !decide (e ∈ s.list)) = (s.dso e).mark := by
    intro e
    by_cases he : e ∈ s.list
    · simp [he, hmark e he]
    · have hel : e ∉ l := fun h => he (hl e h)
      simp [he, hel]
  ext1
  · funext e
    rw [dso_clearMarks, list_building]
    by_cases he : e = p
    · cases he
      cases b <;> simp [complete, update, dso_building, hp, hmark p hp]
    · have hme := hm e
      simp only [complete, update, Function.update_of_ne he, dso_building, if_neg he, hme]
  · simp [complete, update]

theorem direct_complete (hplain : b = false → (s.dso p).deps.length = (s.dso p).ndepsDirect)
    (hl : s.direct p <+: l) : (s.complete b p l).direct = s.direct := by
  funext e
  by_cases he : e = p
  · cases he
    cases b
    · obtain ⟨new, rfl⟩ := hl
      simp [direct, complete, update, ← hplain rfl]
    · simp [direct, complete, update]
  · simp [direct, complete, update, he]

end Loader

/-- A complete array keeps the objects well formed. -/
theorem Loader.WellFormed.complete (h : s.WellFormed) (hl : Complete s p l) (hp : p ∈ s.list)
    (hbuilt : (s.dso p).bfsBuilt = false) : (s.complete b p l).WellFormed := by
  obtain ⟨new, hnew, _⟩ := hl.added
  have hdirect : (s.complete b p l).direct = s.direct :=
    direct_complete (fun _ => (h p hp).plain hbuilt) ⟨new, hnew.symm⟩
  have hdso : ∀ d, d ≠ p → (s.complete b p l).dso d = s.dso d := fun d hd => by
    simp [Loader.complete, Loader.update, hd]
  have hself : (s.complete b p l).dso p =
      if b then { s.dso p with depsAll := l, depsAllBuilt := true }
      else { s.dso p with deps := l, bfsBuilt := true } := by
    simp [Loader.complete, Loader.update]
  intro d hd
  by_cases hdp : d = p
  · cases hdp
    have hp := h p hd
    refine ⟨?_, hdirect ▸ hp.listed, ?_, ?_, ?_, ?_⟩ <;> rw [hself] <;> cases b
    · exact hp.unmarked
    · exact hp.unmarked
    · show (s.dso p).ndepsDirect ≤ l.length
      have := hp.plain hbuilt
      rw [hnew, List.length_append, Loader.direct, List.length_take]
      omega
    · exact hp.enough
    · exact fun hb => absurd hb (by simp)
    · exact fun _ => hp.plain hbuilt
    · exact fun _ => hl.congr hdirect
    · exact fun hb => absurd (hbuilt.symm.trans hb) (by decide)
    · exact fun hb => (hp.all hb).congr hdirect
    · exact fun _ => hl.congr hdirect
  · have hd' := h d hd
    refine ⟨?_, hdirect ▸ hd'.listed, ?_, ?_, ?_, ?_⟩ <;> rw [hdso d hdp]
    · exact hd'.unmarked
    · exact hd'.enough
    · exact hd'.plain
    · exact fun hb => (hd'.bfs hb).congr hdirect
    · exact fun hb => (hd'.all hb).congr hdirect

/-- `extend_bfs_deps` on loaded objects: where there is nothing to do, it does nothing. Else it
writes through `NULL`, or gives up, as memory has run out, or all that changes is the array of `p`.
That is complete, unless memory has run out before the program has started. It ends, and uses no
other memory that is not its own. -/
theorem extendBfsDeps_cases (memory : Memory) (runtime : Bool) {fuel : Nat} (h : s.WellFormed)
    (hp : p ∈ s.list) (hfuel : (s.direct p).length + s.list.toFinset.card < fuel) :
    s.extendBfsDeps memory runtime fuel p b = .ok s ∧
        ((s.dso p).bfsBuilt = true ∨ b = true ∧ (s.dso p).depsAllBuilt = true) ∨
      (s.dso p).bfsBuilt = false ∧
        (s.extendBfsDeps memory runtime fuel p b = .error .badAccess ∧
            b = true ∧ memory.calloc = false ∨
          s.extendBfsDeps memory runtime fuel p b = .error .rtldFail ∧
            runtime = true ∧ (∃ j, memory.realloc j = false) ∨
          ∃ l, s.extendBfsDeps memory runtime fuel p b = .ok (s.complete b p l) ∧
            BreadthFirst.Grown s.direct (s.direct p) l ∧
            (runtime = false ∧ (∃ j < l.length, memory.realloc j = false) ∨ Complete s p l)) := by
  unfold Loader.extendBfsDeps
  by_cases hbuilt : (s.dso p).bfsBuilt = true
  · exact Or.inl ⟨by rw [if_pos hbuilt], Or.inl hbuilt⟩
  rw [if_neg hbuilt]
  by_cases hall : b = true ∧ (s.dso p).depsAllBuilt = true
  · exact Or.inl ⟨by rw [if_pos hall], Or.inr hall⟩
  have hbuilt' : (s.dso p).bfsBuilt = false := by simpa using hbuilt
  have hplain := (h p hp).plain hbuilt'
  refine Or.inr ⟨hbuilt', ?_⟩
  rw [if_neg hall]
  by_cases hcalloc : b = true ∧ memory.calloc = false
  · rw [if_pos ⟨hcalloc.1, Or.inl (by simp [hcalloc.2])⟩]
    exact Or.inl ⟨rfl, hcalloc⟩
  have hroom : ¬ (b = true ∧
      (¬ memory.calloc = true ∨ (s.dso p).ndepsDirect < (s.dso p).deps.length)) := by
    rintro ⟨hb, hfail | hlt⟩
    · exact hcalloc ⟨hb, by simpa using hfail⟩
    · omega
  rw [if_neg hroom]
  have hdeps : (s.dso p).deps = s.direct p := by
    rw [Loader.direct, ← hplain, List.take_length]
  have hstart : (s.setBuilt b p (s.dso p).deps).setMarks (s.dso p).deps =
      s.building b p (s.direct p) := by
    rw [hdeps, Loader.setMarks_setBuilt, Loader.building]
  rw [hstart]
  have hinitial : BreadthFirst.Sweep s.direct (s.direct p) (s.direct p) 0 := .initial _
  rcases Loader.extendLoop_building b memory runtime hplain
    (fun d hd => (h d hd).unmarked) (fun d hd => (h d hd).listed) fuel
    hinitial.toGrown (Or.inr hinitial) (h p hp).listed (Nat.zero_le _) (by omega) with
    ⟨herr, hfails⟩ | ⟨l, hok, hg, hs, hl⟩
  · rw [herr]
    exact Or.inr (Or.inl ⟨rfl, hfails⟩)
  · rw [hok]
    refine Or.inr (Or.inr ⟨l, ?_, hg, hs.imp_right fun hs => ?_⟩)
    · show Except.ok _ = _
      rw [Loader.clearMarks_building hp (fun d hd => (h d hd).unmarked) hl]
    · exact ⟨hs.added, fun x => hs.mem_iff_transGen le_rfl⟩

/-- Three objects: the first needs the second and the third, and the second needs the third. -/
def chain : Loader Nat where
  dso d :=
    if d = 0 then { deps := [1, 2], ndepsDirect := 2 }
    else if d = 1 then { deps := [2], ndepsDirect := 1 } else {}
  list := [0, 1, 2]

theorem wellFormed_chain : chain.WellFormed := by
  intro d hd
  have hd' : d = 0 ∨ d = 1 ∨ d = 2 := by simpa [chain] using hd
  rcases hd' with rfl | rfl | rfl <;>
    refine ⟨rfl, by decide, by decide, fun _ => rfl, fun h => ?_, fun h => ?_⟩ <;> cases h

/-- A call of `extend_bfs_deps` comes to its end. It writes through `NULL` only where `deps_all` is
asked for and `calloc` fails, and gives up only where memory runs out in a program that has started.
Otherwise the other objects are as before, and the array of `p` names what `p` needs, directly or
not, its own dependencies first and no other twice: all of it, and the objects are well formed,
unless memory has run out for one of its positions before the program has started. -/
theorem extendBfsDeps_complete (memory : Memory) (runtime : Bool) {fuel : Nat} (h : s.WellFormed)
    (hp : p ∈ s.list) (hfuel : (s.direct p).length + s.list.toFinset.card < fuel) :
    s.extendBfsDeps memory runtime fuel p b = .error .badAccess ∧
        b = true ∧ memory.calloc = false ∨
      s.extendBfsDeps memory runtime fuel p b = .error .rtldFail ∧
        runtime = true ∧ (∃ i, memory.realloc i = false) ∨
      ∃ t, s.extendBfsDeps memory runtime fuel p b = .ok t ∧ t.list = s.list ∧
        t.direct = s.direct ∧ (∀ d, d ≠ p → t.dso d = s.dso d) ∧
        ∃ l, l = (if (t.dso p).bfsBuilt then (t.dso p).deps else (t.dso p).depsAll) ∧
          (∃ new, l = s.direct p ++ new ∧ new.Nodup ∧ ∀ x ∈ new, x ∉ s.direct p) ∧
          (∀ x ∈ l, Relation.TransGen (Needs s) p x) ∧
          (runtime = false ∧ (∃ i < l.length, memory.realloc i = false) ∨
            t.WellFormed ∧ ∀ x, x ∈ l ↔ Relation.TransGen (Needs s) p x) := by
  rcases extendBfsDeps_cases (b := b) memory runtime h hp hfuel with
    ⟨hok, hdone⟩ | ⟨hbuilt, herr | herr | ⟨l, hok, hg, hl⟩⟩
  · have hc : Complete s p (if (s.dso p).bfsBuilt then (s.dso p).deps else (s.dso p).depsAll) := by
      split
      · next hb => exact (h p hp).bfs hb
      · next hb => exact (h p hp).all (hdone.resolve_left hb).2
    exact Or.inr (Or.inr ⟨s, hok, rfl, rfl, fun _ _ => rfl, _, rfl, hc.added,
      fun x => (hc.mem_iff x).mp, Or.inr ⟨h, hc.mem_iff⟩⟩)
  · exact Or.inl herr
  · exact Or.inr (Or.inl herr)
  · obtain ⟨new, hnew, _⟩ := hg.added
    have hdirect : (s.complete b p l).direct = s.direct :=
      Loader.direct_complete (fun _ => (h p hp).plain hbuilt) ⟨new, hnew.symm⟩
    refine Or.inr (Or.inr ⟨_, hok, rfl, hdirect,
      fun d hd => by simp [Loader.complete, Loader.update, hd], l, ?_, hg.added,
      fun x => hg.transGen, hl.imp_right fun hl => ⟨h.complete hl hp hbuilt, hl.mem_iff⟩⟩)
    cases b <;> simp [Loader.complete, Loader.update, hbuilt]

theorem extendBfsDeps_complete_chain :
    chain.extendBfsDeps {} true 6 0 false = .error .badAccess ∧
        false = true ∧ ({} : Memory).calloc = false ∨
      chain.extendBfsDeps {} true 6 0 false = .error .rtldFail ∧
        true = true ∧ (∃ i, ({} : Memory).realloc i = false) ∨
      ∃ t, chain.extendBfsDeps {} true 6 0 false = .ok t ∧ t.list = chain.list ∧
        t.direct = chain.direct ∧ (∀ d, d ≠ 0 → t.dso d = chain.dso d) ∧
        ∃ l, l = (if (t.dso 0).bfsBuilt then (t.dso 0).deps else (t.dso 0).depsAll) ∧
          (∃ new, l = chain.direct 0 ++ new ∧ new.Nodup ∧ ∀ x ∈ new, x ∉ chain.direct 0) ∧
          (∀ x ∈ l, Relation.TransGen (Needs chain) 0 x) ∧
          (true = false ∧ (∃ i < l.length, ({} : Memory).realloc i = false) ∨
            t.WellFormed ∧ ∀ x, x ∈ l ↔ Relation.TransGen (Needs chain) 0 x) :=
  extendBfsDeps_complete {} true wellFormed_chain (by decide) (by decide)

end Ldso
