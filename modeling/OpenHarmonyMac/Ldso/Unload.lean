import Mathlib.Data.Fintype.Defs
import OpenHarmonyMac.Infra.Peeling
import OpenHarmonyMac.Ldso.Dso

/-!
# Unloading objects

Each object counts the handles that need it, and names the loaded objects that need it directly, its
parents. When the count of an object falls to zero, `do_dlclose` unloads it, and with it whatever is
left without parents and without handles.

* `Refs`, `Objects` — the counts and the parents, beside the loaded objects
* `Objects.doDlclose` — takes a handle back, and finds what can go
* `Objects.Consistent` — the parents are as the dependencies say
* `doDlclose_unloads` — what goes, and in which order
-/

namespace Ldso

open Infra

variable {δ : Type}

/-- The fields of a `struct dso` that say how long the object stays. -/
structure Refs (δ : Type) where
  nrDlopen : Nat := 0
  byDlopen : Bool := false
  nodelete : Bool := false
  parents : List δ := []
  deriving DecidableEq, Repr

/-- The loaded objects, and what keeps them. -/
structure Objects (δ : Type) where
  loader : Loader δ
  refs : δ → Refs δ

/-- `so_can_unload` with `UNLOAD_COMMON_CHECK`. -/
def Refs.canUnloadCommon (r : Refs δ) : Bool := r.byDlopen && !r.nodelete

/-- `so_can_unload` with `UNLOAD_ALL_CHECK`. -/
def Refs.canUnload (r : Refs δ) : Bool := r.canUnloadCommon && r.nrDlopen == 0

/-- The two queues of `do_dlclose`, and the objects. -/
structure UnloadQueues (δ : Type) where
  unload : List δ
  needUnload : List δ
  refs : δ → Refs δ

variable [DecidableEq δ]

/-- `add_dso_parent`. -/
def Refs.addParent (r : Refs δ) (parent : δ) : Refs δ :=
  if parent ∈ r.parents then r else { r with parents := r.parents ++ [parent] }

/-- `remove_dso_parent`. -/
def Refs.removeParent (r : Refs δ) (parent : δ) : Refs δ :=
  { r with parents := r.parents.erase parent }

namespace UnloadQueues

/-- One turn of the inner loop: a dependency of `cur` loses a parent. -/
def removeFrom (cur : δ) (q : UnloadQueues δ) (d : δ) : UnloadQueues δ :=
  let r := (q.refs d).removeParent cur
  if r.parents = [] ∧ r.canUnload = true ∧ d ∉ q.unload then
    { q with unload := q.unload ++ [d], refs := Function.update q.refs d r }
  else { q with refs := Function.update q.refs d r }

/-- The loop over `unload_queue`. -/
def loop (direct : δ → List δ) : Nat → UnloadQueues δ → Option (UnloadQueues δ)
  | 0, _ => none
  | fuel + 1, q =>
    match q.unload with
    | [] => some q
    | cur :: unload =>
      if cur ∈ q.needUnload then loop direct fuel { q with unload := unload }
      else
        loop direct fuel
          ((direct cur).foldl (removeFrom cur)
            { q with unload := unload, needUnload := q.needUnload ++ [cur] })

end UnloadQueues

namespace Objects

def incr (s : Objects δ) (d : δ) : Objects δ :=
  { s with refs := Function.update s.refs d { s.refs d with nrDlopen := (s.refs d).nrDlopen + 1 } }

def decr (s : Objects δ) (d : δ) : Objects δ :=
  { s with refs := Function.update s.refs d { s.refs d with nrDlopen := (s.refs d).nrDlopen - 1 } }

/-- `nr_dlopen` goes down for each of the objects, unless it is zero for one of them. -/
def decrAll : Objects δ → List δ → Objects δ × Bool
  | s, [] => (s, true)
  | s, d :: ds => if 0 < (s.refs d).nrDlopen then decrAll (s.decr d) ds else (s, false)

/-- The dependencies whose counts go up and down with that of the object. -/
def counted (s : Objects δ) (p : δ) (checkDepsAll : Bool) : List δ :=
  if (s.loader.dso p).bfsBuilt then (s.loader.dso p).deps
  else if checkDepsAll && (s.loader.dso p).depsAllBuilt then (s.loader.dso p).depsAll
  else []

/-- `dlclose_impl` and `dlclose_post` for each of the objects. -/
def unload (s : Objects δ) (ds : List δ) : Objects δ where
  loader :=
    { dso := fun d => if d ∈ ds then {} else s.loader.dso d
      list := s.loader.list.filter (· ∉ ds) }
  refs d := if d ∈ ds then {} else s.refs d

/-- Fuel for the loop over `unload_queue`. -/
def fuel (s : Objects δ) : Nat := 2 + (s.loader.list.flatMap s.loader.direct).length

/-- `do_dlclose`, and what it unloads. -/
def doDlclose (s : Objects δ) (p : δ) (checkDepsAll : Bool) : Option (Objects δ × List δ) :=
  if (s.refs p).canUnloadCommon = true then
    match s.decrAll (p :: s.counted p checkDepsAll) with
    | (s, false) => some (s, [])
    | (s, true) =>
      if 0 < (s.refs p).nrDlopen then some (s, [])
      else
        match UnloadQueues.loop s.loader.direct s.fuel
          { unload := [p], needUnload := [], refs := s.refs } with
        | none => none
        | some q => some ({ s with refs := q.refs }.unload q.needUnload, q.needUnload)
  else some (s, [])

variable {s t : Objects δ} {p d : δ} {ds : List δ} {b : Bool}

/-! ## The counts -/

@[simp] theorem loader_incr : (s.incr d).loader = s.loader := rfl

@[simp] theorem loader_decr : (s.decr d).loader = s.loader := rfl

theorem refs_incr (x : δ) : (s.incr d).refs x =
    if x = d then { s.refs x with nrDlopen := (s.refs x).nrDlopen + 1 } else s.refs x := by
  unfold incr
  by_cases h : x = d
  · cases h
    simp
  · simp [h]

theorem refs_decr (x : δ) : (s.decr d).refs x =
    if x = d then { s.refs x with nrDlopen := (s.refs x).nrDlopen - 1 } else s.refs x := by
  unfold decr
  by_cases h : x = d
  · cases h
    simp
  · simp [h]

/-- The counts alone have changed. -/
structure SameObjects (s t : Objects δ) : Prop where
  loader : t.loader = s.loader
  byDlopen : ∀ x, (t.refs x).byDlopen = (s.refs x).byDlopen
  nodelete : ∀ x, (t.refs x).nodelete = (s.refs x).nodelete
  parents : ∀ x, (t.refs x).parents = (s.refs x).parents

omit [DecidableEq δ] in
theorem SameObjects.refl (s : Objects δ) : SameObjects s s :=
  ⟨rfl, fun _ => rfl, fun _ => rfl, fun _ => rfl⟩

omit [DecidableEq δ] in
theorem SameObjects.trans {u : Objects δ} (h : SameObjects s t) (h' : SameObjects t u) :
    SameObjects s u where
  loader := h'.loader.trans h.loader
  byDlopen x := (h'.byDlopen x).trans (h.byDlopen x)
  nodelete x := (h'.nodelete x).trans (h.nodelete x)
  parents x := (h'.parents x).trans (h.parents x)

omit [DecidableEq δ] in
theorem SameObjects.canUnloadCommon (h : SameObjects s t) (x : δ) :
    (t.refs x).canUnloadCommon = (s.refs x).canUnloadCommon := by
  rw [Refs.canUnloadCommon, Refs.canUnloadCommon, h.byDlopen, h.nodelete]

theorem sameObjects_decr (s : Objects δ) (d : δ) : SameObjects s (s.decr d) := by
  refine ⟨rfl, fun x => ?_, fun x => ?_, fun x => ?_⟩ <;> rw [refs_decr] <;> split <;> rfl

theorem sameObjects_decrAll (ds : List δ) (s : Objects δ) : SameObjects s (s.decrAll ds).1 := by
  induction ds generalizing s with
  | nil => exact SameObjects.refl s
  | cons d ds ih =>
    rw [decrAll]
    split
    · exact (sameObjects_decr s d).trans (ih (s.decr d))
    · exact SameObjects.refl s

/-- Where each count is high enough, all of them go down. -/
theorem decrAll_of_le (ds : List δ) (s : Objects δ)
    (hle : ∀ x, ds.count x ≤ (s.refs x).nrDlopen) :
    (s.decrAll ds).2 = true ∧
      ∀ x, ((s.decrAll ds).1.refs x).nrDlopen + ds.count x = (s.refs x).nrDlopen := by
  induction ds generalizing s with
  | nil => exact ⟨rfl, fun x => rfl⟩
  | cons d ds ih =>
    have hd : 0 < (s.refs d).nrDlopen := by
      have := hle d
      rw [List.count_cons_self] at this
      omega
    have hdecr : ∀ x, ((s.decr d).refs x).nrDlopen + (if x = d then 1 else 0) =
        (s.refs x).nrDlopen := by
      intro x
      rw [refs_decr]
      by_cases h : x = d
      · rw [if_pos h, if_pos h]
        subst h
        exact Nat.sub_add_cancel hd
      · rw [if_neg h, if_neg h, Nat.add_zero]
    have hcount : ∀ x, (d :: ds).count x = ds.count x + if x = d then 1 else 0 := by
      intro x
      rw [List.count_cons]
      by_cases h : x = d
      · simp [h]
      · simp [h, Ne.symm h]
    obtain ⟨hok, hall⟩ := ih (s.decr d) fun x => by
      have := hle x
      have := hdecr x
      rw [hcount] at *
      omega
    rw [decrAll, if_pos hd]
    refine ⟨hok, fun x => ?_⟩
    have := hall x
    have := hdecr x
    rw [hcount]
    omega

/-! ## The queues -/

end Objects

namespace UnloadQueues

/-- The objects `refs` with the parents that are left. -/
def ofState (refs : δ → Refs δ) (s : Peeling.State δ) : UnloadQueues δ where
  unload := s.queue
  needUnload := s.taken
  refs x := { refs x with parents := s.parents x }

variable {refs : δ → Refs δ} {direct : δ → List δ}

theorem removeFrom_ofState (cur : δ) (s : Peeling.State δ) (d : δ) :
    removeFrom cur (ofState refs s) d =
      ofState refs (Peeling.release (fun x => (refs x).canUnload) cur s d) := by
  have hrefs : Function.update (ofState refs s).refs d
      (((ofState refs s).refs d).removeParent cur) =
      fun x => { refs x with
        parents := Function.update s.parents d ((s.parents d).erase cur) x } := by
    funext x
    by_cases h : x = d
    · rw [h, Function.update_self, Function.update_self]
      rfl
    · rw [Function.update_of_ne h, Function.update_of_ne h]
      rfl
  unfold removeFrom Peeling.release
  simp only [hrefs]
  by_cases h : (s.parents d).erase cur = [] ∧ (refs d).canUnload = true ∧ d ∉ s.queue
  · rw [if_pos h]
    exact if_pos h
  · rw [if_neg h]
    exact if_neg h

theorem foldl_removeFrom_ofState (cur : δ) (ds : List δ) (s : Peeling.State δ) :
    ds.foldl (removeFrom cur) (ofState refs s) =
      ofState refs (ds.foldl (Peeling.release (fun x => (refs x).canUnload) cur) s) := by
  induction ds generalizing s with
  | nil => rfl
  | cons d ds ih => rw [List.foldl_cons, removeFrom_ofState, ih, List.foldl_cons]

/-- The loop peels the graph of the dependencies. -/
theorem loop_ofState (fuel : Nat) (s : Peeling.State δ) :
    loop direct fuel (ofState refs s) =
      (Peeling.peel (fun x => (refs x).canUnload) direct fuel s).map (ofState refs) := by
  induction fuel generalizing s with
  | zero => rfl
  | succ fuel ih =>
    rw [loop, Peeling.peel]
    cases hqueue : s.queue with
    | nil =>
      have hunload : (ofState refs s).unload = [] := hqueue
      rw [hunload]
      rfl
    | cons cur queue =>
      have hunload : (ofState refs s).unload = cur :: queue := hqueue
      rw [hunload]
      simp only
      by_cases h : cur ∈ s.taken
      · have h' : cur ∈ (ofState refs s).needUnload := h
        rw [if_pos h, if_pos h']
        exact ih { s with queue := queue }
      · have h' : cur ∉ (ofState refs s).needUnload := h
        rw [if_neg h, if_neg h', ← ih, ← foldl_removeFrom_ofState]
        rfl

end UnloadQueues

/-! ## What is unloaded -/

namespace Objects

variable {s t u : Objects δ} {p : δ} {ds : List δ} {b : Bool}

/-- The list is closed, and the parents of an object are the loaded objects that need it. -/
structure Consistent (s : Objects δ) : Prop where
  nodup : s.loader.list.Nodup
  listed : ∀ y ∈ s.loader.list, ∀ x ∈ s.loader.direct y, x ∈ s.loader.list
  parents_nodup : ∀ x, (s.refs x).parents.Nodup
  mem_parents : ∀ x y, y ∈ (s.refs x).parents ↔ y ∈ s.loader.list ∧ x ∈ s.loader.direct y

omit [DecidableEq δ] in
theorem Consistent.congr (h : s.Consistent) (ht : SameObjects s t) : t.Consistent := by
  obtain ⟨hloader, -, -, hparents⟩ := ht
  refine ⟨?_, ?_, fun x => ?_, fun x y => ?_⟩
  · rw [hloader]
    exact h.nodup
  · rw [hloader]
    exact h.listed
  · rw [hparents]
    exact h.parents_nodup x
  · rw [hparents, hloader]
    exact h.mem_parents x y

theorem Consistent.graph (h : s.Consistent) :
    Peeling.Graph (fun x => (s.refs x).parents) s.loader.direct s.loader.list.toFinset where
  nodup := h.parents_nodup
  succ_of_mem x y hy := ((h.mem_parents x y).mp hy).2
  mem_par y hy x hx := (h.mem_parents x y).mpr ⟨List.mem_toFinset.mp hy, hx⟩
  inside y hy x hx := List.mem_toFinset.mpr (h.listed y (List.mem_toFinset.mp hy) x hx)

/-- What the loop over `unload_queue` finds. -/
theorem Consistent.loop (h : s.Consistent) (hp : p ∈ s.loader.list) :
    ∃ q, UnloadQueues.loop s.loader.direct s.fuel
          { unload := [p], needUnload := [], refs := s.refs } =
        some (UnloadQueues.ofState s.refs q) ∧
      Peeling.Peeled (fun x => (s.refs x).parents) s.loader.direct
        (fun x => (s.refs x).canUnload) p q.taken ∧
      (∀ x, q.parents x = (s.refs x).parents.filter (· ∉ q.taken)) ∧
      ∀ x ∈ q.taken, x ∈ s.loader.list := by
  have hturns : Peeling.turns s.loader.direct s.loader.list.toFinset
      { queue := [p], taken := [], parents := fun x => (s.refs x).parents } < s.fuel := by
    have hsum := List.sum_toFinset (fun x => (s.loader.direct x).length) h.nodup
    unfold Peeling.turns fuel
    simp only [List.not_mem_nil, not_false_eq_true, Finset.filter_true, hsum, List.length_flatMap]
    exact Nat.add_lt_add_right (Nat.lt_succ_self 1) _
  obtain ⟨q, hpeel, hpeeled, hparents, hlist⟩ := Peeling.peel_peeled h.graph s.fuel _
    (Peeling.Invariant.initial (List.mem_toFinset.mpr hp)) hturns
  refine ⟨q, ?_, hpeeled, hparents, fun x hx => List.mem_toFinset.mp (hlist x hx)⟩
  show UnloadQueues.loop s.loader.direct s.fuel (UnloadQueues.ofState s.refs
    { queue := [p], taken := [], parents := fun x => (s.refs x).parents }) = _
  rw [UnloadQueues.loop_ofState, hpeel]
  rfl

theorem direct_unload (x : δ) :
    (s.unload ds).loader.direct x = if x ∈ ds then [] else s.loader.direct x := by
  unfold Loader.direct unload
  by_cases h : x ∈ ds
  · simp [h]
  · simp [h]

theorem mem_list_unload {x : δ} :
    x ∈ (s.unload ds).loader.list ↔ x ∈ s.loader.list ∧ x ∉ ds := by
  simp [unload]

/-- When the parents of what goes are crossed out, the rest is consistent just in case nothing that
stays needs what goes. -/
theorem Consistent.unload_iff {refs : δ → Refs δ} (h : s.Consistent)
    (hparents : ∀ x, (refs x).parents = (s.refs x).parents.filter (· ∉ ds)) :
    ({ s with refs := refs }.unload ds).Consistent ↔
      ∀ x ∈ ds, ∀ y ∈ (s.refs x).parents, y ∈ ds := by
  constructor
  · intro hu x hx y hy
    by_contra hyds
    obtain ⟨hylist, hxy⟩ := (h.mem_parents x y).mp hy
    have hy' : y ∈ ({ s with refs := refs }.unload ds).loader.list :=
      mem_list_unload.mpr ⟨hylist, hyds⟩
    have hx' : x ∈ ({ s with refs := refs }.unload ds).loader.direct y := by
      rw [direct_unload, if_neg hyds]
      exact hxy
    exact (mem_list_unload.mp (hu.listed y hy' x hx')).2 hx
  · intro hclosed
    have hstay : ∀ y ∈ s.loader.list, y ∉ ds → ∀ x ∈ s.loader.direct y, x ∉ ds :=
      fun y hy hyds x hx hxds => hyds (hclosed x hxds y ((h.mem_parents x y).mpr ⟨hy, hx⟩))
    refine ⟨h.nodup.filter _, fun y hy x hx => ?_, fun x => ?_, fun x y => ?_⟩
    · obtain ⟨hylist, hyds⟩ := mem_list_unload.mp hy
      rw [direct_unload, if_neg hyds] at hx
      exact mem_list_unload.mpr ⟨h.listed y hylist x hx, hstay y hylist hyds x hx⟩
    · show (if x ∈ ds then ({} : Refs δ) else refs x).parents.Nodup
      split
      · exact List.nodup_nil
      · rw [hparents]
        exact (h.parents_nodup x).filter _
    · rw [direct_unload, mem_list_unload]
      show y ∈ (if x ∈ ds then ({} : Refs δ) else refs x).parents ↔ _
      constructor
      · intro hy
        split at hy
        · cases hy
        · rw [hparents, List.mem_filter, decide_eq_true_eq] at hy
          obtain ⟨hylist, hxy⟩ := (h.mem_parents x y).mp hy.1
          rw [if_neg hy.2]
          exact ⟨⟨hylist, hy.2⟩, hxy⟩
      · rintro ⟨⟨hylist, hyds⟩, hxy⟩
        rw [if_neg hyds] at hxy
        rw [if_neg (hstay y hylist hyds x hxy), hparents, List.mem_filter, decide_eq_true_eq]
        exact ⟨(h.mem_parents x y).mpr ⟨hylist, hxy⟩, hyds⟩

/-- The handle of `p` is the last one that needs it, and `p` may go. -/
def LastHandle (s : Objects δ) (p : δ) (b : Bool) : Prop :=
  (s.refs p).canUnloadCommon = true ∧ (s.decrAll (p :: s.counted p b)).2 = true ∧
    ((s.decrAll (p :: s.counted p b)).1.refs p).nrDlopen = 0

instance (s : Objects δ) (p : δ) (b : Bool) : Decidable (s.LastHandle p b) :=
  inferInstanceAs (Decidable (_ ∧ _))

/-- The objects when the handle has been taken back, before anything is unloaded. -/
def handedBack (s : Objects δ) (p : δ) (b : Bool) : Objects δ :=
  if (s.refs p).canUnloadCommon = true then (s.decrAll (p :: s.counted p b)).1 else s

theorem sameObjects_handedBack (s : Objects δ) (p : δ) (b : Bool) :
    SameObjects s (s.handedBack p b) := by
  unfold handedBack
  split
  · exact sameObjects_decrAll _ s
  · exact SameObjects.refl s

/-- The two ways through `do_dlclose`. -/
theorem doDlclose_cases (h : s.Consistent) (hp : p ∈ s.loader.list) :
    ¬ s.LastHandle p b ∧ s.doDlclose p b = some (s.handedBack p b, []) ∨
      s.LastHandle p b ∧ ∃ (refs : δ → Refs δ) (ds : List δ),
        s.doDlclose p b = some ({ s.handedBack p b with refs := refs }.unload ds, ds) ∧
        Peeling.Peeled (fun x => (s.refs x).parents) s.loader.direct
          (fun x => ((s.handedBack p b).refs x).canUnload) p ds ∧
        (∀ x, refs x =
          { (s.handedBack p b).refs x with parents := (s.refs x).parents.filter (· ∉ ds) }) ∧
        ∀ x ∈ ds, x ∈ s.loader.list := by
  unfold doDlclose
  by_cases hcommon : (s.refs p).canUnloadCommon = true
  · have hall := sameObjects_decrAll (p :: s.counted p b) s
    have hback : s.handedBack p b = (s.decrAll (p :: s.counted p b)).1 := if_pos hcommon
    rw [if_pos hcommon, hback]
    unfold LastHandle
    cases hdecr : s.decrAll (p :: s.counted p b) with
    | mk t ok =>
      have hsame : SameObjects s t := by
        rw [hdecr] at hall
        exact hall
      cases ok with
      | false => exact Or.inl ⟨fun hlast => Bool.false_ne_true hlast.2.1, rfl⟩
      | true =>
        simp only
        by_cases hnr : 0 < (t.refs p).nrDlopen
        · rw [if_pos hnr]
          exact Or.inl ⟨fun hlast => Nat.ne_of_gt hnr hlast.2.2, rfl⟩
        · rw [if_neg hnr]
          have hpt : p ∈ t.loader.list := by
            rw [hsame.loader]
            exact hp
          obtain ⟨q, hloop, hpeeled, hparents, hlist⟩ := (h.congr hsame).loop hpt
          rw [hloop]
          simp only [hsame.parents, hsame.loader] at hpeeled hparents hlist
          refine Or.inr ⟨⟨hcommon, trivial, Nat.eq_zero_of_not_pos hnr⟩, _, q.taken, rfl, hpeeled,
            fun x => ?_, hlist⟩
          show { t.refs x with parents := q.parents x } = _
          rw [hparents]
  · rw [if_neg hcommon]
    have hback : s.handedBack p b = s := if_neg hcommon
    rw [hback]
    exact Or.inl ⟨fun hlast => hcommon hlast.1, rfl⟩

end Objects

open Objects

variable {s : Objects δ} {p : δ} {b : Bool}

/-- A call of `do_dlclose` comes to its end. Nothing goes unless the handle is the last one. Then
`p` goes, and with it just what has no handle any more and whose parents all go, each object behind
the objects that need it. What stays is consistent just in case the parents of `p` have gone too. -/
theorem doDlclose_unloads (h : s.Consistent) (hp : p ∈ s.loader.list) :
    ∃ u ds, s.doDlclose p b = some (u, ds) ∧ ds.Nodup ∧
      (∀ x, x ∈ u.loader.list ↔ x ∈ s.loader.list ∧ x ∉ ds) ∧
      (¬ s.LastHandle p b → ds = []) ∧
      (s.LastHandle p b → ∀ x, x ∈ ds ↔
        Peeling.Generated (fun x => (s.refs x).parents)
          (fun x => ((s.handedBack p b).refs x).canUnload) p x) ∧
      (∀ before x after, ds = before ++ x :: after → x ≠ p →
        ∀ y ∈ (s.refs x).parents, y ∈ before) ∧
      (u.Consistent ↔ (s.LastHandle p b → ∀ y ∈ (s.refs p).parents, y ∈ ds)) := by
  have hsame := sameObjects_handedBack s p b
  rcases doDlclose_cases (b := b) h hp with ⟨hlast, heq⟩ | ⟨hlast, refs, ds, heq, hds, hrefs, -⟩
  · refine ⟨_, [], heq, List.nodup_nil, fun x => ?_, fun _ => rfl, fun h => absurd h hlast,
      fun before x after hnil => ?_, fun _ h => absurd h hlast, fun _ => h.congr hsame⟩
    · rw [hsame.loader]
      simp
    · simp at hnil
  · have hback := h.congr hsame
    have hparents : ∀ x, (refs x).parents =
        ((s.handedBack p b).refs x).parents.filter (· ∉ ds) := by
      intro x
      rw [hrefs, hsame.parents]
    refine ⟨_, ds, heq, hds.nodup, fun x => ?_, fun h => absurd hlast h, fun _ x => ?_,
      fun before x after hsplit hne y hy => ?_, ?_⟩
    · rw [mem_list_unload]
      show x ∈ (s.handedBack p b).loader.list ∧ _ ↔ _
      rw [hsame.loader]
    · exact hds.mem_iff fun x y hy => ((h.mem_parents x y).mp hy).2
    · exact ((hds.ordered before x after hsplit).resolve_left hne).2.2 y hy
    · rw [hback.unload_iff hparents]
      simp only [hsame.parents]
      constructor
      · exact fun hclosed _ => hclosed p hds.root
      · intro hp' x hx y hy
        by_cases hne : x = p
        · rw [hne] at hy
          exact hp' hlast y hy
        · obtain ⟨before, after, hsplit⟩ := List.append_of_mem hx
          rw [hsplit]
          exact List.mem_append_left _
            (((hds.ordered before x after hsplit).resolve_left hne).2.2 y hy)

/-- Four objects. -/
inductive Corner where
  | top
  | left
  | right
  | bottom
  deriving DecidableEq, Repr

instance : Fintype Corner where
  elems := {.top, .left, .right, .bottom}
  complete c := by cases c <;> simp

/-- The first object needs the second and the third, and both of them need the last one. -/
def diamondNeeds : Corner → List Corner
  | .top => [.left, .right]
  | .left => [.bottom]
  | .right => [.bottom]
  | .bottom => []

/-- All four have come with one handle of the first. -/
def diamond : Objects Corner where
  loader :=
    { dso := fun d =>
        { deps := if d = .top then [.left, .right, .bottom] else diamondNeeds d
          ndepsDirect := (diamondNeeds d).length
          bfsBuilt := d = .top }
      list := [.top, .left, .right, .bottom] }
  refs d :=
    { nrDlopen := 1
      byDlopen := true
      parents := [.top, .left, .right, .bottom].filter fun y => d ∈ diamondNeeds y }

theorem doDlclose_unloads_diamond :
    ∃ u ds, diamond.doDlclose .top false = some (u, ds) ∧ ds.Nodup ∧
      (∀ x, x ∈ u.loader.list ↔ x ∈ diamond.loader.list ∧ x ∉ ds) ∧
      (¬ diamond.LastHandle .top false → ds = []) ∧
      (diamond.LastHandle .top false → ∀ x, x ∈ ds ↔
        Peeling.Generated (fun x => (diamond.refs x).parents)
          (fun x => ((diamond.handedBack .top false).refs x).canUnload) .top x) ∧
      (∀ before x after, ds = before ++ x :: after → x ≠ .top →
        ∀ y ∈ (diamond.refs x).parents, y ∈ before) ∧
      (u.Consistent ↔ (diamond.LastHandle .top false → ∀ y ∈ (diamond.refs .top).parents, y ∈ ds)) :=
  doDlclose_unloads ⟨by decide, by decide, by decide, by decide⟩ (by decide)

example : (diamond.doDlclose .top false).map Prod.snd = some [.top, .left, .right, .bottom] := by decide

end Ldso
