import Mathlib.Algebra.BigOperators.Group.Multiset.Basic
import Mathlib.Order.WellFoundedSet
import OpenHarmonyMac.Infra.Transition
import OpenHarmonyMac.Ldso.Dlopen

/-!
# Handles of loaded objects

`dlopen` counts an object and all that it needs up, `dlclose` counts them down. A thread local
object with a destructor counts like a handle.

* `Session` — the loaded objects, and the handles that the program has
* `handles` — the calls, in any order
-/

namespace Ldso

open Infra
open DepthFirst (Reach)

variable {δ : Type}

/-- The objects of a process, the handles that it has and the counts of its `dso_handle_node`s. -/
structure Session (δ : Type) where
  objects : Objects δ
  handles : δ → Nat := fun _ => 0
  nodes : δ → Nat := fun _ => 0

/-- The calls. `new` are the objects that `dlopen` finds missing, in the order of the list. -/
inductive Call (δ : Type)
  | dlopen (p : δ) (new : List δ) (nodelete : Bool)
  | dlclose (p : δ)
  | addDsoHandle (p : δ)
  | removeDsoHandle (p : δ)

/-- Each of the objects is `p` or is needed by one in front of it. -/
def Discovered (needs : δ → List δ) (p : δ) : List δ → List δ → Prop
  | _, [] => True
  | before, x :: rest =>
    (x = p ∨ ∃ y ∈ before, x ∈ needs y) ∧ Discovered needs p (before ++ [x]) rest

variable [DecidableEq δ]

instance Discovered.decidable (needs : δ → List δ) (p : δ) :
    ∀ before rest, Decidable (Discovered needs p before rest)
  | _, [] => inferInstanceAs (Decidable True)
  | before, x :: rest =>
    have := Discovered.decidable needs p (before ++ [x]) rest
    inferInstanceAs (Decidable (_ ∧ _))

namespace Session

variable (s : Session δ)

/-- A call. Where a function does not come to its end, nothing happens: a `dlopen` that fails takes
back what it has loaded, and that path is left out. -/
def step (files : Files δ) (s : Session δ) : Call δ → Session δ
  | .dlopen p new nodelete =>
    match s.objects.dlopen files p new nodelete with
    | .error _ => s
    | .ok objects =>
      { s with objects := objects, handles := Function.update s.handles p (s.handles p + 1) }
  | .dlclose p =>
    match s.objects.doDlclose p false with
    | none => s
    | some (objects, _) =>
      { s with objects := objects, handles := Function.update s.handles p (s.handles p - 1) }
  | .addDsoHandle p =>
    if 0 < s.nodes p then { s with nodes := Function.update s.nodes p (s.nodes p + 1) }
    else
      match s.objects.addDsoHandle p with
      | .error _ => s
      | .ok objects => { s with objects := objects, nodes := Function.update s.nodes p 1 }
  | .removeDsoHandle p =>
    if s.nodes p = 1 then
      match s.objects.doDlclose p true with
      | none => s
      | some (objects, _) => { s with objects := objects, nodes := Function.update s.nodes p 0 }
    else { s with nodes := Function.update s.nodes p (s.nodes p - 1) }

/-- What `dlopen` finds missing is just what the object needs and what is not loaded. A handle is
given back by who has it. -/
def Enabled (files : Files δ) (s : Session δ) : Call δ → Prop
  | .dlopen p new _ =>
    (p ∈ s.objects.loader.list ++ new) ∧ new.Nodup ∧ (∀ x ∈ new, x ∉ s.objects.loader.list) ∧
      (∀ x ∈ new, ∀ d ∈ files.needs x, d ∈ s.objects.loader.list ++ new) ∧
      Discovered files.needs p [] new
  | .dlclose p => 0 < s.handles p
  | .addDsoHandle p => p ∈ s.objects.loader.list
  | .removeDsoHandle p => 0 < s.nodes p

instance (files : Files δ) (s : Session δ) : ∀ e, Decidable (s.Enabled files e)
  | .dlopen _ _ _ => inferInstanceAs (Decidable (_ ∧ _))
  | .dlclose p => inferInstanceAs (Decidable (0 < s.handles p))
  | .addDsoHandle p => inferInstanceAs (Decidable (p ∈ s.objects.loader.list))
  | .removeDsoHandle p => inferInstanceAs (Decidable (0 < s.nodes p))

/-- The objects that the program has been started with. -/
structure Initial (files : Files δ) (s : Session δ) : Prop where
  handles : ∀ p, s.handles p = 0 ∧ s.nodes p = 0
  consistent : s.objects.Consistent
  wellFormed : s.objects.loader.WellFormed
  direct : ∀ x ∈ s.objects.loader.list, s.objects.loader.direct x = files.needs x
  refs : ∀ x, (s.objects.refs x).byDlopen = false ∧ (s.objects.refs x).nrDlopen = 0

end Session

/-- A process that loads and unloads objects. -/
def handles (files : Files δ) : System (Session δ) (Call δ) where
  init := Session.Initial files
  enabled := Session.Enabled files
  step := Session.step files

instance (files : Files δ) : ∀ s e, Decidable ((handles files).enabled s e) :=
  fun s e => inferInstanceAs (Decidable (s.Enabled files e))

/-! ## The counts -/

section Held

open Objects

variable {files : Files δ} {s t : Objects δ} {opens : Multiset δ} {p x y : δ} {b : Bool}

/-- The counts are those of the handles `opens`, and each of the objects stays for a reason: it may
not go, or a handle needs it. What an object that may not go needs may not go either. -/
structure Held (files : Files δ) (s : Objects δ) (opens : Multiset δ) : Prop where
  consistent : s.Consistent
  keeps : Keeps files.needs s.loader
  loaded : ∀ p ∈ opens, p ∈ s.loader.list
  counts : ∀ x, (s.refs x).nrDlopen = (opens.map (owes files.needs · x)).sum
  pinned : ∀ y ∈ s.loader.list, (s.refs y).canUnloadCommon = false →
    ∀ x ∈ files.needs y, (s.refs x).canUnloadCommon = false
  alive : ∀ x ∈ s.loader.list, (s.refs x).canUnloadCommon = true → 0 < (s.refs x).nrDlopen

theorem sum_owes_pos_iff :
    0 < (opens.map (owes files.needs · x)).sum ↔ ∃ p ∈ opens, Reach files.needs p x := by
  induction opens using Multiset.induction with
  | empty => simp
  | cons p opens ih =>
    rw [Multiset.map_cons, Multiset.sum_cons, Nat.add_pos_iff_pos_or_pos, ih, owes_pos_iff]
    simp

theorem Held.pos_iff (h : Held files s opens) :
    0 < (s.refs x).nrDlopen ↔ ∃ p ∈ opens, Reach files.needs p x := by
  rw [h.counts, sum_owes_pos_iff]

omit [DecidableEq δ] in
/-- What a loaded object reaches is loaded. -/
theorem mem_list_of_needs {needs : δ → List δ} {s : Loader δ} (h : Keeps needs s) (hp : p ∈ s.list)
    (hx : Reach needs p x) : x ∈ s.list := by
  induction hx with
  | refl => exact hp
  | tail _ hz ih => exact h.listed _ ih _ hz

/-- The counts when the handle of `p` is taken back. -/
theorem Held.handedBack (h : Held files s opens) (hp : p ∈ opens)
    (hcommon : (s.refs p).canUnloadCommon = true) (hbuilt : Built s.loader p b) :
    (s.decrAll (p :: s.counted p b)).2 = true ∧
      ∀ x, ((s.handedBack p b).refs x).nrDlopen =
        ((opens.erase p).map (owes files.needs · x)).sum := by
  have hplist := h.loaded p hp
  have hcount : ∀ x, (p :: s.counted p b).count x = owes files.needs p x := fun x =>
    count_eq_owes h.keeps hplist (complete_counted h.keeps.wellFormed hplist hbuilt)
  have hsum : ∀ x, owes files.needs p x + ((opens.erase p).map (owes files.needs · x)).sum =
      (s.refs x).nrDlopen := by
    intro x
    rw [h.counts]
    exact Multiset.sum_map_erase (f := (owes files.needs · x)) hp
  obtain ⟨hok, hall⟩ := decrAll_of_le (p :: s.counted p b) s fun x => by
    rw [hcount]
    have := hsum x
    omega
  refine ⟨hok, fun x => ?_⟩
  have hback : s.handedBack p b = (s.decrAll (p :: s.counted p b)).1 := if_pos hcommon
  rw [hback]
  have := hall x
  have := hsum x
  rw [hcount] at *
  omega

omit [DecidableEq δ] in
/-- Loaded objects have no endless chain of parents. -/
theorem wellFounded_parents (hacyclic : ∀ x, ¬ Relation.TransGen (fun a b => b ∈ files.needs a) x x)
    (hc : s.Consistent) (hk : Keeps files.needs s.loader) :
    WellFounded fun y x => y ∈ (s.refs x).parents := by
  let above : δ → δ → Prop := fun y x => Relation.TransGen (fun a b => b ∈ files.needs a) y x
  have hirrefl : Std.Irrefl above := ⟨hacyclic⟩
  have htrans : IsTrans δ above := ⟨fun _ _ _ hab hbc => hab.trans hbc⟩
  have hstrict : IsStrictOrder δ above := { hirrefl, htrans with }
  have hfinite : {x | x ∈ s.loader.list}.Finite := List.finite_toSet s.loader.list
  have hwf : {x | x ∈ s.loader.list}.WellFoundedOn above := hfinite.wellFoundedOn
  rw [Set.wellFoundedOn_iff] at hwf
  refine Subrelation.wf (fun {y x} hy => ?_) hwf
  obtain ⟨hylist, hxy⟩ := (hc.mem_parents x y).mp hy
  rw [hk.direct y hylist] at hxy
  exact ⟨Relation.TransGen.single hxy, hylist, hk.listed y hylist x hxy⟩

/-- What a call leaves of the objects that stay. -/
structure Stays (s t : Objects δ) : Prop where
  list : ∀ x ∈ t.loader.list, x ∈ s.loader.list
  pinned : ∀ x ∈ s.loader.list, (s.refs x).canUnloadCommon = false → x ∈ t.loader.list
  common : ∀ x ∈ t.loader.list, (t.refs x).canUnloadCommon = (s.refs x).canUnloadCommon
  built : ∀ x ∈ t.loader.list, ∀ b, Built s.loader x b → Built t.loader x b

/-- An object that may go and has no handle left does not need to stay for its parents: they have no
handle left either. -/
theorem Held.parent_of_zero (h : Held files s opens) (hy : y ∈ (s.refs x).parents)
    (hcommon : (s.refs x).canUnloadCommon = true)
    (hzero : ((opens.erase p).map (owes files.needs · x)).sum = 0) :
    y ∈ s.loader.list ∧ (s.refs y).canUnloadCommon = true ∧
      ((opens.erase p).map (owes files.needs · y)).sum = 0 := by
  obtain ⟨hylist, hxy⟩ := (h.consistent.mem_parents x y).mp hy
  rw [h.keeps.direct y hylist] at hxy
  refine ⟨hylist, ?_, ?_⟩
  · by_contra hnot
    rw [Bool.not_eq_true] at hnot
    have hpinned := h.pinned y hylist hnot x hxy
    rw [hcommon] at hpinned
    cases hpinned
  · by_contra hnot
    obtain ⟨q, hq, hreach⟩ := sum_owes_pos_iff.mp (Nat.pos_of_ne_zero hnot)
    exact Nat.ne_of_gt (sum_owes_pos_iff.mpr ⟨q, hq, hreach.tail hxy⟩) hzero

/-- When the handle of `p` was not the last one that needs it, each object still has one. -/
theorem Held.alive_of_pos (h : Held files s opens)
    (hpos : 0 < ((opens.erase p).map (owes files.needs · p)).sum) (hx : 0 < (s.refs x).nrDlopen) :
    0 < ((opens.erase p).map (owes files.needs · x)).sum := by
  obtain ⟨q, hq, hqx⟩ := h.pos_iff.mp hx
  obtain ⟨r, hr, hrp⟩ := sum_owes_pos_iff.mp hpos
  by_cases hqp : q = p
  · rw [hqp] at hqx
    exact sum_owes_pos_iff.mpr ⟨r, hr, hrp.trans hqx⟩
  · exact sum_owes_pos_iff.mpr ⟨q, (Multiset.mem_erase_of_ne hqp).mpr hq, hqx⟩

/-- `do_dlclose` for the owner of a handle: it unloads just what no handle needs any more. -/
theorem Held.doDlclose
    (hacyclic : ∀ x, ¬ Relation.TransGen (fun a b => b ∈ files.needs a) x x)
    (h : Held files s opens) (hp : p ∈ opens) (hcommon : (s.refs p).canUnloadCommon = true)
    (hbuilt : Built s.loader p b) :
    ∃ u ds, s.doDlclose p b = some (u, ds) ∧ Held files u (opens.erase p) ∧ Stays s u := by
  have hplist := h.loaded p hp
  have hsame := sameObjects_handedBack s p b
  obtain ⟨hok, hcounts⟩ := h.handedBack hp hcommon hbuilt
  have hsub : ∀ q, q ∈ opens.erase p → q ∈ opens := fun q hq => Multiset.mem_of_mem_erase hq
  have hback : s.handedBack p b = (s.decrAll (p :: s.counted p b)).1 := if_pos hcommon
  rcases doDlclose_cases (b := b) h.consistent hplist with
    ⟨hlast, heq⟩ | ⟨hlast, refs, ds, heq, hds, hrefs, hlist⟩
  · have hpos : 0 < ((opens.erase p).map (owes files.needs · p)).sum := by
      rw [← hcounts p, hback]
      exact Nat.pos_of_ne_zero fun hzero => hlast ⟨hcommon, hok, hzero⟩
    refine ⟨_, [], heq, ⟨h.consistent.congr hsame, ?_, fun q hq => ?_, hcounts,
      fun y hy hpin x hx => ?_, fun x hx hgo => ?_⟩, ⟨fun x hx => ?_,
      fun x hx _ => ?_, fun x _ => hsame.canUnloadCommon x, fun x _ b' hb => ?_⟩⟩
    · rw [hsame.loader]
      exact h.keeps
    · rw [hsame.loader]
      exact h.loaded q (hsub q hq)
    · rw [hsame.loader] at hy
      rw [hsame.canUnloadCommon] at hpin ⊢
      exact h.pinned y hy hpin x hx
    · rw [hsame.loader] at hx
      rw [hsame.canUnloadCommon] at hgo
      rw [hcounts]
      exact h.alive_of_pos hpos (h.alive x hx hgo)
    · rw [hsame.loader] at hx
      exact hx
    · rw [hsame.loader]
      exact hx
    · rw [hsame.loader]
      exact hb
  · have hzero : ((opens.erase p).map (owes files.needs · p)).sum = 0 := by
      rw [← hcounts p, hback]
      exact hlast.2.2
    have hfree : ∀ x, ((s.handedBack p b).refs x).canUnload = true ↔
        (s.refs x).canUnloadCommon = true ∧
          ((opens.erase p).map (owes files.needs · x)).sum = 0 := by
      intro x
      rw [Refs.canUnload, hsame.canUnloadCommon, hcounts, Bool.and_eq_true, beq_iff_eq]
    have hsucc : ∀ x, ∀ y ∈ (s.refs x).parents, x ∈ s.loader.direct y := fun x y hy =>
      ((h.consistent.mem_parents x y).mp hy).2
    -- what goes is what may go and has no handle left
    have hmem : ∀ x, x ∈ ds ↔ x ∈ s.loader.list ∧ (s.refs x).canUnloadCommon = true ∧
        ((opens.erase p).map (owes files.needs · x)).sum = 0 := by
      intro x
      constructor
      · intro hx
        refine ⟨hlist x hx, ?_⟩
        obtain ⟨before, after, hsplit⟩ := List.append_of_mem hx
        rcases hds.ordered before x after hsplit with rfl | ⟨hx, -⟩
        · exact ⟨hcommon, hzero⟩
        · exact (hfree x).mp hx
      · have hwf := wellFounded_parents hacyclic h.consistent h.keeps
        refine hds.mem_of_forall hsucc hwf (Z := fun x => x ∈ s.loader.list ∧
          (s.refs x).canUnloadCommon = true ∧
          ((opens.erase p).map (owes files.needs · x)).sum = 0) fun x hx => ?_
        obtain ⟨hxlist, hgo, hxzero⟩ := hx
        by_cases hxp : x = p
        · exact Or.inl hxp
        refine Or.inr ⟨(hfree x).mpr ⟨hgo, hxzero⟩, ?_, fun y hy =>
          h.parent_of_zero hy hgo hxzero⟩
        obtain ⟨q, hq, hqx⟩ := h.pos_iff.mp (h.alive x hxlist hgo)
        have hqp : q = p := by
          by_contra hqp
          have hq' := (Multiset.mem_erase_of_ne hqp).mpr hq
          exact Nat.ne_of_gt (sum_owes_pos_iff.mpr ⟨q, hq', hqx⟩) hxzero
        rw [hqp] at hqx
        -- the last step from `p` to `x` comes from a parent
        rcases Relation.ReflTransGen.cases_tail hqx with rfl | ⟨y, hpy, hyx⟩
        · exact absurd rfl hxp
        · have hylist := mem_list_of_needs h.keeps hplist hpy
          refine List.ne_nil_of_mem ((h.consistent.mem_parents x y).mpr ⟨hylist, ?_⟩)
          rw [h.keeps.direct y hylist]
          exact hyx
    have hparents : ∀ x, (refs x).parents =
        ((s.handedBack p b).refs x).parents.filter (· ∉ ds) := by
      intro x
      rw [hrefs, hsame.parents]
    have hconsistent : ({ s.handedBack p b with refs := refs }.unload ds).Consistent := by
      rw [(h.consistent.congr hsame).unload_iff hparents]
      intro x hx y hy
      rw [hsame.parents] at hy
      obtain ⟨-, hgo, hxzero⟩ := (hmem x).mp hx
      exact (hmem y).mpr (h.parent_of_zero hy hgo hxzero)
    have hkeeps : Keeps files.needs (s.handedBack p b).loader := by
      rw [hsame.loader]
      exact h.keeps
    have hlist' : ∀ x, x ∈ ({ s.handedBack p b with refs := refs }.unload ds).loader.list ↔
        x ∈ s.loader.list ∧ x ∉ ds := by
      intro x
      rw [mem_list_unload]
      show x ∈ (s.handedBack p b).loader.list ∧ _ ↔ _
      rw [hsame.loader]
    have hrefs' : ∀ x, ({ s.handedBack p b with refs := refs }.unload ds).refs x =
        if x ∈ ds then {} else refs x := fun x => rfl
    have hcommon' : ∀ x, (refs x).canUnloadCommon = (s.refs x).canUnloadCommon := by
      intro x
      rw [hrefs]
      exact hsame.canUnloadCommon x
    have hnr : ∀ x, (refs x).nrDlopen =
        ((opens.erase p).map (owes files.needs · x)).sum := by
      intro x
      rw [hrefs]
      exact hcounts x
    refine ⟨_, ds, heq, ⟨hconsistent, Keeps.unload hkeeps hconsistent, fun q hq => ?_, fun x => ?_,
      fun y hy hpin x hx => ?_, fun x hx hgo => ?_⟩, ⟨fun x hx => ((hlist' x).mp hx).1,
      fun x hx hpin => (hlist' x).mpr ⟨hx, fun hxds => ?_⟩, fun x hx => ?_, fun x hx b' hb => ?_⟩⟩
    · rw [hlist']
      refine ⟨h.loaded q (hsub q hq), fun hqds => ?_⟩
      exact Nat.ne_of_gt (sum_owes_pos_iff.mpr ⟨q, hq, Relation.ReflTransGen.refl⟩)
        ((hmem q).mp hqds).2.2
    · rw [hrefs']
      split
      · next hx => exact ((hmem x).mp hx).2.2.symm
      · exact hnr x
    · obtain ⟨hylist, hyds⟩ := (hlist' y).mp hy
      rw [hrefs', if_neg hyds, hcommon'] at hpin
      have hxpin := h.pinned y hylist hpin x hx
      rw [hrefs', if_neg fun hxds => ?_, hcommon']
      · exact hxpin
      · rw [((hmem x).mp hxds).2.1] at hxpin
        cases hxpin
    · obtain ⟨hxlist, hxds⟩ := (hlist' x).mp hx
      rw [hrefs', if_neg hxds] at hgo ⊢
      rw [hcommon'] at hgo
      rw [hnr]
      exact Nat.pos_of_ne_zero fun hxzero => hxds ((hmem x).mpr ⟨hxlist, hgo, hxzero⟩)
    · rw [((hmem x).mp hxds).2.1] at hpin
      cases hpin
    · rw [hrefs', if_neg ((hlist' x).mp hx).2, hcommon']
    · have hdso : ({ s.handedBack p b with refs := refs }.unload ds).loader.dso x =
          s.loader.dso x := by
        rw [← hsame.loader]
        exact if_neg ((hlist' x).mp hx).2
      unfold Built
      rw [hdso]
      exact hb

/-- What a call leaves of the objects that were there. -/
structure Grows (s t : Objects δ) : Prop where
  list : ∀ x ∈ s.loader.list, x ∈ t.loader.list
  common : ∀ x ∈ s.loader.list, (t.refs x).canUnloadCommon = true →
    (s.refs x).canUnloadCommon = true
  built : ∀ x ∈ s.loader.list, ∀ b, Built s.loader x b → Built t.loader x b

/-- A new handle of `p`, when what was missing has been loaded and the array of `p` is there. -/
theorem Held.countUp {new : List δ} {loader : Loader δ} (nodelete : Bool) (h : Held files s opens)
    (hload : Loaded files s t new) (hnew : ∀ x ∈ new, x ∉ s.loader.list)
    (hreach : ∀ x ∈ new, Reach files.needs p x) (hnodelete : ∀ x, files.nodelete x = false)
    (hlist : loader.list = t.loader.list) (hdirect : loader.direct = t.loader.direct)
    (hkeeps : Keeps files.needs loader) (hp : p ∈ loader.list) (hbuilt : Built loader p b)
    (hmono : ∀ x b', Built t.loader x b' → Built loader x b') :
    Held files ((p :: ({ t with loader := loader } : Objects δ).counted p b).foldl
        (fun s d => (s.incr d).pin nodelete d) { t with loader := loader }) (p ::ₘ opens) ∧
      Grows s ((p :: ({ t with loader := loader } : Objects δ).counted p b).foldl
        (fun s d => (s.incr d).pin nodelete d) { t with loader := loader }) := by
  have hcomplete : Complete ({ t with loader := loader } : Objects δ).loader p
      (({ t with loader := loader } : Objects δ).counted p b) :=
    complete_counted hkeeps.wellFormed hp hbuilt
  have hcount : ∀ x, (p :: ({ t with loader := loader } : Objects δ).counted p b).count x =
      owes files.needs p x := fun x => count_eq_owes hkeeps hp hcomplete
  have hmem : ∀ x, x ∈ p :: ({ t with loader := loader } : Objects δ).counted p b ↔
      Reach files.needs p x := by
    intro x
    rw [← List.count_pos_iff, hcount, owes_pos_iff]
  obtain ⟨huloader, hurefs⟩ := foldl_incr_pin nodelete
    (p :: ({ t with loader := loader } : Objects δ).counted p b) { t with loader := loader }
  generalize (p :: ({ t with loader := loader } : Objects δ).counted p b).foldl
    (fun s d => (s.incr d).pin nodelete d) { t with loader := loader } = u at *
  have hulist : ∀ x, x ∈ u.loader.list ↔ x ∈ s.loader.list ∨ x ∈ new := by
    intro x
    rw [huloader]
    show x ∈ loader.list ↔ _
    rw [hlist, hload.list, List.mem_append]
  have hnr : ∀ x, (u.refs x).nrDlopen = (s.refs x).nrDlopen + owes files.needs p x := by
    intro x
    rw [hurefs, hcount]
    show (t.refs x).nrDlopen + _ = _
    rw [hload.nrDlopen]
    split
    · next hx =>
      -- a handle that was there needs nothing that was missing
      have hzero : (s.refs x).nrDlopen = 0 := by
        by_contra hne
        obtain ⟨q, hq, hqx⟩ := h.pos_iff.mp (Nat.pos_of_ne_zero hne)
        exact hnew x hx (mem_list_of_needs h.keeps (h.loaded q hq) hqx)
      rw [hzero]
    · rfl
  have hcommon : ∀ x, (u.refs x).canUnloadCommon = true ↔
      (t.refs x).canUnloadCommon = true ∧ ¬ (nodelete = true ∧ Reach files.needs p x) := by
    intro x
    rw [hurefs, ← hmem]
    simp only [Refs.canUnloadCommon]
    cases (t.refs x).byDlopen <;> cases (t.refs x).nodelete <;> cases nodelete <;> simp
  have hcommon_old : ∀ x ∈ s.loader.list, (t.refs x).canUnloadCommon =
      (s.refs x).canUnloadCommon := by
    intro x hx
    obtain ⟨hby, hno⟩ := hload.old x fun hx' => hnew x hx' hx
    rw [Refs.canUnloadCommon, Refs.canUnloadCommon, hby, hno]
  have hcommon_new : ∀ x ∈ new, (t.refs x).canUnloadCommon = true := by
    intro x hx
    obtain ⟨hby, hno⟩ := hload.fresh x hx
    rw [Refs.canUnloadCommon, hby, hno, hnodelete]
    rfl
  have hudirect : u.loader.direct = t.loader.direct := by
    rw [huloader]
    exact hdirect
  have hulist' : u.loader.list = t.loader.list := by
    rw [huloader]
    exact hlist
  have huparents : ∀ x, (u.refs x).parents = (t.refs x).parents := by
    intro x
    rw [hurefs]
  refine ⟨⟨⟨?_, ?_, fun x => ?_, fun x y => ?_⟩, ?_, fun q hq => ?_, fun x => ?_,
    fun y hy hpin x hx => ?_, fun x hx hgo => ?_⟩, ⟨fun x hx => (hulist x).mpr (Or.inl hx),
    fun x hx hgo => ?_, fun x hx b' hb => ?_⟩⟩
  · rw [hulist']
    exact hload.consistent.nodup
  · rw [hulist', hudirect]
    exact hload.consistent.listed
  · rw [huparents]
    exact hload.consistent.parents_nodup x
  · rw [huparents, hulist', hudirect]
    exact hload.consistent.mem_parents x y
  · rw [huloader]
    exact hkeeps
  · rcases Multiset.mem_cons.mp hq with rfl | hq
    · rw [huloader]
      exact hp
    · exact (hulist q).mpr (Or.inl (h.loaded q hq))
  · rw [hnr, Multiset.map_cons, Multiset.sum_cons, h.counts, Nat.add_comm]
  · have hpin' : ¬ (t.refs y).canUnloadCommon = true ∨ nodelete = true ∧ Reach files.needs p y := by
      by_contra hnot
      rw [not_or, not_not] at hnot
      rw [(hcommon y).mpr hnot] at hpin
      cases hpin
    rw [← Bool.not_eq_true, hcommon, not_and_or, not_not]
    rcases hpin' with hpin' | ⟨hno, hreach'⟩
    · rcases (hulist y).mp hy with hy | hy
      · have hxlist := h.keeps.listed y hy x hx
        rw [hcommon_old y hy, Bool.not_eq_true] at hpin'
        rw [hcommon_old x hxlist, Bool.not_eq_true]
        exact Or.inl (h.pinned y hy hpin' x hx)
      · exact absurd (hcommon_new y hy) hpin'
    · exact Or.inr ⟨hno, hreach'.tail hx⟩
  · rw [hnr]
    rcases (hulist x).mp hx with hx | hx
    · have := h.alive x hx (hcommon_old x hx ▸ ((hcommon x).mp hgo).1)
      omega
    · have := owes_pos_iff.mpr (hreach x hx)
      omega
  · rw [← hcommon_old x hx]
    exact ((hcommon x).mp hgo).1
  · rw [huloader]
    refine hmono x b' ?_
    unfold Built
    rw [hload.dso x hx]
    exact hb

omit [DecidableEq δ] in
/-- Each of the missing objects is needed by the first of them. -/
theorem reach_of_discovered {needs : δ → List δ} : ∀ {before rest : List δ},
    (∀ y ∈ before, Reach needs p y) → Discovered needs p before rest → ∀ x ∈ rest, Reach needs p x
  | _, [], _, _ => fun x hx => by cases hx
  | before, d :: rest, hbefore, ⟨hd, hrest⟩ => by
    have hreach : Reach needs p d := by
      rcases hd with rfl | ⟨y, hy, hyd⟩
      · exact Relation.ReflTransGen.refl
      · exact (hbefore y hy).tail hyd
    rw [List.forall_mem_cons]
    refine ⟨hreach, reach_of_discovered (fun y hy => ?_) hrest⟩
    rcases List.mem_append.mp hy with hy | hy
    · exact hbefore y hy
    · rw [List.mem_singleton.mp hy]
      exact hreach

theorem Held.dlopen {new : List δ} (nodelete : Bool) (h : Held files s opens)
    (hnodelete : ∀ x, files.nodelete x = false) (hp : p ∈ s.loader.list ++ new)
    (hnodup : new.Nodup) (hnew : ∀ x ∈ new, x ∉ s.loader.list)
    (hneeds : ∀ x ∈ new, ∀ d ∈ files.needs x, d ∈ s.loader.list ++ new)
    (hfound : Discovered files.needs p [] new) :
    ∃ u, s.dlopen files p new nodelete = .ok u ∧ Held files u (p ::ₘ opens) ∧ Grows s u ∧
      Built u.loader p false := by
  have hload := loaded_loadAll h.consistent h.keeps hnodup hnew hneeds
  have hpt : p ∈ (s.loadAll files new).loader.list := by
    rw [hload.list]
    exact hp
  obtain ⟨loader, hextend, hlist, hdirect, hkeeps, hbuilt, hmono⟩ := extend_ok hload.keeps hpt false
  have hploader : p ∈ loader.list := by
    rw [hlist]
    exact hpt
  unfold Objects.dlopen
  rw [hextend]
  obtain ⟨hheld, hgrows⟩ := h.countUp nodelete hload hnew
    (reach_of_discovered (fun y hy => by cases hy) hfound) hnodelete hlist hdirect hkeeps hploader
    hbuilt hmono
  refine ⟨_, rfl, hheld, hgrows, ?_⟩
  unfold dlopenPost
  rw [(foldl_incr_pin _ _ _).1]
  exact hbuilt

/-- Where nothing is missing. -/
theorem loaded_nil (h : Held files s opens) : Loaded files s s [] where
  list := (List.append_nil _).symm
  dso _ _ := rfl
  consistent := h.consistent
  keeps := h.keeps
  nrDlopen x := by simp
  fresh x hx := by cases hx
  old x _ := ⟨rfl, rfl⟩

theorem Held.addDsoHandle (h : Held files s opens) (hnodelete : ∀ x, files.nodelete x = false)
    (hp : p ∈ s.loader.list) :
    ∃ u, s.addDsoHandle p = .ok u ∧ Grows s u ∧
      ((s.refs p).byDlopen = false ∧ u = s ∨
        Held files u (p ::ₘ opens) ∧ Built u.loader p true) := by
  have hincr : (incr : Objects δ → δ → Objects δ) = fun s d => (s.incr d).pin false d := rfl
  unfold Objects.addDsoHandle
  by_cases hby : (s.refs p).byDlopen = true
  · rw [if_pos hby]
    by_cases hbfs : (s.loader.dso p).bfsBuilt = true
    · rw [if_pos hbfs, hincr]
      have hbuilt : Built s.loader p true := Or.inl hbfs
      obtain ⟨hheld, hgrows⟩ := h.countUp (b := true) false (loaded_nil h) nofun nofun hnodelete
        rfl rfl h.keeps hp hbuilt fun _ _ hb => hb
      refine ⟨_, rfl, hgrows, Or.inr ⟨hheld, ?_⟩⟩
      rw [(foldl_incr_pin _ _ _).1]
      exact hbuilt
    · rw [if_neg hbfs]
      obtain ⟨loader, hextend, hlist, hdirect, hkeeps, hbuilt, hmono⟩ := extend_ok h.keeps hp true
      rw [hextend, hincr]
      have hploader : p ∈ loader.list := by
        rw [hlist]
        exact hp
      obtain ⟨hheld, hgrows⟩ := h.countUp (b := true) false (loaded_nil h) nofun nofun hnodelete
        hlist hdirect hkeeps hploader hbuilt hmono
      refine ⟨_, rfl, hgrows, Or.inr ⟨hheld, ?_⟩⟩
      rw [(foldl_incr_pin _ _ _).1]
      exact hbuilt
  · rw [if_neg hby]
    exact ⟨s, rfl, ⟨fun x hx => hx, fun x _ hgo => hgo, fun x _ b' hb => hb⟩,
      Or.inl ⟨by simpa using hby, rfl⟩⟩

theorem doDlclose_pinned (hpin : (s.refs p).canUnloadCommon = false) :
    s.doDlclose p b = some (s, []) := by
  unfold Objects.doDlclose
  rw [if_neg (by rw [hpin]; exact Bool.false_ne_true)]

end Held

/-! ## All calls -/

namespace Session

open Objects

variable {files : Files δ} {s : Session δ} {opens : Multiset δ} {p : δ} {e : Call δ}

/-- The handles that count are those of the program, as far as objects may go at all. -/
structure Invariant (files : Files δ) (s : Session δ) (opens : Multiset δ) : Prop where
  held : Held files s.objects opens
  count : ∀ p ∈ s.objects.loader.list, (s.objects.refs p).canUnloadCommon = true →
    opens.count p = s.handles p + if 0 < s.nodes p then 1 else 0
  loaded : ∀ p, 0 < s.handles p ∨ 0 < s.nodes p → p ∈ s.objects.loader.list
  built : ∀ p, 0 < s.handles p → Built s.objects.loader p false
  nodesBuilt : ∀ p, 0 < s.nodes p → (s.objects.refs p).canUnloadCommon = true →
    Built s.objects.loader p true

theorem invariant_initial (h : Initial files s) : Invariant files s 0 where
  held :=
    { consistent := h.consistent
      keeps := ⟨h.consistent.nodup, h.wellFormed, h.direct⟩
      loaded := fun p hp => absurd hp (Multiset.notMem_zero p)
      counts := fun x => (h.refs x).2
      pinned := fun _ _ _ x _ => by rw [Refs.canUnloadCommon, (h.refs x).1]; rfl
      alive := fun x _ hgo => by rw [Refs.canUnloadCommon, (h.refs x).1] at hgo; cases hgo }
  count p _ hgo := by rw [Refs.canUnloadCommon, (h.refs p).1] at hgo; cases hgo
  loaded p hp := by rw [(h.handles p).1, (h.handles p).2] at hp; simp at hp
  built p hp := by rw [(h.handles p).1] at hp; cases hp
  nodesBuilt p hp := by rw [(h.handles p).2] at hp; cases hp

/-- A handle more. -/
theorem Invariant.grow {u : Objects δ} {handles nodes : δ → Nat} (h : Invariant files s opens)
    (hheld : Held files u (p ::ₘ opens)) (hgrows : Grows s.objects u)
    (hsum : ∀ q, handles q + (if 0 < nodes q then 1 else 0) =
      s.handles q + (if 0 < s.nodes q then 1 else 0) + if q = p then 1 else 0)
    (hsame : ∀ q, q ≠ p → handles q = s.handles q ∧ nodes q = s.nodes q)
    (hbuilt : 0 < handles p → Built u.loader p false)
    (hnodes : 0 < nodes p → (u.refs p).canUnloadCommon = true → Built u.loader p true) :
    Invariant files { objects := u, handles := handles, nodes := nodes } (p ::ₘ opens) := by
  have hp : p ∈ u.loader.list := hheld.loaded p (Multiset.mem_cons_self p opens)
  refine ⟨hheld, fun q hq hgo => ?_, fun q hq => ?_, fun q hq => ?_, fun q hq hgo => ?_⟩
  · show (p ::ₘ opens).count q = handles q + if 0 < nodes q then 1 else 0
    rw [hsum q, Multiset.count_cons]
    by_cases hqs : q ∈ s.objects.loader.list
    · rw [h.count q hqs (hgrows.common q hqs hgo)]
    · have hnone : ¬ (0 < s.handles q ∨ 0 < s.nodes q) := fun hq' => hqs (h.loaded q hq')
      have hopens : opens.count q = 0 :=
        Multiset.count_eq_zero.mpr fun hq' => hqs (h.held.loaded q hq')
      rw [not_or] at hnone
      rw [hopens, if_neg hnone.2, Nat.eq_zero_of_not_pos hnone.1]
  · by_cases hqp : q = p
    · rw [hqp]
      exact hp
    · have hq' : 0 < handles q ∨ 0 < nodes q := hq
      rw [(hsame q hqp).1, (hsame q hqp).2] at hq'
      exact hgrows.list q (h.loaded q hq')
  · by_cases hqp : q = p
    · rw [hqp] at hq ⊢
      exact hbuilt hq
    · have hq' : 0 < handles q := hq
      rw [(hsame q hqp).1] at hq'
      exact hgrows.built q (h.loaded q (Or.inl hq')) false (h.built q hq')
  · by_cases hqp : q = p
    · rw [hqp] at hq hgo ⊢
      exact hnodes hq hgo
    · have hq' : 0 < nodes q := hq
      rw [(hsame q hqp).2] at hq'
      have hqs := h.loaded q (Or.inr hq')
      exact hgrows.built q hqs true (h.nodesBuilt q hq' (hgrows.common q hqs hgo))

/-- A handle less, of an object that may go. -/
theorem Invariant.shrink {u : Objects δ} {handles nodes : δ → Nat} (h : Invariant files s opens)
    (hheld : Held files u (opens.erase p)) (hstays : Stays s.objects u)
    (hsum : ∀ q, handles q + (if 0 < nodes q then 1 else 0) + (if q = p then 1 else 0) =
      s.handles q + if 0 < s.nodes q then 1 else 0)
    (hle : ∀ q, handles q ≤ s.handles q ∧ nodes q ≤ s.nodes q) :
    Invariant files { objects := u, handles := handles, nodes := nodes } (opens.erase p) := by
  have hcount : ∀ q ∈ s.objects.loader.list, (s.objects.refs q).canUnloadCommon = true →
      (opens.erase p).count q = handles q + if 0 < nodes q then 1 else 0 := by
    intro q hq hgo
    have hq := h.count q hq hgo
    have hqsum := hsum q
    by_cases hqp : q = p
    · rw [hqp] at hq hqsum ⊢
      rw [Multiset.count_erase_self]
      rw [if_pos rfl] at hqsum
      omega
    · rw [Multiset.count_erase_of_ne hqp]
      rw [if_neg hqp] at hqsum
      omega
  have hloaded : ∀ q, 0 < handles q ∨ 0 < nodes q → q ∈ u.loader.list := by
    intro q hq
    have hqs : q ∈ s.objects.loader.list := by
      refine h.loaded q (hq.imp (fun hq => ?_) fun hq => ?_)
      · exact Nat.lt_of_lt_of_le hq (hle q).1
      · exact Nat.lt_of_lt_of_le hq (hle q).2
    cases hgo : (s.objects.refs q).canUnloadCommon with
    | false => exact hstays.pinned q hqs hgo
    | true =>
      refine hheld.loaded q (Multiset.count_pos.mp ?_)
      rw [hcount q hqs hgo]
      rcases hq with hq | hq
      · omega
      · rw [if_pos hq]
        omega
  refine ⟨hheld, fun q hq hgo => ?_, hloaded, fun q hq => ?_, fun q hq hgo => ?_⟩
  · have hgo' : (u.refs q).canUnloadCommon = true := hgo
    rw [hstays.common q hq] at hgo'
    exact hcount q (hstays.list q hq) hgo'
  · have hq' : 0 < handles q := hq
    exact hstays.built q (hloaded q (Or.inl hq')) false
      (h.built q (Nat.lt_of_lt_of_le hq' (hle q).1))
  · have hq' : 0 < nodes q := hq
    have hqu := hloaded q (Or.inr hq')
    have hgo' : (u.refs q).canUnloadCommon = true := hgo
    rw [hstays.common q hqu] at hgo'
    exact hstays.built q hqu true (h.nodesBuilt q (Nat.lt_of_lt_of_le hq' (hle q).2) hgo')

/-- The objects stay as they are, and `p` is not one that may go, or has as many handles that count
as before. -/
theorem Invariant.same {handles nodes : δ → Nat} (h : Invariant files s opens)
    (hsum : ∀ q, q ≠ p → handles q = s.handles q ∧ nodes q = s.nodes q)
    (hp : (s.objects.refs p).canUnloadCommon = false ∨
      handles p = s.handles p ∧ (0 < nodes p ↔ 0 < s.nodes p))
    (hloaded : p ∈ s.objects.loader.list) (hle : handles p ≤ s.handles p) :
    Invariant files { s with handles := handles, nodes := nodes } opens := by
  refine ⟨h.held, fun q hq hgo => ?_, fun q hq => ?_, fun q hq => ?_, fun q hq hgo => ?_⟩
  · show opens.count q = handles q + if 0 < nodes q then 1 else 0
    by_cases hqp : q = p
    · rw [hqp] at hq hgo ⊢
      have hgo' : (s.objects.refs p).canUnloadCommon = true := hgo
      obtain ⟨hhandles, hnodes⟩ := hp.resolve_left (by rw [hgo']; exact Bool.true_eq_false_eq_False)
      rw [hhandles, h.count p hq hgo]
      simp only [hnodes]
    · rw [(hsum q hqp).1, (hsum q hqp).2]
      exact h.count q hq hgo
  · by_cases hqp : q = p
    · rw [hqp]
      exact hloaded
    · have hq' : 0 < handles q ∨ 0 < nodes q := hq
      rw [(hsum q hqp).1, (hsum q hqp).2] at hq'
      exact h.loaded q hq'
  · have hq' : 0 < handles q := hq
    by_cases hqp : q = p
    · rw [hqp] at hq' ⊢
      exact h.built p (Nat.lt_of_lt_of_le hq' hle)
    · rw [(hsum q hqp).1] at hq'
      exact h.built q hq'
  · have hq' : 0 < nodes q := hq
    by_cases hqp : q = p
    · rw [hqp] at hq' hgo ⊢
      have hgo' : (s.objects.refs p).canUnloadCommon = true := hgo
      have hnodes := (hp.resolve_left (by rw [hgo']; exact Bool.true_eq_false_eq_False)).2
      exact h.nodesBuilt p (hnodes.mp hq') hgo
    · rw [(hsum q hqp).2] at hq'
      exact h.nodesBuilt q hq' hgo

theorem invariant_step
    (hacyclic : ∀ x, ¬ Relation.TransGen (fun a b => b ∈ files.needs a) x x)
    (hnodelete : ∀ x, files.nodelete x = false) (h : ∃ opens, Invariant files s opens)
    (he : s.Enabled files e) : ∃ opens, Invariant files (s.step files e) opens := by
  obtain ⟨opens, h⟩ := h
  have hupdate : ∀ (f : δ → Nat) (p : δ) (n : Nat) (q : δ), q ≠ p → Function.update f p n q = f q :=
    fun f p n q hq => Function.update_of_ne hq n f
  cases e with
  | dlopen p new nodelete =>
    obtain ⟨hp, hnodup, hnew, hneeds, hfound⟩ := he
    obtain ⟨u, hok, hheld, hgrows, hbuilt⟩ :=
      h.held.dlopen nodelete hnodelete hp hnodup hnew hneeds hfound
    unfold step
    simp only [hok]
    refine ⟨_, h.grow hheld hgrows (fun q => ?_) (fun q hq => ⟨hupdate _ _ _ q hq, rfl⟩)
      (fun _ => hbuilt) fun hnodes hgo => ?_⟩
    · by_cases hq : q = p
      · rw [hq, Function.update_self, if_pos rfl]
        omega
      · rw [hupdate _ _ _ q hq, if_neg hq, Nat.add_zero]
    · exact Or.inl (hbuilt.resolve_right fun hb => Bool.false_ne_true hb.1)
  | dlclose p =>
    have hp : 0 < s.handles p := he
    have hplist := h.loaded p (Or.inl hp)
    unfold step
    cases hgo : (s.objects.refs p).canUnloadCommon with
    | false =>
      simp only [doDlclose_pinned hgo]
      refine ⟨opens, h.same (fun q hq => ⟨hupdate _ _ _ q hq, rfl⟩) (Or.inl hgo) hplist ?_⟩
      rw [Function.update_self]
      exact Nat.sub_le _ _
    | true =>
      have hopen : p ∈ opens := Multiset.count_pos.mp (by rw [h.count p hplist hgo]; omega)
      obtain ⟨u, ds, hok, hheld, hstays⟩ :=
        h.held.doDlclose hacyclic hopen hgo (h.built p hp)
      simp only [hok]
      refine ⟨_, h.shrink hheld hstays (fun q => ?_) fun q => ⟨?_, Nat.le_refl _⟩⟩
      · by_cases hq : q = p
        · rw [hq, Function.update_self, if_pos rfl]
          omega
        · rw [hupdate _ _ _ q hq, if_neg hq]
          omega
      · by_cases hq : q = p
        · rw [hq, Function.update_self]
          exact Nat.sub_le _ _
        · exact Nat.le_of_eq (hupdate _ _ _ q hq)
  | addDsoHandle p =>
    have hplist : p ∈ s.objects.loader.list := he
    unfold step
    by_cases hnode : 0 < s.nodes p
    · simp only [if_pos hnode]
      refine ⟨opens, h.same (fun q hq => ⟨rfl, hupdate _ _ _ q hq⟩) (Or.inr ⟨rfl, ?_⟩) hplist
        (Nat.le_refl _)⟩
      rw [Function.update_self]
      exact ⟨fun _ => hnode, fun _ => Nat.succ_pos _⟩
    · simp only [if_neg hnode]
      obtain ⟨u, hok, hgrows, ⟨hby, rfl⟩ | ⟨hheld, hbuilt⟩⟩ :=
        h.held.addDsoHandle hnodelete hplist
      · simp only [hok]
        have hgo : (s.objects.refs p).canUnloadCommon = false := by
          rw [Refs.canUnloadCommon, hby]
          rfl
        exact ⟨opens, h.same (fun q hq => ⟨rfl, hupdate _ _ _ q hq⟩) (Or.inl hgo) hplist
          (Nat.le_refl _)⟩
      · simp only [hok]
        refine ⟨_, h.grow hheld hgrows (fun q => ?_) (fun q hq => ⟨rfl, hupdate _ _ _ q hq⟩)
          (fun hp => hgrows.built p hplist false (h.built p hp)) fun _ _ => hbuilt⟩
        by_cases hq : q = p
        · rw [hq, Function.update_self, if_pos rfl, if_neg hnode, if_pos Nat.zero_lt_one]
        · rw [hupdate _ _ _ q hq, if_neg hq, Nat.add_zero]
  | removeDsoHandle p =>
    have hnode : 0 < s.nodes p := he
    have hplist := h.loaded p (Or.inr hnode)
    unfold step
    by_cases hlast : s.nodes p = 1
    · simp only [if_pos hlast]
      cases hgo : (s.objects.refs p).canUnloadCommon with
      | false =>
        simp only [doDlclose_pinned hgo]
        exact ⟨opens, h.same (fun q hq => ⟨rfl, hupdate _ _ _ q hq⟩) (Or.inl hgo) hplist
          (Nat.le_refl _)⟩
      | true =>
        have hopen : p ∈ opens :=
          Multiset.count_pos.mp (by rw [h.count p hplist hgo, if_pos hnode]; omega)
        obtain ⟨u, ds, hok, hheld, hstays⟩ :=
          h.held.doDlclose hacyclic hopen hgo (h.nodesBuilt p hnode hgo)
        simp only [hok]
        refine ⟨_, h.shrink hheld hstays (fun q => ?_) fun q => ⟨Nat.le_refl _, ?_⟩⟩
        · by_cases hq : q = p
          · rw [hq, Function.update_self, if_pos rfl, if_pos hnode, if_neg (Nat.lt_irrefl 0)]
          · rw [hupdate _ _ _ q hq, if_neg hq, Nat.add_zero]
        · by_cases hq : q = p
          · rw [hq, Function.update_self]
            exact Nat.zero_le _
          · exact Nat.le_of_eq (hupdate _ _ _ q hq)
    · simp only [if_neg hlast]
      refine ⟨opens, h.same (fun q hq => ⟨rfl, hupdate _ _ _ q hq⟩) (Or.inr ⟨rfl, ?_⟩) hplist
        (Nat.le_refl _)⟩
      rw [Function.update_self]
      omega

end Session

/-- In every run, what a loaded object needs is loaded. What a handle or a thread local object with
a destructor needs, directly or not, stays loaded, and nothing else does that may be unloaded. The
dependencies have no cycle, and none of the files has `DF_1_NODELETE`. -/
theorem handles_loaded {files : Files δ} {s₀ s : Session δ} {es : List (Call δ)}
    (hacyclic : ∀ x, ¬ Relation.TransGen (fun a b => b ∈ files.needs a) x x)
    (hnodelete : ∀ x, files.nodelete x = false) (h₀ : (handles files).init s₀)
    (hr : (handles files).Run s₀ es s) :
    s.objects.Consistent ∧
      (∀ y ∈ s.objects.loader.list, ∀ x ∈ files.needs y, x ∈ s.objects.loader.list) ∧
      (∀ p x, 0 < s.handles p ∨ 0 < s.nodes p → Reach files.needs p x →
        x ∈ s.objects.loader.list) ∧
      ∀ x ∈ s.objects.loader.list, (s.objects.refs x).byDlopen = true →
        (s.objects.refs x).nodelete = false →
        ∃ p, (0 < s.handles p ∨ 0 < s.nodes p) ∧ Reach files.needs p x := by
  have hstep : ∀ (s : Session δ) e, (∃ opens, Session.Invariant files s opens) →
      (handles files).enabled s e →
      ∃ opens, Session.Invariant files ((handles files).step s e) opens :=
    fun s e h he => Session.invariant_step hacyclic hnodelete h he
  obtain ⟨opens, h⟩ := hr.invariant hstep ⟨0, Session.invariant_initial h₀⟩
  refine ⟨h.held.consistent, h.held.keeps.listed, fun p x hp hpx => ?_, fun x hx hby hno => ?_⟩
  · exact mem_list_of_needs h.held.keeps (h.loaded p hp) hpx
  · have hgo : (s.objects.refs x).canUnloadCommon = true := by
      rw [Refs.canUnloadCommon, hby, hno]
      rfl
    obtain ⟨p, hp, hpx⟩ := h.held.pos_iff.mp (h.held.alive x hx hgo)
    have hplist := h.held.loaded p hp
    refine ⟨p, ?_, hpx⟩
    -- what may not go needs nothing that may go
    have hpgo : (s.objects.refs p).canUnloadCommon = true := by
      by_contra hnot
      rw [Bool.not_eq_true] at hnot
      have hall : ∀ y, Reach files.needs p y →
          y ∈ s.objects.loader.list ∧ (s.objects.refs y).canUnloadCommon = false := by
        intro y hy
        induction hy with
        | refl => exact ⟨hplist, hnot⟩
        | tail _ hz ih => exact ⟨h.held.keeps.listed _ ih.1 _ hz, h.held.pinned _ ih.1 ih.2 _ hz⟩
      rw [(hall x hpx).2] at hgo
      cases hgo
    have hcount := Multiset.count_pos.mpr hp
    rw [h.count p hplist hpgo] at hcount
    by_contra hnot
    rw [not_or] at hnot
    rw [if_neg hnot.2, Nat.eq_zero_of_not_pos hnot.1] at hcount
    exact Nat.lt_irrefl 0 hcount

/-- No object is loaded. -/
def noObjects : Session Corner where
  objects := { loader := { dso := fun _ => {}, list := [] }, refs := fun _ => {} }

/-- The four objects of the diamond come with a handle of the first. The third has a thread local
object with a destructor when the handle is given back. -/
def diamondCalls : List (Call Corner) :=
  [.dlopen .top [.top, .left, .right, .bottom] false, .addDsoHandle .right, .dlclose .top]

/-- How many objects an object is below. -/
def Corner.height : Corner → Nat
  | .top => 0
  | .left => 1
  | .right => 1
  | .bottom => 2

theorem handles_loaded_diamond :
    let files : Files Corner := { needs := diamondNeeds }
    let s := diamondCalls.foldl (Session.step files) noObjects
    s.objects.Consistent ∧
      (∀ y ∈ s.objects.loader.list, ∀ x ∈ files.needs y, x ∈ s.objects.loader.list) ∧
      (∀ p x, 0 < s.handles p ∨ 0 < s.nodes p → Reach files.needs p x →
        x ∈ s.objects.loader.list) ∧
      ∀ x ∈ s.objects.loader.list, (s.objects.refs x).byDlopen = true →
        (s.objects.refs x).nodelete = false →
        ∃ p, (0 < s.handles p ∨ 0 < s.nodes p) ∧ Reach files.needs p x := by
  refine handles_loaded (fun x hx => ?_) (fun _ => rfl)
    ⟨fun _ => ⟨rfl, rfl⟩, ⟨by decide, by decide, by decide, by decide⟩,
      fun _ h => absurd h List.not_mem_nil, fun _ h => absurd h List.not_mem_nil,
      fun _ => ⟨rfl, rfl⟩⟩
    (System.Run.of_enabledAll (by decide))
  have hlt : ∀ {a b : Corner}, Relation.TransGen (fun a b => b ∈ diamondNeeds a) a b →
      a.height < b.height := by
    have hone : ∀ a, ∀ b ∈ diamondNeeds a, a.height < b.height := by decide
    intro a b hab
    induction hab with
    | single hb => exact hone _ _ hb
    | tail _ hb ih => exact lt_trans ih (hone _ _ hb)
  exact lt_irrefl _ (hlt hx)

example :
    (diamondCalls.foldl (Session.step { needs := diamondNeeds })
      noObjects).objects.loader.list = [.right, .bottom] := by decide

-- an object with `DF_1_NODELETE` stays without a handle, and loses what it needs
example :
    ([.dlopen .top [.top, .left, .right, .bottom] false, .dlclose .top, .dlopen .bottom [] false,
      .dlclose .bottom].foldl
      (Session.step { needs := diamondNeeds, nodelete := fun x => x = .left })
      noObjects).objects.loader.list = [.left] := by decide

end Ldso
