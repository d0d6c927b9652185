import OpenHarmonyMac.Ldso.Unload

/-!
# Loading objects

`dlopen` loads what is missing, tells each object who its parents are, and counts the object and all
that it needs up.

* `Objects.dlopen` — loads an object and all that it needs
* `Objects.addDsoHandle` — the same count for a thread local object with a destructor
* `Keeps`, `Objects.Loaded` — what holds of the objects when they have been loaded
* `owes` — how often a handle of one object counts for another
-/

namespace Ldso

open Infra
open DepthFirst (Reach)

variable {δ : Type}

/-- The files that can be loaded: what each of them needs, and whether it has `DF_1_NODELETE`. -/
structure Files (δ : Type) where
  needs : δ → List δ
  nodelete : δ → Bool := fun _ => false

variable [DecidableEq δ]

namespace Objects

variable (s : Objects δ)

/-- `load_library_header` for a file that has not been loaded. -/
def addObject (files : Files δ) (s : Objects δ) (x : δ) : Objects δ where
  loader :=
    { dso := Function.update s.loader.dso x
        { deps := files.needs x, ndepsDirect := (files.needs x).length }
      list := s.loader.list ++ [x] }
  refs := Function.update s.refs x { byDlopen := true, nodelete := files.nodelete x }

def addParent (parent : δ) (s : Objects δ) (d : δ) : Objects δ :=
  { s with refs := Function.update s.refs d ((s.refs d).addParent parent) }

/-- The end of `preload_direct_deps`. -/
def addParents (s : Objects δ) (x : δ) : Objects δ := (s.loader.direct x).foldl (addParent x) s

/-- `preload_deps`: all that is missing. -/
def loadAll (files : Files δ) (new : List δ) : Objects δ :=
  new.foldl addParents (new.foldl (addObject files) s)

/-- `DSO_FLAGS_NODELETE`. -/
def pin (nodelete : Bool) (s : Objects δ) (d : δ) : Objects δ :=
  if nodelete then { s with refs := Function.update s.refs d { s.refs d with nodelete := true } }
  else s

/-- `dlopen_post`. The flag of the object itself has been set just before. -/
def dlopenPost (p : δ) (nodelete : Bool) : Objects δ :=
  (p :: s.counted p false).foldl (fun s d => (s.incr d).pin nodelete d) s

/-- `extend_bfs_deps` where there is memory. -/
def extend (p : δ) (toDepsAll : Bool) : Except Stop (Objects δ) :=
  match s.loader.extendBfsDeps {} true
    ((s.loader.direct p).length + s.loader.list.length + 1) p toDepsAll with
  | .error e => .error e
  | .ok loader => .ok { s with loader := loader }

/-- `dlopen_impl`, where all files are found and loaded. Where one is not, or memory runs out, the
code unmaps what is new and goes back to the list that it started with, which is left out here. -/
def dlopen (files : Files δ) (p : δ) (new : List δ) (nodelete : Bool) : Except Stop (Objects δ) :=
  match (s.loadAll files new).extend p false with
  | .error e => .error e
  | .ok s => .ok (s.dlopenPost p nodelete)

/-- The part of `add_dso_handle_node` for the first thread local object. -/
def addDsoHandle (p : δ) : Except Stop (Objects δ) :=
  if (s.refs p).byDlopen then
    if (s.loader.dso p).bfsBuilt then .ok ((p :: s.counted p true).foldl incr s)
    else
      match s.extend p true with
      | .error e => .error e
      | .ok s => .ok ((p :: s.counted p true).foldl incr s)
  else .ok s

end Objects

/-! ## What the loader keeps -/

section Needs

variable {needs : δ → List δ} {s t : Loader δ} {p x : δ} {l : List δ}

omit [DecidableEq δ] in
/-- Two relations that agree on a closed list reach the same from it. -/
theorem transGen_congr {direct : δ → List δ} (hlisted : ∀ y ∈ l, ∀ x ∈ needs y, x ∈ l)
    (hsame : ∀ y ∈ l, direct y = needs y) (hp : p ∈ l) :
    Relation.TransGen (fun a b => b ∈ direct a) p x ↔
      Relation.TransGen (fun a b => b ∈ needs a) p x := by
  constructor
  · intro h
    have hboth : Relation.TransGen (fun a b => b ∈ needs a) p x ∧ x ∈ l := by
      induction h with
      | single hx =>
        rw [hsame p hp] at hx
        exact ⟨Relation.TransGen.single hx, hlisted p hp _ hx⟩
      | tail _ hz ih =>
        rw [hsame _ ih.2] at hz
        exact ⟨ih.1.tail hz, hlisted _ ih.2 _ hz⟩
    exact hboth.1
  · intro h
    have hboth : Relation.TransGen (fun a b => b ∈ direct a) p x ∧ x ∈ l := by
      induction h with
      | single hx => exact ⟨Relation.TransGen.single (hsame p hp ▸ hx), hlisted p hp _ hx⟩
      | tail _ hz ih => exact ⟨ih.1.tail (hsame _ ih.2 ▸ hz), hlisted _ ih.2 _ hz⟩
    exact hboth.1

/-- The loaded objects need what their files say. -/
structure Keeps (needs : δ → List δ) (s : Loader δ) : Prop where
  nodup : s.list.Nodup
  wellFormed : s.WellFormed
  direct : ∀ x ∈ s.list, s.direct x = needs x

omit [DecidableEq δ] in
theorem Keeps.listed (h : Keeps needs s) : ∀ y ∈ s.list, ∀ x ∈ needs y, x ∈ s.list := by
  intro y hy x hx
  rw [← h.direct y hy] at hx
  exact (h.wellFormed y hy).listed x hx

omit [DecidableEq δ] in
/-- An object with the same fields keeps them when other objects come or go. -/
theorem Sound.congr (h : Keeps needs s) (ht : ∀ y ∈ l, t.direct y = needs y)
    (hlisted : ∀ y ∈ l, ∀ x ∈ needs y, x ∈ l) (hl : ∀ x ∈ l, x ∈ t.list) (hp : p ∈ s.list)
    (hpl : p ∈ l) (hdso : t.dso p = s.dso p) : Sound t p := by
  have hold := h.wellFormed p hp
  have hdirect : t.direct p = s.direct p := by rw [Loader.direct, Loader.direct, hdso]
  have hcomplete : ∀ {m : List δ}, Complete s p m → Complete t p m := by
    intro m hm
    refine ⟨hdirect ▸ hm.added, fun x => ?_⟩
    rw [hm.mem_iff x]
    show Relation.TransGen (fun a b => b ∈ s.direct a) p x ↔
      Relation.TransGen (fun a b => b ∈ t.direct a) p x
    rw [transGen_congr h.listed h.direct hp, transGen_congr hlisted ht hpl]
  refine ⟨?_, fun e he => ?_, ?_, ?_, ?_, ?_⟩
  · rw [hdso]
    exact hold.unmarked
  · rw [ht p hpl] at he
    exact hl e (hlisted p hpl e he)
  · rw [hdso]
    exact hold.enough
  · rw [hdso]
    exact hold.plain
  · rw [hdso]
    exact fun hb => hcomplete (hold.bfs hb)
  · rw [hdso]
    exact fun hb => hcomplete (hold.all hb)

open Classical in
/-- How often a handle of `p` counts for `x`. -/
noncomputable def owes (needs : δ → List δ) (p x : δ) : Nat :=
  (if x = p then 1 else 0) +
    if x ∈ needs p then (needs p).count x
    else if Relation.TransGen (fun a b => b ∈ needs a) p x then 1 else 0

theorem owes_pos_iff : 0 < owes needs p x ↔ Reach needs p x := by
  classical
  unfold owes
  constructor
  · intro h
    by_cases hx : x = p
    · rw [hx]
    · by_cases hmem : x ∈ needs p
      · exact Relation.ReflTransGen.single hmem
      · by_cases htrans : Relation.TransGen (fun a b => b ∈ needs a) p x
        · exact htrans.to_reflTransGen
        · simp [hx, hmem, htrans] at h
  · intro h
    rcases Relation.reflTransGen_iff_eq_or_transGen.mp h with rfl | htrans
    · simp
    · by_cases hmem : x ∈ needs p
      · have := List.count_pos_iff.mpr hmem
        rw [if_pos hmem]
        omega
      · rw [if_neg hmem, if_pos htrans]
        omega

/-- The object and its array count as often as a handle does. -/
theorem count_eq_owes (h : Keeps needs s) (hp : p ∈ s.list) (hl : Complete s p l) :
    (p :: l).count x = owes needs p x := by
  classical
  obtain ⟨new, hnew, hnodup, hnot⟩ := hl.added
  rw [h.direct p hp] at hnew hnot
  have hmem : x ∈ l ↔ Relation.TransGen (fun a b => b ∈ needs a) p x := by
    rw [hl.mem_iff]
    exact transGen_congr h.listed h.direct hp
  have hcount : l.count x = if x ∈ needs p then (needs p).count x
      else if Relation.TransGen (fun a b => b ∈ needs a) p x then 1 else 0 := by
    rw [← hmem, hnew, List.count_append]
    by_cases hx : x ∈ needs p
    · have hzero : new.count x = 0 := List.count_eq_zero.mpr fun hx' => hnot x hx' hx
      rw [if_pos hx, hzero, Nat.add_zero]
    · have hzero : (needs p).count x = 0 := List.count_eq_zero.mpr hx
      rw [if_neg hx, hzero, Nat.zero_add]
      by_cases hx' : x ∈ new
      · rw [if_pos (List.mem_append_right _ hx')]
        exact List.count_eq_one_of_mem hnodup hx'
      · rw [if_neg (by simp [hx, hx'])]
        exact List.count_eq_zero.mpr hx'
  rw [List.count_cons, hcount, owes, Nat.add_comm]
  by_cases hx : x = p
  · simp [hx]
  · simp [hx, Ne.symm hx]

end Needs

/-! ## Loading -/

namespace Objects

variable {files : Files δ} {s t : Objects δ} {p x d : δ} {new : List δ} {b : Bool}

theorem foldl_addObject (files : Files δ) (hnodup : new.Nodup)
    (hnew : ∀ x ∈ new, x ∉ s.loader.list) :
    (new.foldl (addObject files) s).loader.list = s.loader.list ++ new ∧
      (∀ x, (new.foldl (addObject files) s).loader.dso x =
        if x ∈ new then { deps := files.needs x, ndepsDirect := (files.needs x).length }
        else s.loader.dso x) ∧
      ∀ x, (new.foldl (addObject files) s).refs x =
        if x ∈ new then { byDlopen := true, nodelete := files.nodelete x } else s.refs x := by
  induction new generalizing s with
  | nil => exact ⟨(List.append_nil _).symm, fun x => rfl, fun x => rfl⟩
  | cons d new ih =>
    rw [List.nodup_cons] at hnodup
    have hlist : ∀ x ∈ new, x ∉ (s.addObject files d).loader.list := by
      intro x hx hmem
      rcases List.mem_append.mp hmem with hmem | hmem
      · exact hnew x (List.mem_cons_of_mem d hx) hmem
      · exact hnodup.1 (List.mem_singleton.mp hmem ▸ hx)
    obtain ⟨hl, hdso, hrefs⟩ := ih hnodup.2 hlist
    refine ⟨?_, fun x => ?_, fun x => ?_⟩
    · rw [List.foldl_cons, hl]
      exact List.append_assoc s.loader.list [d] new
    · rw [List.foldl_cons, hdso]
      by_cases hx : x ∈ new
      · simp [hx]
      · by_cases hd : x = d
        · simp [hd, hnodup.1, addObject]
        · simp [hx, hd, addObject]
    · rw [List.foldl_cons, hrefs]
      by_cases hx : x ∈ new
      · simp [hx]
      · by_cases hd : x = d
        · simp [hd, hnodup.1, addObject]
        · simp [hx, hd, addObject]

/-- The parents alone have changed: `y` is one more of `x` where `R y x`. -/
structure Adopts (s t : Objects δ) (R : δ → δ → Prop) : Prop where
  loader : t.loader = s.loader
  nrDlopen : ∀ x, (t.refs x).nrDlopen = (s.refs x).nrDlopen
  byDlopen : ∀ x, (t.refs x).byDlopen = (s.refs x).byDlopen
  nodelete : ∀ x, (t.refs x).nodelete = (s.refs x).nodelete
  nodup : (∀ x, (s.refs x).parents.Nodup) → ∀ x, (t.refs x).parents.Nodup
  mem_parents : ∀ x y, y ∈ (t.refs x).parents ↔ y ∈ (s.refs x).parents ∨ R y x

omit [DecidableEq δ] in
theorem Adopts.refl (s : Objects δ) : Adopts s s fun _ _ => False :=
  ⟨rfl, fun _ => rfl, fun _ => rfl, fun _ => rfl, id, fun _ _ => by simp⟩

omit [DecidableEq δ] in
theorem Adopts.trans {u : Objects δ} {R R' Q : δ → δ → Prop} (h : Adopts s t R)
    (h' : Adopts t u R') (hQ : ∀ y x, Q y x ↔ R y x ∨ R' y x) : Adopts s u Q where
  loader := h'.loader.trans h.loader
  nrDlopen x := (h'.nrDlopen x).trans (h.nrDlopen x)
  byDlopen x := (h'.byDlopen x).trans (h.byDlopen x)
  nodelete x := (h'.nodelete x).trans (h.nodelete x)
  nodup hnodup := h'.nodup (h.nodup hnodup)
  mem_parents x y := by rw [h'.mem_parents, h.mem_parents, hQ, or_assoc]

theorem adopts_addParent (parent : δ) (s : Objects δ) (d : δ) :
    Adopts s (addParent parent s d) fun y x => y = parent ∧ x = d := by
  have hrefs : ∀ x, (addParent parent s d).refs x =
      if x = d then (s.refs x).addParent parent else s.refs x := by
    intro x
    unfold addParent
    by_cases h : x = d
    · simp [h]
    · simp [h]
  have hadd : ∀ r : Refs δ, (r.addParent parent).nrDlopen = r.nrDlopen ∧
      (r.addParent parent).byDlopen = r.byDlopen ∧
      (r.addParent parent).nodelete = r.nodelete := by
    intro r
    unfold Refs.addParent
    split <;> exact ⟨rfl, rfl, rfl⟩
  refine ⟨rfl, fun x => ?_, fun x => ?_, fun x => ?_, fun hnodup x => ?_, fun x y => ?_⟩ <;>
    rw [hrefs]
  · split
    · exact (hadd _).1
    · rfl
  · split
    · exact (hadd _).2.1
    · rfl
  · split
    · exact (hadd _).2.2
    · rfl
  · split
    · unfold Refs.addParent
      split
      · exact hnodup x
      · next h => exact List.nodup_append.mpr ⟨hnodup x, List.nodup_singleton parent,
          fun a ha c hc heq => h (List.mem_singleton.mp hc ▸ heq ▸ ha)⟩
    · exact hnodup x
  · by_cases hx : x = d
    · rw [if_pos hx]
      unfold Refs.addParent
      split
      · next h =>
        constructor
        · exact Or.inl
        · rintro (hy | ⟨rfl, -⟩)
          · exact hy
          · exact h
      · simp [hx]
    · rw [if_neg hx]
      simp [hx]

theorem adopts_foldl_addParent (parent : δ) (ds : List δ) (s : Objects δ) :
    Adopts s (ds.foldl (addParent parent) s) fun y x => y = parent ∧ x ∈ ds := by
  induction ds generalizing s with
  | nil => exact (Adopts.refl s).trans (Adopts.refl s) fun y x => by simp
  | cons d ds ih =>
    refine (adopts_addParent parent s d).trans (ih _) fun y x => ?_
    rw [List.mem_cons, and_or_left]

theorem adopts_foldl_addParents (new : List δ) (s : Objects δ) :
    Adopts s (new.foldl addParents s) fun y x => y ∈ new ∧ x ∈ s.loader.direct y := by
  induction new generalizing s with
  | nil => exact (Adopts.refl s).trans (Adopts.refl s) fun y x => by simp
  | cons d new ih =>
    have hone := adopts_foldl_addParent d (s.loader.direct d) s
    refine hone.trans (ih _) fun y x => ?_
    rw [hone.loader]
    constructor
    · rintro ⟨hy, hx⟩
      rcases List.mem_cons.mp hy with rfl | hy
      · exact Or.inl ⟨rfl, hx⟩
      · exact Or.inr ⟨hy, hx⟩
    · rintro (⟨rfl, hx⟩ | ⟨hy, hx⟩)
      · exact ⟨List.mem_cons_self, hx⟩
      · exact ⟨List.mem_cons_of_mem d hy, hx⟩

/-- What holds when all that is missing has been loaded. -/
structure Loaded (files : Files δ) (s t : Objects δ) (new : List δ) : Prop where
  list : t.loader.list = s.loader.list ++ new
  dso : ∀ x ∈ s.loader.list, t.loader.dso x = s.loader.dso x
  consistent : t.Consistent
  keeps : Keeps files.needs t.loader
  nrDlopen : ∀ x, (t.refs x).nrDlopen = if x ∈ new then 0 else (s.refs x).nrDlopen
  fresh : ∀ x ∈ new, (t.refs x).byDlopen = true ∧ (t.refs x).nodelete = files.nodelete x
  old : ∀ x, x ∉ new → (t.refs x).byDlopen = (s.refs x).byDlopen ∧
    (t.refs x).nodelete = (s.refs x).nodelete

theorem loaded_loadAll (h : s.Consistent) (hk : Keeps files.needs s.loader) (hnodup : new.Nodup)
    (hnew : ∀ x ∈ new, x ∉ s.loader.list)
    (hneeds : ∀ x ∈ new, ∀ d ∈ files.needs x, d ∈ s.loader.list ++ new) :
    Loaded files s (s.loadAll files new) new := by
  show Loaded files s (new.foldl addParents (new.foldl (addObject files) s)) new
  obtain ⟨hlist, hdso, hrefs⟩ := foldl_addObject files hnodup hnew
  have hadopts := adopts_foldl_addParents new (new.foldl (addObject files) s)
  have hloader := hadopts.loader
  have hmem := hadopts.mem_parents
  generalize new.foldl (addObject files) s = u at *
  have hdirect : ∀ x ∈ u.loader.list, u.loader.direct x = files.needs x := by
    intro x hx
    unfold Loader.direct
    rw [hdso]
    by_cases hxnew : x ∈ new
    · simp [hxnew]
    · rw [hlist, List.mem_append] at hx
      rw [if_neg hxnew]
      exact hk.direct x (hx.resolve_right hxnew)
  have hlisted : ∀ y ∈ u.loader.list, ∀ x ∈ files.needs y, x ∈ u.loader.list := by
    intro y hy x hx
    rw [hlist] at hy ⊢
    rcases List.mem_append.mp hy with hy | hy
    · exact List.mem_append_left _ (hk.listed y hy x hx)
    · exact hneeds y hy x hx
  have hunodup : u.loader.list.Nodup := by
    rw [hlist, List.nodup_append]
    exact ⟨hk.nodup, hnodup, fun a ha c hc heq => hnew c hc (heq ▸ ha)⟩
  have hold : ∀ x ∈ s.loader.list, x ∉ new := fun x hx hx' => hnew x hx' hx
  refine ⟨?_, fun x hx => ?_, ⟨?_, ?_, hadopts.nodup fun x => ?_, fun x y => ?_⟩,
    ⟨?_, fun p hp => ?_, ?_⟩, fun x => ?_, fun x hx => ?_, fun x hx => ?_⟩
  · rw [hloader, hlist]
  · rw [hloader, hdso, if_neg (hold x hx)]
  · rw [hloader]
    exact hunodup
  · rw [hloader]
    intro y hy x hx
    rw [hdirect y hy] at hx
    exact hlisted y hy x hx
  · rw [hrefs]
    split
    · exact List.nodup_nil
    · exact h.parents_nodup x
  · rw [hmem, hloader, hlist, List.mem_append, hrefs]
    constructor
    · rintro (hy | ⟨hy, hx⟩)
      · split at hy
        · cases hy
        · obtain ⟨hylist, hxy⟩ := (h.mem_parents x y).mp hy
          refine ⟨Or.inl hylist, ?_⟩
          unfold Loader.direct at hxy ⊢
          rw [hdso, if_neg (hold y hylist)]
          exact hxy
      · exact ⟨Or.inr hy, hx⟩
    · rintro ⟨hy, hx⟩
      by_cases hynew : y ∈ new
      · exact Or.inr ⟨hynew, hx⟩
      · have hylist := hy.resolve_right hynew
        have hxy : x ∈ s.loader.direct y := by
          unfold Loader.direct at hx ⊢
          rw [hdso, if_neg hynew] at hx
          exact hx
        have hxlist := h.listed y hylist x hxy
        rw [if_neg (hold x hxlist)]
        exact Or.inl ((h.mem_parents x y).mpr ⟨hylist, hxy⟩)
  · rw [hloader]
    exact hunodup
  · rw [hloader] at hp ⊢
    by_cases hpnew : p ∈ new
    · have hdsop : u.loader.dso p =
          { deps := files.needs p, ndepsDirect := (files.needs p).length } := by
        rw [hdso, if_pos hpnew]
      refine ⟨?_, fun e he => ?_, ?_, ?_, ?_, ?_⟩
      · rw [hdsop]
      · rw [hdirect p hp] at he
        exact hlisted p hp e he
      · rw [hdsop]
      · rw [hdsop]
        exact fun _ => rfl
      · rw [hdsop]
        exact nofun
      · rw [hdsop]
        exact nofun
    · have hplist : p ∈ s.loader.list := by
        rw [hlist, List.mem_append] at hp
        exact hp.resolve_right hpnew
      refine Sound.congr hk hdirect hlisted (fun x hx => hx) hplist hp ?_
      rw [hdso, if_neg hpnew]
  · rw [hloader]
    exact hdirect
  · rw [hadopts.nrDlopen, hrefs]
    split <;> rfl
  · rw [hadopts.byDlopen, hadopts.nodelete, hrefs, if_pos hx]
    exact ⟨rfl, rfl⟩
  · rw [hadopts.byDlopen, hadopts.nodelete, hrefs, if_neg hx]
    exact ⟨rfl, rfl⟩

/-! ## Counting up -/

/-- One of the arrays is there, so that it can be counted. -/
def Built (s : Loader δ) (p : δ) (b : Bool) : Prop :=
  (s.dso p).bfsBuilt = true ∨ b = true ∧ (s.dso p).depsAllBuilt = true

omit [DecidableEq δ] in
theorem complete_counted (h : s.loader.WellFormed) (hp : p ∈ s.loader.list)
    (hbuilt : Built s.loader p b) : Complete s.loader p (s.counted p b) := by
  unfold counted
  by_cases hbfs : (s.loader.dso p).bfsBuilt = true
  · rw [if_pos hbfs]
    exact (h p hp).bfs hbfs
  · obtain ⟨hb, hall⟩ := hbuilt.resolve_left hbfs
    rw [if_neg hbfs, hb, hall]
    exact (h p hp).all hall

/-- The array is there when `extend_bfs_deps` is through, and nothing is lost. -/
theorem extend_ok (hk : Keeps files.needs s.loader) (hp : p ∈ s.loader.list) (b : Bool) :
    ∃ loader, s.extend p b = .ok { s with loader := loader } ∧ loader.list = s.loader.list ∧
      loader.direct = s.loader.direct ∧ Keeps files.needs loader ∧ Built loader p b ∧
      ∀ x b', Built s.loader x b' → Built loader x b' := by
  have hfuel : (s.loader.direct p).length + s.loader.list.toFinset.card <
      (s.loader.direct p).length + s.loader.list.length + 1 :=
    Nat.lt_succ_of_le (Nat.add_le_add_left (List.toFinset_card_le _) _)
  unfold extend
  rcases extendBfsDeps_cases (b := b) {} true hk.wellFormed hp hfuel with
    ⟨hok, hdone⟩ | ⟨hbuilt, ⟨-, -, hcalloc⟩ | ⟨-, -, j, hj⟩ | ⟨l, hok, -, hruntime | hl⟩⟩
  · rw [hok]
    exact ⟨s.loader, rfl, rfl, rfl, hk, hdone, fun _ _ h => h⟩
  · cases hcalloc
  · cases hj
  · cases hruntime.1
  · rw [hok]
    obtain ⟨new, hnew, -⟩ := hl.added
    have hdirect : (s.loader.complete b p l).direct = s.loader.direct :=
      Loader.direct_complete (fun _ => (hk.wellFormed p hp).plain hbuilt) ⟨new, hnew.symm⟩
    refine ⟨_, rfl, rfl, hdirect, ⟨hk.nodup, hk.wellFormed.complete hl hp hbuilt, ?_⟩, ?_,
      fun x b' h => ?_⟩
    · rw [hdirect]
      exact hk.direct
    · cases b
      · exact Or.inl (by simp [Loader.complete, Loader.update])
      · exact Or.inr ⟨rfl, by simp [Loader.complete, Loader.update]⟩
    · unfold Built at h ⊢
      by_cases hx : x = p
      · rw [hx] at h ⊢
        cases b
        · exact Or.inl (by simp [Loader.complete, Loader.update])
        · have hall := (h.resolve_left (by simp [hbuilt])).1
          exact Or.inr ⟨hall, by simp [Loader.complete, Loader.update]⟩
      · simpa [Loader.complete, Loader.update, hx] using h

theorem refs_pin (nodelete : Bool) (s : Objects δ) (d x : δ) : (s.pin nodelete d).refs x =
    { s.refs x with nodelete := (s.refs x).nodelete || nodelete && x = d } := by
  unfold pin
  cases nodelete with
  | false => simp
  | true =>
    by_cases hx : x = d
    · simp [hx]
    · simp [hx]

theorem loader_pin (nodelete : Bool) (s : Objects δ) (d : δ) :
    (s.pin nodelete d).loader = s.loader := by
  unfold pin
  split <;> rfl

theorem foldl_incr_pin (nodelete : Bool) (ds : List δ) (s : Objects δ) :
    (ds.foldl (fun s d => (s.incr d).pin nodelete d) s).loader = s.loader ∧
      ∀ x, (ds.foldl (fun s d => (s.incr d).pin nodelete d) s).refs x =
        { s.refs x with
          nrDlopen := (s.refs x).nrDlopen + ds.count x
          nodelete := (s.refs x).nodelete || nodelete && x ∈ ds } := by
  induction ds generalizing s with
  | nil => exact ⟨rfl, fun x => by simp⟩
  | cons d ds ih =>
    obtain ⟨hloader, hrefs⟩ := ih ((s.incr d).pin nodelete d)
    refine ⟨?_, fun x => ?_⟩
    · rw [List.foldl_cons, hloader, loader_pin, loader_incr]
    · rw [List.foldl_cons, hrefs, refs_pin, refs_incr, List.count_cons]
      by_cases hx : x = d
      · cases nodelete <;> simp [hx, Nat.add_assoc, Nat.add_comm 1]
      · simp [hx, Ne.symm hx]

/-! ## Taking away -/

/-- What stays keeps what it needs. -/
theorem Keeps.unload {refs : δ → Refs δ} {ds : List δ} (hk : Keeps files.needs s.loader)
    (hu : ({ s with refs := refs }.unload ds).Consistent) :
    Keeps files.needs ({ s with refs := refs }.unload ds).loader := by
  have hdirect : ∀ x ∈ ({ s with refs := refs }.unload ds).loader.list,
      ({ s with refs := refs }.unload ds).loader.direct x = files.needs x := by
    intro x hx
    obtain ⟨hxlist, hxds⟩ := mem_list_unload.mp hx
    rw [direct_unload, if_neg hxds]
    exact hk.direct x hxlist
  refine ⟨hu.nodup, fun p hp => ?_, hdirect⟩
  obtain ⟨hplist, hpds⟩ := mem_list_unload.mp hp
  refine Sound.congr hk hdirect (fun y hy x hx => ?_) (fun x hx => hx) hplist hp (if_neg hpds)
  rw [← hdirect y hy] at hx
  exact hu.listed y hy x hx

end Objects

end Ldso
