import OpenHarmonyMac.Infra.Transition
import OpenHarmonyMac.Sandbox.Load

/-!
# References to name-groups

A name-group that is rejected is deleted, although it may have been loaded before and other sections
may point to it.

* `NoDangling` — each pointer in a section is to a name-group of the queue
* `FileSafe` — no name-group that others refer to is rejected
* `noDangling_throughout_iff` — the first holds in a run just in case the second holds at each step
-/

namespace Sandbox

open Infra

variable {J : Type} {json : CJson J} {api : Helpers} {st st' : AppSpawnSandboxCfg} {e : J}
  {mem : Memory} {s g : SandboxSection}

/-- Every pointer that is not NULL in the `nameGroups` of a section is to a name-group that is still
in the queue. -/
def NoDangling (st : AppSpawnSandboxCfg) : Prop :=
  ∀ q, ∀ s ∈ st.queue q, ∀ p, some p ∈ s.nameGroups → ∃ g ∈ st.queue .nameGroups, g.id = p

theorem noDangling_iff : NoDangling st ↔ ∀ p, st.RefersTo p → st.HasGroup p := by
  constructor
  · rintro h p ⟨q, s, hs, hp⟩
    exact h q s hs p hp
  · intro h q s hs p hp
    exact h p ⟨q, s, hs, hp⟩

/-- No section but perhaps the name-group itself has a pointer to it. -/
def Unreferenced (st : AppSpawnSandboxCfg) (g : SandboxSection) : Prop :=
  ∀ q, ∀ s ∈ st.queue q, (q = .nameGroups → s.id ≠ g.id) → some g.id ∉ s.nameGroups

/-- An item of `"name-groups"` is accepted, or names no old name-group that others refer to. -/
def EntrySafe (json : CJson J) (api : Helpers) (st : AppSpawnSandboxCfg) (e : J) (mem : Memory) :
    Prop :=
  ∀ g, api.getSandboxSection (st.queue .nameGroups) (json.getStringFromJsonObj e "name") = some g →
    GroupAccepted json e mem ∨ Unreferenced st g

/-- So are the items, each in the state that it is parsed in. -/
def EntriesSafe (json : CJson J) (api : Helpers) :
    AppSpawnSandboxCfg → List (J × Memory) → Prop
  | _, [] => True
  | st, item :: items =>
    EntrySafe json api st item.1 item.2 ∧
      ∀ node st', parseNameGroup json api st item.1 item.2 = (some node, st') →
        EntriesSafe json api (countDepNode node st') items

/-- So are the name-groups of a file, when it gets to them. -/
def FileSafe (json : CJson J) (api : Helpers) (st : AppSpawnSandboxCfg) (file : File J) : Prop :=
  ∀ configs st', json.getObjectItemCaseSensitive file.root "name-groups" = some configs →
    json.isArray configs = true → parseGlobalSandboxConfig json api file st = (.ok, st') →
      EntriesSafe json api { st' with depNodeCount := 0 }
        (withMemory (json.children configs) (file.memory .nameGroups))

/-! ## One name-group -/

theorem hasGroup_addSection {p : Nat} (h : st.HasGroup p) :
    (addSection api st .nameGroups s).HasGroup p := by
  obtain ⟨g, hg, rfl⟩ := h
  by_cases hid : g.id = s.id
  · exact ⟨s, mem_addSection_iff.mpr (Or.inl rfl), hid.symm⟩
  · exact ⟨g, mem_addSection_iff.mpr (Or.inr ⟨hg, hid⟩), rfl⟩

theorem hasGroup_deleteSection {p : Nat} :
    (deleteSection st .nameGroups s).HasGroup p ↔ st.HasGroup p ∧ p ≠ s.id := by
  constructor
  · rintro ⟨g, hg, rfl⟩
    obtain ⟨hg, hne⟩ := mem_deleteSection.mp hg
    exact ⟨⟨g, hg, rfl⟩, hne⟩
  · rintro ⟨⟨g, hg, rfl⟩, hne⟩
    exact ⟨g, mem_deleteSection.mpr ⟨hg, hne⟩, rfl⟩

/-- An accepted name-group has pointers to name-groups only. -/
theorem noDangling_addSection (h : NoDangling st)
    (hrefs : ∀ p, some p ∈ s.nameGroups → st.HasGroup p) :
    NoDangling (addSection api st .nameGroups s) := by
  rw [noDangling_iff] at h ⊢
  intro p hp
  refine hasGroup_addSection ?_
  rcases refersTo_addSection hp with hp | hp
  · exact hrefs p hp
  · exact h p hp

/-- **A name-group may be deleted just in case no other section points to it.** -/
theorem noDangling_deleteSection_iff (h : NoDangling st) :
    NoDangling (deleteSection st .nameGroups s) ↔ Unreferenced st s := by
  rw [noDangling_iff] at h ⊢
  constructor
  · intro hdelete q t ht hne hp
    have hkept : t ∈ (deleteSection st .nameGroups s).queue q := by
      by_cases hq : q = .nameGroups
      · subst hq
        exact mem_deleteSection.mpr ⟨ht, hne rfl⟩
      · rw [deleteSection_queue_of_ne hq]
        exact ht
    have hrefers : (deleteSection st .nameGroups s).RefersTo s.id := ⟨q, t, hkept, hp⟩
    exact (hasGroup_deleteSection.mp (hdelete _ hrefers)).2 rfl
  · rintro hsafe p ⟨q, t, ht, hp⟩
    have hold : st.HasGroup p := h p (refersTo_deleteSection ⟨q, t, ht, hp⟩)
    refine hasGroup_deleteSection.mpr ⟨hold, ?_⟩
    rintro rfl
    by_cases hq : q = .nameGroups
    · subst hq
      obtain ⟨ht, hne⟩ := mem_deleteSection.mp ht
      exact hsafe _ t ht (fun _ => hne) hp
    · rw [deleteSection_queue_of_ne hq] at ht
      exact hsafe q t ht (fun hq' => absurd hq' hq) hp

/-- A new name-group is in no queue yet. -/
theorem deleteSection_of_fresh (h : ∀ g ∈ st.queue .nameGroups, g.id < s.id) :
    (deleteSection st .nameGroups s).queue = st.queue := by
  funext q
  by_cases hq : q = .nameGroups
  · subst hq
    unfold deleteSection
    rw [setQueue_queue]
    refine List.filter_eq_self.mpr fun g hg => decide_eq_true ?_
    have hlt := h g hg
    omega
  · exact deleteSection_queue_of_ne hq

theorem noDangling_congr (h : st'.queue = st.queue) : NoDangling st' ↔ NoDangling st := by
  unfold NoDangling
  rw [h]

/-- The step lemma for an item of `"name-groups"`. -/
theorem noDangling_parseNameGroup_iff (h : NoDangling st) (hfresh : Fresh st) :
    NoDangling (parseNameGroup json api st e mem).2 ↔ EntrySafe json api st e mem := by
  have hparsed : NameGroupParsed json api st e mem (parseNameGroup json api st e mem) :=
    parseNameGroup_parsed st e mem
  generalize parseNameGroup json api st e mem = r at hparsed ⊢
  -- where no old name-group has been found, nothing can go wrong
  have hsafe : api.getSandboxSection (st.queue .nameGroups)
      (json.getStringFromJsonObj e "name") = none → EntrySafe json api st e mem := by
    intro hnone g hg
    rw [hnone] at hg
    cases hg
  cases hparsed with
  | unnamed hname =>
    refine iff_of_true h fun g hg => ?_
    rw [hname] at hg
    cases (api.getSandboxSection_some hg).2
  | noMemory hname hfind =>
    rw [← hname] at hfind
    exact iff_of_true h (hsafe (findOrCreate_eq_none hfind))
  | @accepted s node st₁ hfind haccepted hid hname hdep hrefs =>
    have hqueue := findOrCreate_queue hfind
    refine iff_of_true ?_ fun g _ => Or.inl haccepted
    refine noDangling_addSection ((noDangling_congr hqueue).mpr h) ?_
    intro p hp
    unfold AppSpawnSandboxCfg.HasGroup
    rw [hqueue]
    rcases hrefs p hp with hp | hg
    · rcases (findOrCreate_eq_some hfind).2 with ⟨hfound, -⟩ | ⟨-, hs, -⟩
      · exact h _ s (api.getSandboxSection_some hfound).1 p hp
      · rw [hs] at hp
        cases hp
    · exact hg
  | @rejected s node st₁ hfind haccepted hid =>
    rcases (findOrCreate_eq_some hfind).2 with ⟨hfound, rfl⟩ | ⟨hnone, hs, rfl⟩
    · -- an old name-group is deleted, whoever points to it
      rw [noDangling_deleteSection_iff h]
      unfold EntrySafe Unreferenced
      rw [hid]
      constructor
      · intro hunref g hg
        obtain rfl := Option.some.inj (hfound.symm.trans hg)
        exact Or.inr hunref
      · intro hentry
        exact (hentry s hfound).resolve_left haccepted
    · -- a new one is not in the queue yet
      have hnew : node.id = st.nextId := by
        rw [hid, hs]
        rfl
      have hqueue : (deleteSection { st with nextId := st.nextId + 1 } .nameGroups node).queue =
          st.queue := deleteSection_of_fresh fun g hg => by
        rw [hnew]
        exact hfresh g hg
      exact iff_of_true ((noDangling_congr hqueue).mpr h) (hsafe hnone)

/-! ## One file -/

theorem KeepsGroups.noDangling (h : KeepsGroups st st') (hst : NoDangling st) : NoDangling st' := by
  rw [noDangling_iff] at hst ⊢
  intro p hp
  have hgroup : st.HasGroup p := by
    rcases h.refs p hp with hp | hg
    · exact hst p hp
    · exact hg
  unfold AppSpawnSandboxCfg.HasGroup
  rw [h.nameGroups]
  exact hgroup

/-- The loop of `ParseNameGroupsConfig`: only its last item can be rejected. -/
theorem noDangling_parseNameGroups_iff (json : CJson J) (api : Helpers)
    (items : List (J × Memory)) (h : NoDangling st) (hfresh : Fresh st) :
    (NoDangling (parseNameGroups json api items st).2 ↔ EntriesSafe json api st items) ∧
      ((parseNameGroups json api items st).1 = .ok → EntriesSafe json api st items) := by
  induction items generalizing st with
  | nil => exact ⟨iff_of_true h trivial, fun _ => trivial⟩
  | cons item items ih =>
    have hiff : NoDangling (parseNameGroup json api st item.1 item.2).2 ↔
        EntrySafe json api st item.1 item.2 := noDangling_parseNameGroup_iff h hfresh
    have hfresh' : Fresh (parseNameGroup json api st item.1 item.2).2 :=
      fresh_parseNameGroup hfresh
    rw [parseNameGroups, EntriesSafe]
    split
    · next st' hparse =>
      -- the loop ends here, so the items behind are not parsed
      rw [hparse] at hiff ⊢
      refine ⟨?_, fun hok => by cases hok⟩
      rw [hiff]
      refine ⟨fun hentry => ⟨hentry, ?_⟩, fun hentry => hentry.1⟩
      rintro node st'' hsome
      cases hsome
    · next node st' hparse =>
      rw [hparse] at hiff hfresh' ⊢
      have haccepted : EntrySafe json api st item.1 item.2 := by
        have hparsed : NameGroupParsed json api st item.1 item.2
            (parseNameGroup json api st item.1 item.2) := parseNameGroup_parsed _ _ _
        rw [hparse] at hparsed
        cases hparsed with
        | accepted _ haccepted _ _ _ _ => exact fun g _ => Or.inl haccepted
      have hst' : NoDangling (countDepNode node st') := hiff.mpr haccepted
      obtain ⟨hrest, hrestOk⟩ := ih hst' hfresh'
      have hall : EntriesSafe json api (countDepNode node st') items ↔
          EntrySafe json api st item.1 item.2 ∧ ∀ node' st'', (some node, st') = (some node', st'') →
            EntriesSafe json api (countDepNode node' st'') items := by
        refine ⟨fun hitems => ⟨haccepted, ?_⟩, fun hitems => hitems.2 node st' rfl⟩
        rintro _ _ hsame
        obtain ⟨hnode, rfl⟩ := Prod.mk.inj hsame
        obtain rfl := Option.some.inj hnode
        exact hitems
      rw [← hall]
      exact ⟨hrest, hrestOk⟩

/-- The name-groups of a file, from the state in which the loader gets to them. -/
theorem noDangling_parseNameGroupsConfig_iff (json : CJson J) (api : Helpers) (file : File J)
    (h : NoDangling st) (hfresh : Fresh st) :
    (NoDangling (parseNameGroupsConfig json api file st).2 ↔
      ∀ configs, json.getObjectItemCaseSensitive file.root "name-groups" = some configs →
        json.isArray configs = true → EntriesSafe json api { st with depNodeCount := 0 }
          (withMemory (json.children configs) (file.memory .nameGroups))) ∧
      ((parseNameGroupsConfig json api file st).1 = .ok →
        NoDangling (parseNameGroupsConfig json api file st).2) := by
  unfold parseNameGroupsConfig
  split
  · next hnone =>
    refine ⟨iff_of_true h ?_, fun _ => h⟩
    intro configs hconfigs
    rw [hnone] at hconfigs
    cases hconfigs
  · next configs hconfigs =>
    rw [hconfigs]
    by_cases harray : json.isArray configs = true
    · rw [if_neg (by simp [harray])]
      by_cases hempty : json.getArraySize configs = 0
      · rw [if_pos hempty]
        refine ⟨iff_of_true h ?_, fun _ => h⟩
        rintro _ hsame -
        obtain rfl := Option.some.inj hsame
        rw [List.eq_nil_of_length_eq_zero hempty]
        exact trivial
      · rw [if_neg hempty]
        have hst : NoDangling { st with depNodeCount := 0 } := h
        have hstFresh : Fresh { st with depNodeCount := 0 } := hfresh
        obtain ⟨hiff, hok⟩ := noDangling_parseNameGroups_iff json api
          (withMemory (json.children configs) (file.memory .nameGroups)) hst hstFresh
        refine ⟨hiff.trans ?_, fun hret => hiff.mpr (hok hret)⟩
        constructor
        · rintro hitems _ hsame -
          obtain rfl := Option.some.inj hsame
          exact hitems
        · intro hitems
          exact hitems configs rfl harray
    · rw [if_pos (by simp [harray])]
      refine ⟨iff_of_true h ?_, fun _ => h⟩
      rintro _ hsame harray'
      obtain rfl := Option.some.inj hsame
      exact absurd harray' harray

/-- What comes after the name-groups changes nothing about it. -/
theorem noDangling_andThen_iff {r : Ret × AppSpawnSandboxCfg}
    {next : AppSpawnSandboxCfg → Ret × AppSpawnSandboxCfg}
    (hnext : ∀ st, KeepsGroups st (next st).2) (hr : r.1 = .ok → NoDangling r.2) :
    NoDangling (andThen r next).2 ↔ NoDangling r.2 := by
  obtain ⟨ret, st⟩ := r
  cases ret
  case ok => exact iff_of_true ((hnext st).noDangling (hr rfl)) (hr rfl)
  all_goals exact Iff.rfl

/-- **The step lemma**: a file leaves no dangling pointer just in case it is safe. -/
theorem noDangling_parseAppSandboxConfig_iff {file : File J} (h : NoDangling st)
    (hfresh : Fresh st) :
    NoDangling (parseAppSandboxConfig json api file st).2 ↔ FileSafe json api st file := by
  have hglobal : KeepsGroups st (parseGlobalSandboxConfig json api file st).2 :=
    parseGlobalSandboxConfig_keepsGroups
  unfold parseAppSandboxConfig FileSafe
  generalize parseGlobalSandboxConfig json api file st = r at hglobal ⊢
  obtain ⟨ret, st₁⟩ := r
  by_cases hret : ret = .ok
  · subst hret
    obtain ⟨hiff, hok⟩ := noDangling_parseNameGroupsConfig_iff json api file
      (hglobal.noDangling h) (hglobal.fresh hfresh)
    -- after the name-groups the references are kept anyway
    have hkeeps : ∀ st, KeepsGroups st (parseSections json api file st).2 :=
      fun _ => parseSections_keepsGroups
    have hsections := noDangling_andThen_iff
      (r := orInvalid (parseNameGroupsConfig json api file st₁)) hkeeps (by
        intro hret
        rw [orInvalid_snd]
        exact hok (orInvalid_ok_iff.mp hret))
    rw [orInvalid_snd] at hsections
    refine (hsections.trans hiff).trans ?_
    constructor
    · rintro hsafe configs _ hconfigs harray hsame
      obtain ⟨-, rfl⟩ := Prod.mk.inj hsame
      exact hsafe configs hconfigs harray
    · intro hsafe configs hconfigs harray
      exact hsafe configs st₁ hconfigs harray rfl
  · rw [andThen_orInvalid_of_ne hret]
    refine iff_of_true (hglobal.noDangling h) ?_
    rintro configs st' - - hsame
    exact absurd (Prod.mk.inj hsame).1 hret

/-! ## All files -/

/-- The loader, to which one file after the other is given. -/
def loader (json : CJson J) (api : Helpers) : System AppSpawnSandboxCfg (File J) where
  init st := st = .init
  enabled _ _ := True
  step st file := (parseAppSandboxConfig json api file st).2

theorem parseFiles_snd {files : List (File J)} :
    (parseFiles json api files st).2 = files.foldl (loader json api).step st := by
  induction files generalizing st with
  | nil => rfl
  | cons file files ih =>
    rw [parseFiles, List.foldl_cons]
    exact ih

theorem run_parseFiles (json : CJson J) (api : Helpers) (files : List (File J)) :
    (loader json api).Run st files (parseFiles json api files st).2 := by
  rw [parseFiles_snd]
  induction files generalizing st with
  | nil => exact System.Run.nil st
  | cons file files ih => exact System.Run.cons trivial ih

/-- **The exact condition of references that never dangle**: for all files, accepted or not, no
state on the way has a dangling pointer just in case every file is safe in the state that it is
parsed in. -/
theorem noDangling_throughout_iff (json : CJson J) (api : Helpers) (files : List (File J)) :
    (loader json api).Throughout NoDangling .init files ↔
      ((loader json api).restrict (FileSafe json api)).Run .init files
        (parseFiles json api files .init).2 := by
  have hinv : ∀ st file, Fresh st → (loader json api).enabled st file →
      Fresh ((loader json api).step st file) :=
    fun _ _ h _ => fresh_parseAppSandboxConfig h
  have hstep : ∀ st file, Fresh st → NoDangling st → (loader json api).enabled st file →
      (NoDangling ((loader json api).step st file) ↔ FileSafe json api st file) :=
    fun _ _ hfresh h _ => noDangling_parseAppSandboxConfig_iff h hfresh
  exact System.Run.throughout_iff_of_invariant hinv hstep (run_parseFiles json api files)
    (fun _ hg => by cases hg) (fun _ _ hs => by cases hs)

/-- A name-group `"g"` that a required section refers to, and then `"g"` with a dependency that has
no paths. -/
def rejectedAgain : List (File JsonItem) :=
  [Json.file
      [("name-groups", .array [.object [("name", .string "g"), ("type", .string "system-const")]]),
        ("required", .object
          [("system-const", .object [("mount-groups", .array [.string "g"])])])],
    Json.file
      [("name-groups", .array [.object [("name", .string "g"), ("mount-paths-deps", .object [])]])]]

/-- The required section is left with a pointer to nothing. -/
theorem dangling_rejectedAgain :
    ¬ (loader cJson helpers).Throughout NoDangling .init rejectedAgain := by
  rintro hall
  have h : NoDangling (parseFiles cJson helpers rejectedAgain .init).2 := hall.2.2
  have hrequired : ((parseFiles cJson helpers rejectedAgain .init).2.queue .required).map
      (·.nameGroups) = [[some 0]] := by decide
  have hgroups : (parseFiles cJson helpers rejectedAgain .init).2.queue .nameGroups = [] := by
    decide
  -- the pointer to address 0 needs a name-group, and there is none
  obtain ⟨s, hs, hrefs⟩ := List.map_eq_singleton_iff.mp hrequired
  obtain ⟨g, hg, -⟩ := h .required s (hs ▸ List.mem_singleton_self s) 0
    (hrefs ▸ List.mem_singleton_self _)
  rw [hgroups] at hg
  cases hg

end Sandbox
