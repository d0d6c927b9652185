import OpenHarmonyMac.Infra.Keyed
import OpenHarmonyMac.Sandbox.Load
import Mathlib.Data.List.Dedup
import Mathlib.Data.Option.Basic

/-!
# The table of dependent name-groups

The table gets as many slots as the last `"name-groups"` array has counted, and then all name-groups
of the queue that have a dependency, which may come from other files too.

* `dependentNames`, `tableSlots` — what is in the files: the names with a dependency, and the count
* `Loaded` — what the queue is after the items so far
* `depTable_iff` — when the table is as it should be
-/

namespace Sandbox

open Infra

variable {J : Type} {json : CJson J} {api : Helpers} {st st' st₁ : AppSpawnSandboxCfg}
  {s node : SandboxSection} {q : Queue} {e : J} {es es' : List J} {mem : Memory}

/-! ## What is in the files -/

/-- The items of `"name-groups"`. -/
def nameGroupItems (json : CJson J) (file : File J) : List J :=
  match json.getObjectItemCaseSensitive file.root "name-groups" with
  | none => []
  | some configs => json.children configs

/-- An item with `"mount-paths-deps"`. -/
def hasDependency (json : CJson J) (e : J) : Bool :=
  (json.getObjectItemCaseSensitive e "mount-paths-deps").isSome

/-- Some item gives the name-group of this name a dependency. -/
def declared (json : CJson J) (es : List J) (name : Option String) : Bool :=
  es.any fun e => decide (json.getStringFromJsonObj e "name" = name) && hasDependency json e

/-- The names that some item gives a dependency. -/
def dependentNames (json : CJson J) (es : List J) : List (Option String) :=
  ((es.filter (hasDependency json)).map fun e => json.getStringFromJsonObj e "name").dedup

/-- The items whose name has a dependency by then, from this item or one before. -/
def countDeclared (json : CJson J) : List J → List J → Nat
  | _, [] => 0
  | es, e :: items =>
    (if declared json (es ++ [e]) (json.getStringFromJsonObj e "name") then 1 else 0) +
      countDeclared json (es ++ [e]) items

/-- The slots after a file: those of its own items, if it has any. -/
def slotsAfter (json : CJson J) (es : List J) (slots : Nat) (file : File J) : Nat :=
  if (nameGroupItems json file).isEmpty then slots
  else countDeclared json es (nameGroupItems json file)

/-- The slots after all files. -/
def tableSlots (json : CJson J) : List J → Nat → List (File J) → Nat
  | _, slots, [] => slots
  | es, slots, file :: files =>
    tableSlots json (es ++ nameGroupItems json file) (slotsAfter json es slots file) files

theorem declared_concat (json : CJson J) (es : List J) (e : J) (name : Option String) :
    declared json (es ++ [e]) name = (declared json es name ||
      (decide (json.getStringFromJsonObj e "name" = name) && hasDependency json e)) := by
  unfold declared
  rw [List.any_append, List.any_cons, List.any_nil, Bool.or_false]

theorem declared_iff {name : Option String} : declared json es name = true ↔
    ∃ e ∈ es, json.getStringFromJsonObj e "name" = name ∧ hasDependency json e = true := by
  simp [declared]

theorem mem_dependentNames {name : Option String} :
    name ∈ dependentNames json es ↔ declared json es name = true := by
  rw [declared_iff]
  unfold dependentNames
  rw [List.mem_dedup, List.mem_map]
  constructor
  · rintro ⟨e, he, rfl⟩
    obtain ⟨he, hdep⟩ := List.mem_filter.mp he
    exact ⟨e, he, rfl, hdep⟩
  · rintro ⟨e, he, rfl, hdep⟩
    exact ⟨e, List.mem_filter.mpr ⟨he, hdep⟩, rfl⟩

/-! ## Adding a section -/

/-- A key stays unique when the sections of other addresses have other keys. -/
theorem uniqueKeys_addSection {κ : Type} {key : SandboxSection → κ}
    (hids : UniqueKeys (·.id) (st.queue q)) (hkeys : UniqueKeys key (st.queue q))
    (hother : ∀ t ∈ st.queue q, t.id ≠ s.id → key t ≠ key s) :
    UniqueKeys key ((addSection api st q s).queue q) := by
  unfold addSection
  split
  · rw [setQueue_queue]
    unfold UniqueKeys at hids hkeys ⊢
    rw [List.map_map]
    -- the section with this address is replaced, and no other one has its key
    have hinj : ∀ x ∈ st.queue q, ∀ y ∈ st.queue q,
        (key ∘ fun t => if t.id = s.id then s else t) x =
          (key ∘ fun t => if t.id = s.id then s else t) y → x = y := by
      intro x hx y hy heq
      simp only [Function.comp_apply] at heq
      split_ifs at heq with hxid hyid hyid
      · exact List.inj_on_of_nodup_map hids hx hy (hxid.trans hyid.symm)
      · exact absurd heq.symm (hother y hy hyid)
      · exact absurd heq (hother x hx hxid)
      · exact List.inj_on_of_nodup_map hkeys hx hy heq
    exact List.Nodup.map_on hinj (List.Nodup.of_map _ hkeys)
  · next hlinked =>
    rw [setQueue_queue]
    unfold UniqueKeys at hkeys ⊢
    refine (((api.addSandboxSection_perm s _).map key).nodup_iff).mpr ?_
    rw [List.map_cons, List.nodup_cons]
    refine ⟨?_, hkeys⟩
    intro hkey
    obtain ⟨t, ht, htkey⟩ := List.mem_map.mp hkey
    exact hother t ht (fun hid => hlinked (hid ▸ List.mem_map_of_mem ht)) htkey

/-! ## After the items so far -/

/-- The name-groups have addresses and names of their own, there is one for each name among the
items, and it has a dependency just in case some item gives it one. -/
structure Loaded (json : CJson J) (es : List J) (st : AppSpawnSandboxCfg) : Prop where
  fresh : Fresh st
  ids : UniqueKeys (·.id) (st.queue .nameGroups)
  names : UniqueKeys (·.name) (st.queue .nameGroups)
  found : ∀ e ∈ es, ∃ s ∈ st.queue .nameGroups, json.getStringFromJsonObj e "name" = some s.name
  deps : ∀ s ∈ st.queue .nameGroups, s.depNode.isSome = declared json es (some s.name)

theorem loaded_init : Loaded json [] .init where
  fresh := fun _ h => by cases h
  ids := uniqueKeys_nil
  names := uniqueKeys_nil
  found := fun _ h => by cases h
  deps := fun _ h => by cases h

theorem Loaded.congr (h : Loaded json es st) (hfresh : Fresh st')
    (hqueue : st'.queue .nameGroups = st.queue .nameGroups) : Loaded json es st' where
  fresh := hfresh
  ids := hqueue ▸ h.ids
  names := hqueue ▸ h.names
  found := hqueue ▸ h.found
  deps := hqueue ▸ h.deps

theorem KeepsGroups.loaded (h : KeepsGroups st st') (hst : Loaded json es st) :
    Loaded json es st' := hst.congr (h.fresh hst.fresh) h.nameGroups

/-- The section that is found or made is the only one of its name, and it has the dependency that the
items have given it so far. -/
theorem Loaded.of_findOrCreate (h : Loaded json es st) {name : Option String} {memory : Bool}
    (hfind : findOrCreate api st .nameGroups name memory = some (s, st₁)) :
    (∀ t ∈ st.queue .nameGroups, t.id = s.id ↔ t.name = s.name) ∧
      s.depNode.isSome = declared json es (some s.name) := by
  obtain ⟨hname, ⟨hfound, -⟩ | ⟨hnone, hs, -⟩⟩ := findOrCreate_eq_some hfind
  · obtain ⟨hs, -⟩ := api.getSandboxSection_some hfound
    refine ⟨fun t ht => ⟨fun hid => ?_, fun heq => ?_⟩, h.deps s hs⟩
    · exact congrArg SandboxSection.name (List.inj_on_of_nodup_map h.ids ht hs hid)
    · exact congrArg SandboxSection.id (List.inj_on_of_nodup_map h.names ht hs heq)
  · rw [hname] at hnone
    have hnew := api.getSandboxSection_none hnone
    have hid : s.id = st.nextId := by
      rw [hs]
      rfl
    -- an item with this name would have left a section of this name
    have hundeclared : declared json es (some s.name) = false := by
      refine Bool.eq_false_iff.mpr fun hdeclared => ?_
      obtain ⟨e, he, hename, -⟩ := declared_iff.mp hdeclared
      obtain ⟨t, ht, htname⟩ := h.found e he
      exact hnew t ht (Option.some.inj (htname.symm.trans hename))
    refine ⟨fun t ht => iff_of_false ?_ (hnew t ht), ?_⟩
    · rw [hid]
      exact Nat.ne_of_lt (h.fresh t ht)
    · rw [hundeclared, hs]
      rfl

/-- **The step lemma**: an accepted item. -/
theorem Loaded.of_parseNameGroup (h : Loaded json es st)
    (hparse : parseNameGroup json api st e mem = (some node, st')) :
    Loaded json (es ++ [e]) st' ∧ st'.depNodeCount = st.depNodeCount ∧
      node.depNode.isSome =
        declared json (es ++ [e]) (json.getStringFromJsonObj e "name") := by
  have hparsed : NameGroupParsed json api st e mem (parseNameGroup json api st e mem) :=
    parseNameGroup_parsed st e mem
  have hfresh : Fresh (parseNameGroup json api st e mem).2 := fresh_parseNameGroup h.fresh
  rw [hparse] at hparsed hfresh
  cases hparsed with
  | @accepted s node st₁ hfind haccepted hid hname hdep hrefs =>
    obtain ⟨hother, hold⟩ := h.of_findOrCreate hfind
    have hename := (findOrCreate_eq_some hfind).1
    have hqueue := findOrCreate_queue hfind
    have hcount : st₁.depNodeCount = st.depNodeCount := by
      rcases (findOrCreate_eq_some hfind).2 with ⟨-, rfl⟩ | ⟨-, -, rfl⟩ <;> rfl
    have hnodeDep : node.depNode.isSome = declared json (es ++ [e]) (some node.name) := by
      rw [hdep, hold, hname, declared_concat, hename, decide_eq_true rfl, Bool.true_and]
      rfl
    -- `node` takes the place of the section of its name, if there was one
    rw [← hid, ← hname, ← hqueue] at hother
    refine ⟨⟨hfresh, ?_, ?_, ?_, ?_⟩, addSection_depNodeCount.trans hcount, ?_⟩
    · exact uniqueKeys_addSection (hqueue ▸ h.ids) (hqueue ▸ h.ids) fun _ _ hne => hne
    · exact uniqueKeys_addSection (hqueue ▸ h.ids) (hqueue ▸ h.names) fun t ht hne heq =>
        hne ((hother t ht).mpr heq)
    · intro e' he'
      rcases List.mem_append.mp he' with he' | he'
      · obtain ⟨t, ht, htname⟩ := h.found e' he'
        rw [← hqueue] at ht
        by_cases hsame : t.id = node.id
        · exact ⟨node, mem_addSection_iff.mpr (Or.inl rfl), (hother t ht).mp hsame ▸ htname⟩
        · exact ⟨t, mem_addSection_iff.mpr (Or.inr ⟨ht, hsame⟩), htname⟩
      · obtain rfl := List.mem_singleton.mp he'
        exact ⟨node, mem_addSection_iff.mpr (Or.inl rfl), hname ▸ hename⟩
    · intro t ht
      rcases mem_addSection_iff.mp ht with rfl | ⟨ht, hne⟩
      · exact hnodeDep
      · have hentry : decide (json.getStringFromJsonObj e "name" = some t.name) = false := by
          refine decide_eq_false fun heq => hne ((hother t ht).mpr ?_)
          rw [hname]
          exact Option.some.inj (heq.symm.trans hename)
        rw [declared_concat, hentry, Bool.false_and, Bool.or_false]
        exact h.deps t (hqueue ▸ ht)
    · rw [hnodeDep, hename, hname]

/-- The loop of `ParseNameGroupsConfig`, when it goes through. -/
theorem Loaded.of_parseNameGroups {items : List (J × Memory)} (h : Loaded json es st)
    (hparse : parseNameGroups json api items st = (.ok, st')) :
    Loaded json (es ++ items.map Prod.fst) st' ∧
      st'.depNodeCount = st.depNodeCount + countDeclared json es (items.map Prod.fst) := by
  induction items generalizing st es with
  | nil =>
    obtain rfl := (Prod.mk.inj hparse).2
    rw [List.map_nil, List.append_nil]
    exact ⟨h, rfl⟩
  | cons item items ih =>
    rw [parseNameGroups] at hparse
    split at hparse
    · cases (Prod.mk.inj hparse).1
    · next node st₁ hitem =>
      obtain ⟨hloaded, hcount, hdep⟩ := h.of_parseNameGroup hitem
      -- the count is no part of what is loaded
      have hcounted : Loaded json (es ++ [item.1]) (countDepNode node st₁) :=
        hloaded.congr hloaded.fresh rfl
      obtain ⟨hrest, hrestCount⟩ := ih hcounted hparse
      rw [List.map_cons, countDeclared, ← hdep]
      rw [List.append_assoc, List.singleton_append] at hrest
      refine ⟨hrest, ?_⟩
      rw [hrestCount, countDepNode, hcount, Nat.add_assoc]

theorem withMemory_fst (items : List J) (memory : Nat → Memory) :
    (withMemory items memory).map Prod.fst = items := by
  unfold withMemory
  rw [List.map_map]
  exact List.zipIdx_map_fst 0 items

theorem Loaded.of_parseNameGroupsConfig {file : File J} (h : Loaded json es st)
    (hparse : parseNameGroupsConfig json api file st = (.ok, st')) :
    Loaded json (es ++ nameGroupItems json file) st' ∧
      st'.depNodeCount = slotsAfter json es st.depNodeCount file := by
  unfold parseNameGroupsConfig at hparse
  unfold slotsAfter
  split at hparse
  · next hnone =>
    have hitems : nameGroupItems json file = [] := by
      unfold nameGroupItems
      rw [hnone]
    obtain rfl := (Prod.mk.inj hparse).2
    rw [hitems, List.append_nil]
    exact ⟨h, rfl⟩
  · next configs hconfigs =>
    have hitems : nameGroupItems json file = json.children configs := by
      unfold nameGroupItems
      rw [hconfigs]
    rw [hitems]
    split_ifs at hparse with harray hempty
    · cases (Prod.mk.inj hparse).1
    · obtain rfl := (Prod.mk.inj hparse).2
      rw [List.eq_nil_of_length_eq_zero hempty, List.append_nil]
      exact ⟨h, rfl⟩
    · -- the items are counted from 0, whatever the files before have counted
      have hst : Loaded json es { st with depNodeCount := 0 } := h.congr h.fresh rfl
      obtain ⟨hloaded, hcount⟩ := hst.of_parseNameGroups hparse
      rw [withMemory_fst] at hloaded hcount
      refine ⟨hloaded, ?_⟩
      rw [if_neg fun hnil => hempty (List.length_eq_zero_iff.mpr (List.isEmpty_iff.mp hnil)), hcount]
      exact Nat.zero_add _

/-- A file that goes through. -/
theorem Loaded.of_parseAppSandboxConfig {file : File J} (h : Loaded json es st)
    (hparse : parseAppSandboxConfig json api file st = (.ok, st')) :
    Loaded json (es ++ nameGroupItems json file) st' ∧
      st'.depNodeCount = slotsAfter json es st.depNodeCount file := by
  have hglobal : KeepsGroups st (parseGlobalSandboxConfig json api file st).2 :=
    parseGlobalSandboxConfig_keepsGroups
  obtain ⟨-, hparse⟩ := andThen_eq_ok hparse
  rw [orInvalid_snd] at hparse
  obtain ⟨hgroups, hparse⟩ := andThen_eq_ok hparse
  rw [orInvalid_snd] at hparse
  -- the parts around the name-groups keep them
  have hsections : KeepsGroups
      (parseNameGroupsConfig json api file (parseGlobalSandboxConfig json api file st).2).2 st' := by
    have hkeeps : KeepsGroups
        (parseNameGroupsConfig json api file (parseGlobalSandboxConfig json api file st).2).2
        (parseSections json api file (parseNameGroupsConfig json api file
          (parseGlobalSandboxConfig json api file st).2).2).2 := parseSections_keepsGroups
    rwa [hparse] at hkeeps
  obtain ⟨hloaded, hcount⟩ := (hglobal.loaded h).of_parseNameGroupsConfig
    (Prod.ext (orInvalid_ok_iff.mp hgroups) rfl)
  refine ⟨hsections.loaded hloaded, ?_⟩
  rw [hsections.depNodeCount, hcount, hglobal.depNodeCount]

/-- All files, when they all go through. -/
theorem Loaded.of_parseFiles {files : List (File J)} (h : Loaded json es st)
    (hok : ∀ ret ∈ (parseFiles json api files st).1, ret = .ok) :
    Loaded json (es ++ files.flatMap (nameGroupItems json)) (parseFiles json api files st).2 ∧
      (parseFiles json api files st).2.depNodeCount = tableSlots json es st.depNodeCount files := by
  induction files generalizing st es with
  | nil =>
    rw [List.flatMap_nil, List.append_nil]
    exact ⟨h, rfl⟩
  | cons file files ih =>
    have hret : (parseAppSandboxConfig json api file st).1 = .ok := hok _ List.mem_cons_self
    obtain ⟨hfile, hcount⟩ := h.of_parseAppSandboxConfig (Prod.ext hret rfl)
    obtain ⟨hrest, hrestCount⟩ := ih hfile fun ret hmem => hok ret (List.mem_cons_of_mem _ hmem)
    rw [List.flatMap_cons, ← List.append_assoc]
    refine ⟨hrest, ?_⟩
    rw [tableSlots, ← hcount]
    exact hrestCount

/-! ## The table -/

/-- The sections with a dependency. -/
def withDependency (nodes : List SandboxSection) : List SandboxSection :=
  nodes.filter fun s => s.depNode.isSome

theorem withDependency_cons_of_pos {nodes : List SandboxSection}
    (h : node.depNode.isSome = true) :
    withDependency (node :: nodes) = node :: withDependency nodes := List.filter_cons_of_pos h

theorem withDependency_cons_of_neg {nodes : List SandboxSection}
    (h : ¬ node.depNode.isSome = true) :
    withDependency (node :: nodes) = withDependency nodes := List.filter_cons_of_neg h

/-- The name-groups with a dependency, in the order of the queue. -/
def dependentGroups (st : AppSpawnSandboxCfg) : List SandboxSection :=
  withDependency (st.queue .nameGroups)

/-- The table has each of them once and in this order, there is one when there are any, and
`depNodeCount` is their number. -/
structure TableCorrect (st : AppSpawnSandboxCfg) : Prop where
  count : st.depNodeCount = (dependentGroups st).length
  once : ((dependentGroups st).map (·.id)).Nodup
  table : dependentGroups st ≠ [] → ∃ slots, st.depGroupNodes = some slots ∧
    slots.take st.depNodeCount = (dependentGroups st).map (some ·.id)

/-- There are as many as there are names with a dependency. -/
theorem Loaded.length_dependentGroups (h : Loaded json es st) :
    (dependentGroups st).length = (dependentNames json es).length := by
  have hgroups : ((dependentGroups st).map fun s => some s.name).Nodup := by
    have hnames : ((dependentGroups st).map (·.name)).Nodup :=
      List.Nodup.sublist (List.filter_sublist.map _) h.names
    have hsome := hnames.map (Option.some_injective _)
    rwa [List.map_map] at hsome
  have hdedup : (dependentNames json es).Nodup := List.nodup_dedup _
  have hperm : ((dependentGroups st).map fun s => some s.name).Perm (dependentNames json es) := by
    refine (List.perm_ext_iff_of_nodup hgroups hdedup).mpr ?_
    intro name
    rw [mem_dependentNames, List.mem_map]
    constructor
    · rintro ⟨s, hs, rfl⟩
      obtain ⟨hs, hdep⟩ := List.mem_filter.mp hs
      rw [← h.deps s hs]
      exact hdep
    · intro hdeclared
      obtain ⟨e, he, rfl, -⟩ := declared_iff.mp hdeclared
      obtain ⟨s, hs, hname⟩ := h.found e he
      rw [hname] at hdeclared ⊢
      exact ⟨s, List.mem_filter.mpr ⟨hs, (h.deps s hs).trans hdeclared⟩, rfl⟩
  rw [← hperm.length_eq, List.length_map]

/-- The table is written slot by slot when there are enough. -/
theorem fillDepGroupNodes_of_le {nodes : List SandboxSection} {slots : List (Option Nat)}
    {count n : Nat} (hn : n = count + (withDependency nodes).length)
    (hle : n ≤ slots.length) :
    ∃ slots', fillDepGroupNodes nodes slots count = some (slots', n) ∧
      slots'.take n = slots.take count ++
        (withDependency nodes).map (some ·.id) := by
  induction nodes generalizing slots count with
  | nil =>
    obtain rfl : n = count := hn
    exact ⟨slots, rfl, (List.append_nil _).symm⟩
  | cons node nodes ih =>
    rw [fillDepGroupNodes]
    by_cases hdep : node.depNode.isSome = true
    · rw [withDependency_cons_of_pos hdep, List.length_cons] at hn
      have hlt : count < slots.length := by omega
      -- what is in front of the slot that is written stays
      have hwritten : (slots.set count (some node.id)).take (count + 1) =
          slots.take count ++ [some node.id] := by
        rw [List.take_add_one, List.take_set_of_le (Nat.le_refl _), List.getElem?_set_self hlt]
        rfl
      have hle' : n ≤ (slots.set count (some node.id)).length := by rwa [List.length_set]
      have hn' : n = count + 1 + (withDependency nodes).length := by omega
      obtain ⟨slots', hfill, htake⟩ := ih hn' hle'
      rw [if_pos hdep, if_pos hlt, withDependency_cons_of_pos hdep]
      refine ⟨slots', hfill, ?_⟩
      rw [htake, hwritten, List.append_assoc]
      rfl
    · rw [withDependency_cons_of_neg hdep] at hn ⊢
      rw [if_neg hdep]
      exact ih hn hle

/-- It is written outside of when there are not. -/
theorem fillDepGroupNodes_of_lt {nodes : List SandboxSection} {slots : List (Option Nat)}
    {count : Nat} (hcount : count ≤ slots.length)
    (hlt : slots.length < count + (withDependency nodes).length) :
    fillDepGroupNodes nodes slots count = none := by
  induction nodes generalizing slots count with
  | nil => exact absurd hlt (Nat.not_lt_of_le hcount)
  | cons node nodes ih =>
    rw [fillDepGroupNodes]
    by_cases hdep : node.depNode.isSome = true
    · rw [withDependency_cons_of_pos hdep, List.length_cons] at hlt
      rw [if_pos hdep]
      split
      · next hslot =>
        refine ih ?_ ?_
        · rw [List.length_set]
          exact hslot
        · rw [List.length_set]
          omega
      · rfl
    · rw [withDependency_cons_of_neg hdep] at hlt
      rw [if_neg hdep]
      exact ih hcount hlt

/-- The configuration as the loader leaves it apart from the table. -/
def withParameters (api : Helpers) (st : AppSpawnSandboxCfg) : AppSpawnSandboxCfg :=
  { st with
    pidNamespaceSupport := getBoolParameter api "const.sandbox.pidns.support" true
    appFullMountEnable := getBoolParameter api "const.filemanager.full_mount.enable" false }

/-- Nothing is written outside of the table, and after a load without an error it is correct. -/
def TableHolds : Option (Ret × AppSpawnSandboxCfg) → Prop
  | none => False
  | some (ret, st) => ret = .ok → TableCorrect st

/-- Building the table, when the name-groups have addresses of their own. -/
theorem buildTable_holds_iff {tableMemory : Bool} (hids : UniqueKeys (·.id) (st.queue .nameGroups)) :
    TableHolds (buildTable tableMemory st) ↔ (dependentGroups st).length ≤ st.depNodeCount ∨
      (st.depNodeCount ≠ 0 ∧ tableMemory = false) := by
  have honce : ((dependentGroups st).map (·.id)).Nodup := hids.sublist List.filter_sublist
  unfold buildTable
  by_cases hzero : st.depNodeCount = 0
  · rw [if_pos hzero]
    constructor
    · intro hcorrect
      exact Or.inl (Nat.le_of_eq (hcorrect rfl).count.symm)
    · rintro (hle | ⟨hne, -⟩) -
      · rw [hzero] at hle
        have hnil := List.eq_nil_of_length_eq_zero (Nat.le_zero.mp hle)
        refine ⟨?_, honce, fun hne => absurd hnil hne⟩
        rw [hzero, hnil]
        rfl
      · exact absurd hzero hne
  · rw [if_neg hzero]
    cases tableMemory with
    | false =>
      -- the load fails without a table
      refine iff_of_true ?_ (Or.inr ⟨hzero, rfl⟩)
      intro hok
      cases hok
    | true =>
      rw [if_pos rfl]
      have hslots : (List.replicate st.depNodeCount (none : Option Nat)).length =
          st.depNodeCount := List.length_replicate
      constructor
      · intro hholds
        by_contra hnot
        have hlt : st.depNodeCount < (dependentGroups st).length :=
          Nat.lt_of_not_le fun hle => hnot (Or.inl hle)
        rw [fillDepGroupNodes_of_lt (Nat.zero_le _) (by
          rw [hslots, Nat.zero_add]
          exact hlt)] at hholds
        exact hholds
      · rintro (hle | ⟨-, hmem⟩)
        · rw [← hslots] at hle
          obtain ⟨slots, hfill, htake⟩ := fillDepGroupNodes_of_le (Nat.zero_add _).symm hle
          rw [hfill]
          exact fun _ => ⟨rfl, honce, fun _ => ⟨slots, rfl, htake⟩⟩
        · cases hmem

/-- The files go through. -/
def FilesParsed (json : CJson J) (api : Helpers) (files : List (File J)) : Prop :=
  (api.parseJsonConfig (parseFiles json api files .init).1).getD .ok = .ok

instance (json : CJson J) (api : Helpers) (files : List (File J)) :
    Decidable (FilesParsed json api files) :=
  inferInstanceAs (Decidable ((api.parseJsonConfig (parseFiles json api files .init).1).getD .ok = .ok))

theorem FilesParsed.eq_ok {files : List (File J)} (h : FilesParsed json api files) :
    ∀ ret ∈ (parseFiles json api files .init).1, ret = .ok := by
  unfold FilesParsed at h
  cases hret : api.parseJsonConfig (parseFiles json api files .init).1 with
  | none =>
    rw [api.parseJsonConfig_none hret]
    intro ret hmem
    cases hmem
  | some ret =>
    rw [hret] at h
    obtain rfl : ret = .ok := h
    exact api.parseJsonConfig_ok hret

/-- Behind files that go through, the table is built. -/
theorem FilesParsed.load_eq {files : List (File J)} (h : FilesParsed json api files)
    (tableMemory : Bool) : loadAppSandboxConfig json api files tableMemory .init =
      buildTable tableMemory (withParameters api (parseFiles json api files .init).2) := by
  unfold loadAppSandboxConfig
  dsimp only
  exact if_neg (not_not_intro h)

/-- An error of the files is returned. -/
theorem load_eq_of_not_filesParsed {files : List (File J)} (h : ¬ FilesParsed json api files)
    (tableMemory : Bool) : loadAppSandboxConfig json api files tableMemory .init =
      some ((api.parseJsonConfig (parseFiles json api files .init).1).getD .ok,
        (parseFiles json api files .init).2) := by
  unfold loadAppSandboxConfig
  dsimp only
  exact if_pos h

/-- **The exact condition of a correct table**: when the files go through and there is memory for the
table, it has each name-group with a dependency once and in the order of the queue, and nothing is
written outside of it, just in case no more names have a dependency in all files than there are items
in the last `"name-groups"` whose name has one by then. -/
theorem depTable_iff (json : CJson J) (api : Helpers) (files : List (File J)) (tableMemory : Bool) :
    TableHolds (loadAppSandboxConfig json api files tableMemory .init) ↔
      (FilesParsed json api files →
        (dependentNames json (files.flatMap (nameGroupItems json))).length ≤
            tableSlots json [] 0 files ∨
          (tableSlots json [] 0 files ≠ 0 ∧ tableMemory = false)) := by
  by_cases hparsed : FilesParsed json api files
  · obtain ⟨hloaded, hcount⟩ := loaded_init.of_parseFiles hparsed.eq_ok
    have hids : UniqueKeys (·.id)
        ((withParameters api (parseFiles json api files .init).2).queue .nameGroups) := hloaded.ids
    have hlength :
        (dependentGroups (withParameters api (parseFiles json api files .init).2)).length =
          (dependentNames json (files.flatMap (nameGroupItems json))).length :=
      hloaded.length_dependentGroups
    have hslots : (withParameters api (parseFiles json api files .init).2).depNodeCount =
        tableSlots json [] 0 files := hcount
    rw [hparsed.load_eq, buildTable_holds_iff hids, hlength, hslots]
    exact (imp_iff_right hparsed).symm
  · rw [load_eq_of_not_filesParsed hparsed]
    refine iff_of_true ?_ fun h => absurd h hparsed
    intro hok
    exact absurd hok hparsed

/-- The paths of a dependency. -/
def dependencyPaths : Json :=
  .object [("src-path", .string "/data"), ("sandbox-path", .string "/storage")]

/-- Two name-groups with a dependency, and then one of them again in a file of its own. -/
def regrouped : List (File JsonItem) :=
  [Json.file
      [("name-groups", .array
        [.object [("name", .string "g"), ("mount-paths-deps", dependencyPaths)],
          .object [("name", .string "h"), ("mount-paths-deps", dependencyPaths)]])],
    Json.file [("name-groups", .array [.object [("name", .string "g")]])]]

/-- The second name-group is written behind the only slot. -/
theorem depTable_regrouped :
    FilesParsed cJson helpers regrouped ∧
      ¬ TableHolds (loadAppSandboxConfig cJson helpers regrouped true .init) := by
  refine ⟨by decide, fun hholds => ?_⟩
  have hload : (loadAppSandboxConfig cJson helpers regrouped true .init).isNone = true := by decide
  rw [Option.isNone_iff_eq_none.mp hload] at hholds
  exact hholds

end Sandbox
