import OpenHarmonyMac.Sandbox.Section
import Mathlib.Data.List.Nodup
import Mathlib.Data.List.ReduceOption
import Mathlib.Data.Option.Basic

/-!
# Merging the mount-groups of a section

A section keeps an array of pointers to name-groups. Each time a `"mount-groups"` array is parsed into
the section, `ParseMountGroupsConfig` makes a new array of the old entries and the groups that are
named.

* `Merged` — what the new array is meant to be
* `merged_iff` — when it is
-/

namespace Sandbox

variable {J : Type} (json : CJson J) (api : Helpers)

/-! ## What is merged -/

/-- The group that an item names, if it exists and the section may have it. -/
def namedGroup (queue : List SandboxSection) (s : SandboxSection) (item : J) : Option Nat :=
  match api.getSandboxSection queue (json.getStringValue item) with
  | none => none
  | some mountNode =>
    if s.name = "system-const" ∧ mountNode.destType ≠ some .systemConst then none
    else some mountNode.id

/-- The groups that the array names, in its order. -/
def namedGroups (queue : List SandboxSection) (config : J) (s : SandboxSection) : List Nat :=
  (json.children config).filterMap (namedGroup json api queue s)

/-- Those of them that the section does not have. -/
def newGroups (queue : List SandboxSection) (config : J) (s : SandboxSection) : List Nat :=
  (namedGroups json api queue config s).filter fun g => !s.nameGroups.contains (some g)

/-- The entries of a section that are not NULL. -/
def SandboxSection.groups (s : SandboxSection) : List Nat := s.nameGroups.reduceOption

/-- A new array is allocated. -/
def Allocated (config : J) (mem : Memory) : Prop :=
  json.children config ≠ [] ∧ mem .nameGroups = true

/-- What merging is for: the entries that are not NULL, and behind them each group that is named and
new, once and in the order of the array. The array is as long as `number` says, no group is in it
twice, and nothing is written outside of it. -/
structure Merged (queue : List SandboxSection) (config : J) (s : SandboxSection) (mem : Memory) :
    Prop where
  entries : ∃ added, (parseMountGroupsConfig json api queue config s mem).2.nameGroups
      = (s.groups ++ added).map some ∧
    added.Sublist (namedGroups json api queue config s) ∧
    ∀ g, g ∈ added ↔ g ∈ newGroups json api queue config s
  nodup : (parseMountGroupsConfig json api queue config s mem).2.nameGroups.Nodup
  inside : Allocated json config mem → (mergeMountGroups json api queue config s).2 = true

/-- What it takes. The loop filters new groups against the old entries only, and runs past the end of
the JSON array as many times as there are old entries, writing NULL behind the last entry each time.
When no array is allocated the old one stays as it is. -/
structure MergeFits (queue : List SandboxSection) (config : J) (s : SandboxSection) (mem : Memory) :
    Prop where
  old : s.groups.Nodup
  new : (newGroups json api queue config s).Nodup
  room : Allocated json config mem → s.nameGroups = [] ∨ none ∈ s.nameGroups ∨
    (newGroups json api queue config s).length < json.getArraySize config
  kept : ¬ Allocated json config mem → none ∉ s.nameGroups ∧
    newGroups json api queue config s = []

/-! ## The loop -/

variable {json api}
variable {queue : List SandboxSection} {config : J} {s : SandboxSection} {mem : Memory}
  {count : Nat}

/-- The group that an index of the loop adds. -/
def addedGroup (json : CJson J) (api : Helpers) (queue : List SandboxSection) (s : SandboxSection)
    (item : Option J) : Option Nat :=
  (item.bind (namedGroup json api queue s)).filter fun g => !s.nameGroups.contains (some g)

/-- One round: NULL is written behind the last entry, and then maybe a group. -/
theorem mountGroupsStep_eq (groups : List (Option Nat) × Bool) (i : Nat) :
    mountGroupsStep json api queue config s count groups i =
      (groups.1 ++ (addedGroup json api queue s (json.getArrayItem config i)).toList.map some,
        groups.2 && decide (groups.1.length < count)) := by
  unfold mountGroupsStep addedGroup namedGroup
  cases hitem : json.getArrayItem config i with
  | none =>
    have hnone : api.getSandboxSection queue none = none := by
      cases hg : api.getSandboxSection queue none with
      | none => rfl
      | some g => cases (api.getSandboxSection_some hg).2
    simp [hnone]
  | some item =>
    cases hg : api.getSandboxSection queue (json.getStringValue item) with
    | none => simp [hg]
    | some g =>
      by_cases hconst : s.name = "system-const" ∧ g.destType ≠ some .systemConst
      · simp [hg, hconst]
      · by_cases hold : some g.id ∈ s.nameGroups
        · simp [hg, hconst, hold]
        · simp [hg, hconst, hold, Option.filter_some]

/-- The indexes of the loop: the items, and as many times none as there are old entries. -/
theorem map_range_getElem? {α : Type*} (l : List α) (k : Nat) :
    (List.range (l.length + k)).map (fun i => l[i]?) = l.map some ++ List.replicate k none := by
  apply List.ext_getElem?
  intro i
  rcases Nat.lt_or_ge i l.length with hlt | hge
  · rw [List.getElem?_append_left (by simpa using hlt)]
    simp [Nat.lt_add_right k hlt, hlt]
  · rw [List.getElem?_append_right (by simpa using hge)]
    by_cases hk : i < l.length + k
    · simp [hk, List.getElem?_eq_none hge, List.getElem?_replicate]
      omega
    · rw [List.getElem?_eq_none (by simpa using Nat.le_of_not_lt hk), List.getElem?_eq_none]
      simp
      omega

/-- A round with the item in place of its index. -/
def roundAt (json : CJson J) (api : Helpers) (queue : List SandboxSection) (s : SandboxSection)
    (count : Nat) (groups : List (Option Nat) × Bool) (item : Option J) :
    List (Option Nat) × Bool :=
  (groups.1 ++ (addedGroup json api queue s item).toList.map some,
    groups.2 && decide (groups.1.length < count))

theorem mergeMountGroups_eq : mergeMountGroups json api queue config s =
    ((json.children config).map some ++ List.replicate s.nameGroups.length none).foldl
      (roundAt json api queue s (json.getArraySize config + s.nameGroups.length))
      (s.nameGroups.filter (·.isSome), true) := by
  rw [← map_range_getElem?, List.foldl_map]
  have hround : mountGroupsStep json api queue config s
        (json.getArraySize config + s.nameGroups.length) =
      fun groups i => roundAt json api queue s (json.getArraySize config + s.nameGroups.length)
        groups (json.children config)[i]? := by
    funext groups i
    exact mountGroupsStep_eq groups i
  unfold mergeMountGroups
  dsimp only
  rw [hround]
  rfl

/-- The rounds for the items add the new groups, and stay inside as long as there is room for one entry
an item. -/
theorem foldl_roundAt_items (items : List J) (groups : List (Option Nat)) (inside : Bool)
    (hroom : items ≠ [] → groups.length + items.length ≤ count) :
    (items.map some).foldl (roundAt json api queue s count) (groups, inside) =
      (groups ++ (items.filterMap fun item => addedGroup json api queue s (some item)).map some,
        inside) := by
  induction items generalizing groups with
  | nil => simp
  | cons item items ih =>
    have hlen : groups.length + (items.length + 1) ≤ count := hroom (List.cons_ne_nil _ _)
    have hadd : (addedGroup json api queue s (some item)).toList.length ≤ 1 := by
      cases addedGroup json api queue s (some item) <;> simp
    rw [List.map_cons, List.foldl_cons, roundAt, decide_eq_true (by dsimp only; omega),
      Bool.and_true, ih _ fun _ => by simp only [List.length_append, List.length_map]; omega]
    cases hg : addedGroup json api queue s (some item) with
    | none => simp [hg]
    | some g => simp [hg]

/-- The rounds past the end add nothing. -/
theorem foldl_roundAt_none (k : Nat) (groups : List (Option Nat)) (inside : Bool) :
    (List.replicate k none).foldl (roundAt json api queue s count) (groups, inside) =
      (groups, inside && decide (k = 0 ∨ groups.length < count)) := by
  induction k generalizing inside with
  | zero => simp
  | succ k ih =>
    have hround : roundAt json api queue s count (groups, inside) none =
        (groups, inside && decide (groups.length < count)) := by
      simp [roundAt, addedGroup]
    rw [List.replicate_succ, List.foldl_cons, hround, ih]
    by_cases hlt : groups.length < count <;> simp [hlt]

theorem filterMap_addedGroup : (json.children config).filterMap
    (fun item => addedGroup json api queue s (some item)) = newGroups json api queue config s := by
  rw [newGroups, namedGroups, List.filter_filterMap]
  rfl

theorem filter_isSome_eq_map (l : List (Option Nat)) :
    l.filter (·.isSome) = l.reduceOption.map some := by
  induction l with
  | nil => rfl
  | cons e l ih => cases e <;> simp [ih]

/-- **What the loop does.** -/
theorem mergeMountGroups_spec : mergeMountGroups json api queue config s =
    ((s.groups ++ newGroups json api queue config s).map some,
      decide (s.nameGroups = [] ∨ s.groups.length + (newGroups json api queue config s).length
        < json.getArraySize config + s.nameGroups.length)) := by
  have hold : s.nameGroups.filter (·.isSome) = s.groups.map some := filter_isSome_eq_map _
  have hle : s.groups.length ≤ s.nameGroups.length := List.reduceOption_length_le _
  rw [mergeMountGroups_eq, List.foldl_append, hold, foldl_roundAt_items, filterMap_addedGroup,
    foldl_roundAt_none]
  · simp
  · intro _
    rw [List.length_map, CJson.getArraySize]
    omega

/-! ## The array afterwards -/

theorem nameGroups_of_allocated (harray : json.isArray config = true)
    (halloc : Allocated json config mem) :
    (parseMountGroupsConfig json api queue config s mem).2.nameGroups =
      (s.groups ++ newGroups json api queue config s).map some := by
  have hsize : ¬ json.getArraySize config = 0 := fun h => halloc.1 (List.length_eq_zero_iff.mp h)
  have heq : parseMountGroupsConfig json api queue config s mem =
      (.ok, { s with nameGroups := (mergeMountGroups json api queue config s).1 }) := by
    simp [parseMountGroupsConfig, harray, hsize, halloc.2]
  rw [heq, mergeMountGroups_spec]

theorem nameGroups_of_not_allocated (halloc : ¬ Allocated json config mem) :
    (parseMountGroupsConfig json api queue config s mem).2.nameGroups = s.nameGroups := by
  unfold parseMountGroupsConfig
  split_ifs with _ hsize hmem
  · rfl
  · rfl
  · exact absurd ⟨fun h => hsize (by simp [CJson.getArraySize, h]), hmem⟩ halloc
  · rfl

theorem length_newGroups_le :
    (newGroups json api queue config s).length ≤ json.getArraySize config :=
  Nat.le_trans (List.length_filter_le _ _) (List.length_filterMap_le _ _)

theorem newGroups_sublist :
    (newGroups json api queue config s).Sublist (namedGroups json api queue config s) :=
  List.filter_sublist

/-- No new group is an old one. -/
theorem disjoint_newGroups : ∀ g ∈ s.groups, g ∉ newGroups json api queue config s := by
  intro g hg hnew
  have hold : some g ∈ s.nameGroups := List.reduceOption_mem_iff.mp hg
  have hnot := (List.mem_filter.mp hnew).2
  simp [hold] at hnot

/-- An array without NULL is its entries. -/
theorem nameGroups_eq_of_not_mem (h : none ∉ s.nameGroups) :
    s.nameGroups = s.groups.map some := by
  rw [SandboxSection.groups, ← filter_isSome_eq_map]
  refine (List.filter_eq_self.mpr fun e he => ?_).symm
  cases e with
  | none => exact absurd he h
  | some g => rfl

/-- Nothing is written outside of the array just in case there are no rounds past the end or there is
room for their NULL. -/
theorem inside_iff : (mergeMountGroups json api queue config s).2 = true ↔
    s.nameGroups = [] ∨ none ∈ s.nameGroups ∨
      (newGroups json api queue config s).length < json.getArraySize config := by
  have hnew : (newGroups json api queue config s).length ≤ json.getArraySize config :=
    length_newGroups_le
  have hnone : none ∈ s.nameGroups ↔ s.groups.length < s.nameGroups.length :=
    (List.reduceOption_length_lt_iff).symm
  have hle : s.groups.length ≤ s.nameGroups.length := List.reduceOption_length_le _
  rw [mergeMountGroups_spec, decide_eq_true_iff, hnone]
  refine or_congr_right ?_
  omega

/-- With a new array the old groups come first, and no new one is among them. -/
theorem merged_iff_of_allocated (harray : json.isArray config = true)
    (halloc : Allocated json config mem) :
    Merged json api queue config s mem ↔ MergeFits json api queue config s mem := by
  have hgroups : (parseMountGroupsConfig json api queue config s mem).2.nameGroups =
      (s.groups ++ newGroups json api queue config s).map some :=
    nameGroups_of_allocated harray halloc
  have hsome := Option.some_injective Nat
  constructor
  · intro h
    have hnodup := h.nodup
    rw [hgroups, List.nodup_map_iff hsome, List.nodup_append] at hnodup
    exact ⟨hnodup.1, hnodup.2.1, fun _ => inside_iff.mp (h.inside halloc),
      fun hn => absurd halloc hn⟩
  · intro h
    refine ⟨⟨_, hgroups, newGroups_sublist, fun g => Iff.rfl⟩, ?_,
      fun _ => inside_iff.mpr (h.room halloc)⟩
    rw [hgroups, List.nodup_map_iff hsome, List.nodup_append]
    refine ⟨h.old, h.new, ?_⟩
    rintro g hg g' hg' rfl
    exact disjoint_newGroups g hg hg'

/-- Without one the array stays as it is, and there must be nothing to add. -/
theorem merged_iff_of_not_allocated (halloc : ¬ Allocated json config mem) :
    Merged json api queue config s mem ↔ MergeFits json api queue config s mem := by
  have hgroups : (parseMountGroupsConfig json api queue config s mem).2.nameGroups =
      s.nameGroups := nameGroups_of_not_allocated halloc
  constructor
  · intro h
    obtain ⟨added, heq, -, hmem⟩ := h.entries
    rw [hgroups] at heq
    -- What is promised holds no NULL, so the old array holds none.
    have hnone : none ∉ s.nameGroups := by
      rw [heq]
      simp
    have hsame := nameGroups_eq_of_not_mem hnone
    have hadded : added = [] := by
      have hlen := congrArg List.length (heq.symm.trans hsame)
      simpa using hlen
    have hnodup := h.nodup
    rw [hgroups, hsame, List.nodup_map_iff (Option.some_injective Nat)] at hnodup
    have hnew : newGroups json api queue config s = [] := by
      refine List.eq_nil_iff_forall_not_mem.mpr fun g hg => ?_
      have := (hmem g).mpr hg
      rw [hadded] at this
      cases this
    exact ⟨hnodup, by rw [hnew]; exact List.nodup_nil, fun ha => absurd ha halloc,
      fun _ => ⟨hnone, hnew⟩⟩
  · intro h
    obtain ⟨hnone, hnew⟩ := h.kept halloc
    have hsame := nameGroups_eq_of_not_mem hnone
    refine ⟨⟨[], ?_, List.nil_sublist _, fun g => by rw [hnew]⟩, ?_, fun ha => absurd ha halloc⟩
    · rw [hgroups, List.append_nil, hsame]
    · rw [hgroups, hsame, List.nodup_map_iff (Option.some_injective Nat)]
      exact h.old

/-- **The groups of a section are merged as they should be just in case** the old entries hold no
group twice and the new ones neither, and the NULL behind them fits. -/
theorem merged_iff (harray : json.isArray config = true) :
    Merged json api queue config s mem ↔ MergeFits json api queue config s mem := by
  by_cases halloc : Allocated json config mem
  · exact merged_iff_of_allocated harray halloc
  · exact merged_iff_of_not_allocated halloc

/-- Two name-groups, and a section that has the first one. -/
def sampleGroupQueue : List SandboxSection := [.create 0 "first", .create 1 "second"]

def sampleSection : SandboxSection := { SandboxSection.create 7 "app" with nameGroups := [some 0] }

/-- A `"mount-groups"` array of these names. -/
def groupNames (names : List String) : JsonItem := ⟨none, .array (names.map .string)⟩

/-- A new group and one that does not exist are merged as they should be. -/
theorem merged_iff_run :
    Merged cJson helpers sampleGroupQueue (groupNames ["second", "third"]) sampleSection
      fun _ => true := by
  refine (merged_iff rfl).mpr ⟨by decide +kernel, by decide +kernel, fun _ => ?_, fun hn => ?_⟩
  · exact .inr (.inr (by decide +kernel))
  · exact absurd ⟨List.cons_ne_nil _ _, rfl⟩ hn

/-- **A single new group behind a single old one: NULL is written behind the end of the array.** -/
theorem written_outside : ∃ config, cJson.isArray config = true ∧
    (mergeMountGroups cJson helpers sampleGroupQueue config sampleSection).2 = false ∧
    ¬ Merged cJson helpers sampleGroupQueue config sampleSection fun _ => true := by
  have hout : (mergeMountGroups cJson helpers sampleGroupQueue (groupNames ["second"])
      sampleSection).2 = false := by decide +kernel
  refine ⟨groupNames ["second"], rfl, hout, fun h => ?_⟩
  have hinside := h.inside ⟨List.cons_ne_nil _ _, rfl⟩
  rw [hout] at hinside
  cases hinside

end Sandbox
