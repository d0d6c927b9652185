import OpenHarmonyMac.Sandbox.Section
import Mathlib.Logic.Function.Basic

/-!
# Loading the configuration

Each file is parsed into the queues: the name-groups first, then the required sections and the
conditional ones. A section that is rejected is deleted, also when it had been loaded before. When
all files are parsed, the name-groups with a dependency are collected in a table.

* `parseNameGroup`, `parseSection` — one section
* `parseAppSandboxConfig` — one file
* `loadAppSandboxConfig` — all files, and the table
-/

namespace Sandbox

variable {J : Type} (json : CJson J) (api : Helpers)

/-! ## Queues -/

/-- The configuration with another list in a queue. -/
def AppSpawnSandboxCfg.setQueue (st : AppSpawnSandboxCfg) (q : Queue)
    (sections : List SandboxSection) : AppSpawnSandboxCfg :=
  { st with queue := Function.update st.queue q sections }

/-- `AddSandboxSection`. A section that is linked already has been changed where it is. -/
def addSection (st : AppSpawnSandboxCfg) (q : Queue) (s : SandboxSection) : AppSpawnSandboxCfg :=
  if s.id ∈ (st.queue q).map (·.id) then
    st.setQueue q ((st.queue q).map fun t => if t.id = s.id then s else t)
  else st.setQueue q (api.addSandboxSection s (st.queue q))

/-- `DeleteSandboxSection`: the section is unlinked and freed. -/
def deleteSection (st : AppSpawnSandboxCfg) (q : Queue) (s : SandboxSection) :
    AppSpawnSandboxCfg :=
  st.setQueue q ((st.queue q).filter (·.id ≠ s.id))

/-- `GetSandboxSection`, and `CreateSandboxSection` when there is none. -/
def findOrCreate (st : AppSpawnSandboxCfg) (q : Queue) (name : Option String) (memory : Bool) :
    Option (SandboxSection × AppSpawnSandboxCfg) :=
  match api.getSandboxSection (st.queue q) name, name with
  | some s, _ => some (s, st)
  | none, none => none
  | none, some name =>
    if memory then
      some (SandboxSection.create st.nextId name, { st with nextId := st.nextId + 1 })
    else none

/-! ## Name-groups -/

/-- The part of `ParseNameGroup` for `"mount-paths-deps"`, `none` when it is not decoded. -/
def parseDependency (node : SandboxSection) (groupConfig : J) (mem : Memory) :
    Option SandboxSection :=
  match json.getObjectItemCaseSensitive groupConfig "mount-paths-deps" with
  | none => some node
  | some obj =>
    (decodeMountPathConfig json api none obj .mountPath (mem .depNode) (mem .depAplName)).2.map
      fun depNode =>
        { node with
          depNode := some depNode
          depMode := some (getMountModeFromConfig json api groupConfig "deps-mode" .always) }

/-- `ParseNameGroup` -/
def parseNameGroup (st : AppSpawnSandboxCfg) (groupConfig : J) (mem : Memory) :
    Option SandboxSection × AppSpawnSandboxCfg :=
  match json.getStringFromJsonObj groupConfig "name" with
  | none => (none, st)
  | some name =>
    match findOrCreate api st .nameGroups (some name) (mem .section) with
    | none => (none, st)
    | some (node, st) =>
      match parseDependency json api node groupConfig mem with
      | none => (none, deleteSection st .nameGroups node)
      | some node =>
        match parseBaseConfig json api (st.queue .nameGroups) node groupConfig mem with
        | (.ok, node) =>
          let node :=
            { node with
              destType := some (getNameGroupTypeFromConfig json api groupConfig "type" .invalid) }
          (some node, addSection api st .nameGroups node)
        | (_, node) => (none, deleteSection st .nameGroups node)

/-- `sandbox->depNodeCount++` for a name-group with a dependency. -/
def countDepNode (node : SandboxSection) (st : AppSpawnSandboxCfg) : AppSpawnSandboxCfg :=
  { st with depNodeCount := st.depNodeCount + if node.depNode.isSome then 1 else 0 }

/-- The loop of `ParseNameGroupsConfig` -/
def parseNameGroups : List (J × Memory) → AppSpawnSandboxCfg → Ret × AppSpawnSandboxCfg
  | [], st => (.ok, st)
  | item :: items, st =>
    match parseNameGroup json api st item.1 item.2 with
    | (none, st) => (.sandboxInvalid, st)
    | (some node, st) => parseNameGroups items (countDepNode node st)

/-- The items of an array with the memory for each. -/
def withMemory (items : List J) (memory : Nat → Memory) : List (J × Memory) :=
  items.zipIdx.map fun item => (item.1, memory item.2)

/-- `ParseNameGroupsConfig` -/
def parseNameGroupsConfig (file : File J) (st : AppSpawnSandboxCfg) : Ret × AppSpawnSandboxCfg :=
  match json.getObjectItemCaseSensitive file.root "name-groups" with
  | none => (.ok, st)
  | some configs =>
    if !json.isArray configs then (.sandboxInvalid, st)
    else if json.getArraySize configs = 0 then (.ok, st)
    else
      parseNameGroups json api (withMemory (json.children configs) (file.memory .nameGroups))
        { st with depNodeCount := 0 }

/-! ## The other sections -/

/-- What the parsers of the sections have in common: the section is found or made, prepared, and
deleted when it is rejected. -/
def parseSection (q : Queue) (prepare : SandboxSection → SandboxSection) (name : Option String)
    (config : J) (mem : Memory) (st : AppSpawnSandboxCfg) : Ret × AppSpawnSandboxCfg :=
  match findOrCreate api st q name (mem .section) with
  | none => (.minusOne, st)
  | some (s, st) =>
    match parseBaseConfig json api (st.queue .nameGroups) (prepare s) config mem with
    | (.ok, s) => (.ok, addSection api st q s)
    | (ret, s) => (ret, deleteSection st q s)

/-- `ParsePackageNameConfig` -/
def parsePackageNameConfig (name : String) (config : J) (mem : Memory)
    (st : AppSpawnSandboxCfg) : Ret × AppSpawnSandboxCfg :=
  parseSection json api .packageName id (some name) config mem st

/-- `ParseSpawnFlagsConfig` -/
def parseSpawnFlagsConfig (name : String) (config : J) (mem : Memory) (st : AppSpawnSandboxCfg) :
    Ret × AppSpawnSandboxCfg :=
  parseSection json api .spawnFlags
    (fun s => { s with flagIndex := getFlagIndexFromJson json api config }) (some name) config mem st

/-- `ParsePermissionConfig` -/
def parsePermissionConfig (name : String) (config : J) (mem : Memory) (st : AppSpawnSandboxCfg) :
    Ret × AppSpawnSandboxCfg :=
  parseSection json api .permission id (some name) config mem st

/-- The loop of `ParseConditionalConfig`. Items without a name are left out. -/
def parseConditional
    (parseConfig : String → J → Memory → AppSpawnSandboxCfg → Ret × AppSpawnSandboxCfg) :
    List (J × Memory) → AppSpawnSandboxCfg → Ret × AppSpawnSandboxCfg
  | [], st => (.ok, st)
  | item :: items, st =>
    match json.getStringFromJsonObj item.1 "name" with
    | none => parseConditional parseConfig items st
    | some name => andThen (parseConfig name item.1 item.2 st) (parseConditional parseConfig items)

/-- `ParseConditionalConfig` -/
def parseConditionalConfig (configs : Option J) (memory : Nat → Memory)
    (parseConfig : String → J → Memory → AppSpawnSandboxCfg → Ret × AppSpawnSandboxCfg)
    (st : AppSpawnSandboxCfg) : Ret × AppSpawnSandboxCfg :=
  match configs with
  | none => (.ok, st)
  | some configs =>
    if json.isArray configs then
      parseConditional json parseConfig (withMemory (json.children configs) memory) st
    else (.sandboxInvalid, st)

/-- The loop of `ParseAppSandboxConfig` over `"required"`, in which a section has its key as its
name. -/
def parseRequired : List (J × Memory) → AppSpawnSandboxCfg → Ret × AppSpawnSandboxCfg
  | [], st => (.ok, st)
  | item :: items, st =>
    andThen (parseSection json api .required id (json.string item.1) item.1 item.2 st)
      (parseRequired items)

/-! ## Files -/

/-- `ParseGlobalSandboxConfig` -/
def parseGlobalSandboxConfig (file : File J) (st : AppSpawnSandboxCfg) :
    Ret × AppSpawnSandboxCfg :=
  match json.getObjectItemCaseSensitive file.root "global" with
  | none => (.ok, st)
  | some global =>
    let st := { st with sandboxNsFlags := getSandboxNsFlags json api global }
    match json.getStringFromJsonObj global "sandbox-root" with
    | none => (.systemError, st)
    | some rootPath =>
      if file.rootPathMemory then
        (.ok,
          { st with
            rootPath := some rootPath
            topSandboxSwitch := json.getBoolValueFromJsonObj global "top-sandbox-switch" true })
      else (.systemError, { st with rootPath := none })

/-- An error of the first parts is returned as `APPSPAWN_SANDBOX_INVALID`. -/
def orInvalid (r : Ret × AppSpawnSandboxCfg) : Ret × AppSpawnSandboxCfg :=
  if r.1 = .ok then r else (.sandboxInvalid, r.2)

/-- The part of `ParseAppSandboxConfig` for `"required"` and `"conditional"`. -/
def parseSections (file : File J) (st : AppSpawnSandboxCfg) : Ret × AppSpawnSandboxCfg :=
  andThen
    (match json.getObjectItemCaseSensitive file.root "required" with
    | none => (.ok, st)
    | some required =>
      parseRequired json api (withMemory (json.children required) (file.memory .required)) st)
    fun st =>
    match json.getObjectItemCaseSensitive file.root "conditional" with
    | none => (.ok, st)
    | some conditional =>
      andThen (parseConditionalConfig json
        (json.getObjectItemCaseSensitive conditional "permission") (file.memory .permission)
        (parsePermissionConfig json api) st) fun st =>
      andThen (parseConditionalConfig json
        (json.getObjectItemCaseSensitive conditional "spawn-flag") (file.memory .spawnFlags)
        (parseSpawnFlagsConfig json api) st) fun st =>
      parseConditionalConfig json
        (json.getObjectItemCaseSensitive conditional "package-name") (file.memory .packageName)
        (parsePackageNameConfig json api) st

/-- `ParseAppSandboxConfig` -/
def parseAppSandboxConfig (file : File J) (st : AppSpawnSandboxCfg) : Ret × AppSpawnSandboxCfg :=
  andThen (orInvalid (parseGlobalSandboxConfig json api file st)) fun st =>
  andThen (orInvalid (parseNameGroupsConfig json api file st)) fun st =>
  parseSections json api file st

/-- The calls of `ParseJsonConfig`, one for each file whatever the last one has returned. -/
def parseFiles : List (File J) → AppSpawnSandboxCfg → List Ret × AppSpawnSandboxCfg
  | [], st => ([], st)
  | file :: files, st =>
    let (ret, st) := parseAppSandboxConfig json api file st
    let (rets, st) := parseFiles files st
    (ret :: rets, st)

/-- `GetBoolParameter` -/
def getBoolParameter (param : String) (value : Bool) : Bool :=
  match api.getParameter param with
  | some "false" => false
  | some "true" => true
  | _ => value

/-- The loop of `LoadAppSandboxConfig` over the name-groups, `none` when it writes outside of the
table. -/
def fillDepGroupNodes : List SandboxSection → List (Option Nat) → Nat →
    Option (List (Option Nat) × Nat)
  | [], slots, count => some (slots, count)
  | groupNode :: nodes, slots, count =>
    if groupNode.depNode.isSome then
      if count < slots.length then
        fillDepGroupNodes nodes (slots.set count (some groupNode.id)) (count + 1)
      else none
    else fillDepGroupNodes nodes slots count

/-- The end of `LoadAppSandboxConfig`, where the table is allocated and filled. -/
def buildTable (tableMemory : Bool) (st : AppSpawnSandboxCfg) : Option (Ret × AppSpawnSandboxCfg) :=
  if st.depNodeCount = 0 then some (.ok, st)
  else if tableMemory then
    (fillDepGroupNodes (st.queue .nameGroups) (List.replicate st.depNodeCount none) 0).map
      fun (slots, count) => (.ok, { st with depGroupNodes := some slots, depNodeCount := count })
  else some (.systemError, st)

/-- `LoadAppSandboxConfig`, `none` when it writes outside of the table. -/
def loadAppSandboxConfig (files : List (File J)) (tableMemory : Bool) (st : AppSpawnSandboxCfg) :
    Option (Ret × AppSpawnSandboxCfg) :=
  if st.depGroupNodes.isSome then some (.ok, st)
  else
    let (rets, st) := parseFiles json api files st
    let ret := (api.parseJsonConfig rets).getD .ok
    if ret ≠ .ok then some (ret, st)
    else
      buildTable tableMemory
        { st with
          pidNamespaceSupport := getBoolParameter api "const.sandbox.pidns.support" true
          appFullMountEnable := getBoolParameter api "const.filemanager.full_mount.enable" false }

/-! ## What the parsers of one section do -/

variable {json api}
variable {st st' st₁ : AppSpawnSandboxCfg} {q : Queue} {s node : SandboxSection} {e : J}
  {mem : Memory} {memory : Bool} {name : Option String}

/-- The section has been found or is a new one. -/
theorem findOrCreate_eq_some (h : findOrCreate api st q name memory = some (s, st₁)) :
    name = some s.name ∧
      ((api.getSandboxSection (st.queue q) name = some s ∧ st₁ = st) ∨
        (api.getSandboxSection (st.queue q) name = none ∧
          s = SandboxSection.create st.nextId s.name ∧
          st₁ = { st with nextId := st.nextId + 1 })) := by
  unfold findOrCreate at h
  split at h
  · next t hfind =>
    obtain ⟨rfl, rfl⟩ := Prod.mk.inj (Option.some.inj h)
    exact ⟨(api.getSandboxSection_some hfind).2, Or.inl ⟨hfind, rfl⟩⟩
  · cases h
  · next name hfind =>
    split at h
    · obtain ⟨rfl, rfl⟩ := Prod.mk.inj (Option.some.inj h)
      exact ⟨rfl, Or.inr ⟨hfind, rfl, rfl⟩⟩
    · cases h

theorem findOrCreate_eq_none (h : findOrCreate api st q name memory = none) :
    api.getSandboxSection (st.queue q) name = none := by
  unfold findOrCreate at h
  split at h
  · cases h
  · next hfind => exact hfind
  · next hfind => exact hfind

theorem findOrCreate_queue (h : findOrCreate api st q name memory = some (s, st₁)) :
    st₁.queue = st.queue := by
  rcases (findOrCreate_eq_some h).2 with ⟨-, rfl⟩ | ⟨-, -, rfl⟩ <;> rfl

/-- The dependency of a name-group has its two paths, and memory for its node. -/
def DependencyAccepted (json : CJson J) (e : J) (mem : Memory) : Prop :=
  ∀ obj, json.getObjectItemCaseSensitive e "mount-paths-deps" = some obj →
    (json.getStringFromJsonObj obj "src-path").isSome ∧
      (json.getStringFromJsonObj obj "sandbox-path").isSome ∧ mem .depNode = true

/-- What a name-group is not deleted for. -/
def GroupAccepted (json : CJson J) (e : J) (mem : Memory) : Prop :=
  DependencyAccepted json e mem ∧ BaseAccepted json e mem

/-- A name-group has a dependency when it had one or gets one. -/
theorem parseDependency_eq_some (h : parseDependency json api s e mem = some node) :
    node.id = s.id ∧ node.name = s.name ∧ node.nameGroups = s.nameGroups ∧
      node.depNode.isSome = (s.depNode.isSome ||
        (json.getObjectItemCaseSensitive e "mount-paths-deps").isSome) := by
  unfold parseDependency at h
  split at h
  · next hobj =>
    obtain rfl := Option.some.inj h
    rw [hobj, Option.isSome_none, Bool.or_false]
    exact ⟨rfl, rfl, rfl, rfl⟩
  · next obj hobj =>
    obtain ⟨depNode, -, rfl⟩ := Option.map_eq_some_iff.mp h
    refine ⟨rfl, rfl, rfl, ?_⟩
    rw [hobj]
    exact (Bool.or_true _).symm

theorem parseDependency_isSome_iff :
    (parseDependency json api s e mem).isSome ↔ DependencyAccepted json e mem := by
  unfold parseDependency DependencyAccepted
  cases hobj : json.getObjectItemCaseSensitive e "mount-paths-deps" with
  | none => simp
  | some obj =>
    unfold decodeMountPathConfig
    cases hsrc : json.getStringFromJsonObj obj "src-path" with
    | none => simp [hsrc]
    | some srcPath =>
      cases hdst : json.getStringFromJsonObj obj "sandbox-path" with
      | none => simp [hdst]
      | some dstPath => by_cases hmem : mem .depNode = true <;> simp [hsrc, hdst, hmem]

/-- The three ways of `ParseNameGroup`: there is no section, the section is accepted, or it is
deleted. -/
inductive NameGroupParsed (json : CJson J) (api : Helpers) (st : AppSpawnSandboxCfg) (e : J)
    (mem : Memory) : Option SandboxSection × AppSpawnSandboxCfg → Prop
  | unnamed : json.getStringFromJsonObj e "name" = none →
      NameGroupParsed json api st e mem (none, st)
  | noMemory {name : String} : json.getStringFromJsonObj e "name" = some name →
      findOrCreate api st .nameGroups (some name) (mem .section) = none →
      NameGroupParsed json api st e mem (none, st)
  | accepted {s node : SandboxSection} {st₁ : AppSpawnSandboxCfg} :
      findOrCreate api st .nameGroups (json.getStringFromJsonObj e "name") (mem .section) =
        some (s, st₁) →
      GroupAccepted json e mem → node.id = s.id → node.name = s.name →
      node.depNode.isSome = (s.depNode.isSome ||
        (json.getObjectItemCaseSensitive e "mount-paths-deps").isSome) →
      (∀ p, some p ∈ node.nameGroups →
        some p ∈ s.nameGroups ∨ ∃ g ∈ st.queue .nameGroups, g.id = p) →
      NameGroupParsed json api st e mem (some node, addSection api st₁ .nameGroups node)
  | rejected {s node : SandboxSection} {st₁ : AppSpawnSandboxCfg} :
      findOrCreate api st .nameGroups (json.getStringFromJsonObj e "name") (mem .section) =
        some (s, st₁) →
      ¬ GroupAccepted json e mem → node.id = s.id →
      NameGroupParsed json api st e mem (none, deleteSection st₁ .nameGroups node)

theorem parseNameGroup_parsed (st : AppSpawnSandboxCfg) (e : J) (mem : Memory) :
    NameGroupParsed json api st e mem (parseNameGroup json api st e mem) := by
  unfold parseNameGroup
  split
  · next hname => exact .unnamed hname
  · next name hname =>
    split
    · next hfind => exact .noMemory hname hfind
    · next s st₁ hfind =>
      rw [← hname] at hfind
      have hqueue := findOrCreate_queue hfind
      split
      · next hdep =>
        refine .rejected hfind ?_ rfl
        rintro ⟨hdepAccepted, -⟩
        have hsome : (parseDependency json api s e mem).isSome :=
          parseDependency_isSome_iff.mpr hdepAccepted
        rw [hdep] at hsome
        cases hsome
      · next t hdep =>
        obtain ⟨hid, hnodeName, hrefs, hdepNode⟩ := parseDependency_eq_some hdep
        have hdepAccepted : DependencyAccepted json e mem :=
          parseDependency_isSome_iff.mp (by
            rw [hdep]
            rfl)
        -- the base configuration is all that is left to decide
        have hextends : Extends (st₁.queue .nameGroups) t
            (parseBaseConfig json api (st₁.queue .nameGroups) t e mem).2 := parseBaseConfig_extends
        have hok : (parseBaseConfig json api (st₁.queue .nameGroups) t e mem).1 = .ok ↔
            BaseAccepted json e mem := parseBaseConfig_ok_iff
        split
        · next node hparse =>
          rw [hparse] at hextends hok
          refine .accepted hfind ⟨hdepAccepted, hok.mp rfl⟩ (hextends.id.trans hid)
            (hextends.name.trans hnodeName) ?_ ?_
          · rw [← hdepNode]
            exact congrArg Option.isSome hextends.depNode
          · intro p hp
            rcases hextends.refs p hp with hp | hg
            · exact Or.inl (hrefs ▸ hp)
            · exact Or.inr (hqueue ▸ hg)
        · next ret node hne hparse =>
          rw [hparse] at hextends hok
          refine .rejected hfind ?_ (hextends.id.trans hid)
          rintro ⟨-, hbase⟩
          exact hne (hok.mpr hbase)

/-! ## References -/

/-- A section of the configuration has the pointer. -/
def AppSpawnSandboxCfg.RefersTo (st : AppSpawnSandboxCfg) (p : Nat) : Prop :=
  ∃ q, ∃ s ∈ st.queue q, some p ∈ s.nameGroups

/-- There is a name-group at the address. -/
def AppSpawnSandboxCfg.HasGroup (st : AppSpawnSandboxCfg) (p : Nat) : Prop :=
  ∃ g ∈ st.queue .nameGroups, g.id = p

theorem setQueue_queue (st : AppSpawnSandboxCfg) (q : Queue) (sections : List SandboxSection) :
    (st.setQueue q sections).queue q = sections := Function.update_self ..

theorem setQueue_queue_of_ne {q' : Queue} (h : q' ≠ q) (sections : List SandboxSection) :
    (st.setQueue q sections).queue q' = st.queue q' := Function.update_of_ne h ..

/-- A section takes the place of the one with its address, if there is one. -/
theorem mem_addSection_iff {t : SandboxSection} : t ∈ (addSection api st q s).queue q ↔
    t = s ∨ (t ∈ st.queue q ∧ t.id ≠ s.id) := by
  unfold addSection
  split
  · next hlinked =>
    obtain ⟨old, hold, hid⟩ := List.mem_map.mp hlinked
    rw [setQueue_queue, List.mem_map]
    constructor
    · rintro ⟨u, hu, rfl⟩
      split_ifs with huid
      · exact Or.inl rfl
      · exact Or.inr ⟨hu, huid⟩
    · rintro (rfl | ⟨ht, hne⟩)
      · exact ⟨old, hold, if_pos hid⟩
      · exact ⟨t, ht, if_neg hne⟩
  · next hlinked =>
    rw [setQueue_queue, (api.addSandboxSection_perm s _).mem_iff, List.mem_cons]
    refine or_congr_right ⟨fun ht => ⟨ht, ?_⟩, fun ht => ht.1⟩
    intro hid
    exact hlinked (hid ▸ List.mem_map_of_mem ht)

/-- The other queues stay. -/
theorem addSection_queue_of_ne {q' : Queue} (h : q' ≠ q) :
    (addSection api st q s).queue q' = st.queue q' := by
  unfold addSection
  split <;> exact setQueue_queue_of_ne h _

theorem deleteSection_queue_of_ne {q' : Queue} (h : q' ≠ q) :
    (deleteSection st q s).queue q' = st.queue q' := setQueue_queue_of_ne h _

theorem mem_deleteSection {t : SandboxSection} :
    t ∈ (deleteSection st q s).queue q ↔ t ∈ st.queue q ∧ t.id ≠ s.id := by
  unfold deleteSection
  rw [setQueue_queue, List.mem_filter, decide_eq_true_iff]

/-- The references after adding a section. -/
theorem refersTo_addSection {p : Nat} (h : (addSection api st q s).RefersTo p) :
    some p ∈ s.nameGroups ∨ st.RefersTo p := by
  obtain ⟨q', t, ht, hp⟩ := h
  by_cases hq : q' = q
  · subst hq
    rcases mem_addSection_iff.mp ht with rfl | ⟨ht, -⟩
    · exact Or.inl hp
    · exact Or.inr ⟨q', t, ht, hp⟩
  · rw [addSection_queue_of_ne hq] at ht
    exact Or.inr ⟨q', t, ht, hp⟩

theorem refersTo_deleteSection {p : Nat} (h : (deleteSection st q s).RefersTo p) :
    st.RefersTo p := by
  obtain ⟨q', t, ht, hp⟩ := h
  by_cases hq : q' = q
  · subst hq
    exact ⟨q', t, (mem_deleteSection.mp ht).1, hp⟩
  · rw [deleteSection_queue_of_ne hq] at ht
    exact ⟨q', t, ht, hp⟩

/-! ## The other sections leave the name-groups alone -/

/-- The name-groups are the same, and new references are to them. -/
structure KeepsGroups (st st' : AppSpawnSandboxCfg) : Prop where
  nameGroups : st'.queue .nameGroups = st.queue .nameGroups
  depNodeCount : st'.depNodeCount = st.depNodeCount
  nextId : st.nextId ≤ st'.nextId
  refs : ∀ p, st'.RefersTo p → st.RefersTo p ∨ st.HasGroup p

theorem KeepsGroups.refl (st : AppSpawnSandboxCfg) : KeepsGroups st st :=
  ⟨rfl, rfl, Nat.le_refl _, fun _ hp => Or.inl hp⟩

theorem KeepsGroups.trans {st'' : AppSpawnSandboxCfg} (h : KeepsGroups st st')
    (h' : KeepsGroups st' st'') : KeepsGroups st st'' where
  nameGroups := h'.nameGroups.trans h.nameGroups
  depNodeCount := h'.depNodeCount.trans h.depNodeCount
  nextId := Nat.le_trans h.nextId h'.nextId
  refs := by
    intro p hp
    rcases h'.refs p hp with hp | ⟨g, hg, hid⟩
    · exact h.refs p hp
    · exact Or.inr ⟨g, h.nameGroups ▸ hg, hid⟩

theorem andThen_keepsGroups {r : Ret × AppSpawnSandboxCfg}
    {next : AppSpawnSandboxCfg → Ret × AppSpawnSandboxCfg} (hr : KeepsGroups st r.2)
    (hnext : ∀ st, KeepsGroups st (next st).2) : KeepsGroups st (andThen r next).2 := by
  obtain ⟨ret, st'⟩ := r
  cases ret
  case ok => exact hr.trans (hnext st')
  all_goals exact hr

theorem addSection_depNodeCount : (addSection api st q s).depNodeCount = st.depNodeCount := by
  unfold addSection
  split <;> rfl

theorem addSection_nextId : (addSection api st q s).nextId = st.nextId := by
  unfold addSection
  split <;> rfl

theorem parseSection_keepsGroups {prepare : SandboxSection → SandboxSection}
    (hq : q ≠ .nameGroups) (hprepare : ∀ s, (prepare s).nameGroups = s.nameGroups) :
    KeepsGroups st (parseSection json api q prepare name e mem st).2 := by
  unfold parseSection
  split
  · exact KeepsGroups.refl st
  · next s st₁ hfind =>
    have hqueue := findOrCreate_queue hfind
    have hsame : st₁.depNodeCount = st.depNodeCount ∧ st.nextId ≤ st₁.nextId := by
      rcases (findOrCreate_eq_some hfind).2 with ⟨-, rfl⟩ | ⟨-, -, rfl⟩
      · exact ⟨rfl, Nat.le_refl _⟩
      · exact ⟨rfl, Nat.le_succ _⟩
    -- a new section has no pointers yet
    have hold : ∀ p, some p ∈ s.nameGroups → st.RefersTo p := by
      intro p hp
      rcases (findOrCreate_eq_some hfind).2 with ⟨hfound, -⟩ | ⟨-, hs, -⟩
      · exact ⟨q, s, (api.getSandboxSection_some hfound).1, hp⟩
      · rw [hs] at hp
        cases hp
    have hrefers : ∀ p, st₁.RefersTo p → st.RefersTo p := by
      rintro p ⟨q', t, ht, hp⟩
      exact ⟨q', t, hqueue ▸ ht, hp⟩
    have hextends : Extends (st₁.queue .nameGroups) (prepare s)
        (parseBaseConfig json api (st₁.queue .nameGroups) (prepare s) e mem).2 :=
      parseBaseConfig_extends
    split
    · next node hparse =>
      rw [hparse] at hextends
      refine ⟨?_, ?_, ?_, ?_⟩
      · rw [addSection_queue_of_ne hq.symm, hqueue]
      · exact addSection_depNodeCount.trans hsame.1
      · rw [addSection_nextId]
        exact hsame.2
      · intro p hp
        rcases refersTo_addSection hp with hp | hp
        · rcases hextends.refs p hp with hp | ⟨g, hg, hid⟩
          · exact Or.inl (hold p (hprepare s ▸ hp))
          · exact Or.inr ⟨g, hqueue ▸ hg, hid⟩
        · exact Or.inl (hrefers p hp)
    · refine ⟨?_, hsame.1, hsame.2, fun p hp => Or.inl (hrefers p (refersTo_deleteSection hp))⟩
      rw [deleteSection_queue_of_ne hq.symm, hqueue]

theorem parseConditional_keepsGroups {items : List (J × Memory)}
    {parseConfig : String → J → Memory → AppSpawnSandboxCfg → Ret × AppSpawnSandboxCfg}
    (h : ∀ name e mem st, KeepsGroups st (parseConfig name e mem st).2) :
    KeepsGroups st (parseConditional json parseConfig items st).2 := by
  induction items generalizing st with
  | nil => exact KeepsGroups.refl st
  | cons item items ih =>
    rw [parseConditional]
    split
    · exact ih
    · exact andThen_keepsGroups (h _ _ _ _) fun _ => ih

theorem parseConditionalConfig_keepsGroups {configs : Option J} {memory : Nat → Memory}
    {parseConfig : String → J → Memory → AppSpawnSandboxCfg → Ret × AppSpawnSandboxCfg}
    (h : ∀ name e mem st, KeepsGroups st (parseConfig name e mem st).2) :
    KeepsGroups st (parseConditionalConfig json configs memory parseConfig st).2 := by
  unfold parseConditionalConfig
  split
  · exact KeepsGroups.refl st
  · split
    · exact parseConditional_keepsGroups h
    · exact KeepsGroups.refl st

theorem parseRequired_keepsGroups {items : List (J × Memory)} :
    KeepsGroups st (parseRequired json api items st).2 := by
  induction items generalizing st with
  | nil => exact KeepsGroups.refl st
  | cons item items ih =>
    exact andThen_keepsGroups (parseSection_keepsGroups (by decide) fun _ => rfl) fun _ => ih

/-- **Only name-groups change name-groups.** -/
theorem parseSections_keepsGroups {file : File J} :
    KeepsGroups st (parseSections json api file st).2 := by
  refine andThen_keepsGroups ?_ ?_
  · split
    · exact KeepsGroups.refl st
    · exact parseRequired_keepsGroups
  · intro st
    split
    · exact KeepsGroups.refl st
    · refine andThen_keepsGroups (parseConditionalConfig_keepsGroups fun _ _ _ _ =>
        parseSection_keepsGroups (by decide) fun _ => rfl) fun st => ?_
      refine andThen_keepsGroups (parseConditionalConfig_keepsGroups fun _ _ _ _ =>
        parseSection_keepsGroups (by decide) fun _ => rfl) fun st => ?_
      exact parseConditionalConfig_keepsGroups fun _ _ _ _ =>
        parseSection_keepsGroups (by decide) fun _ => rfl

theorem parseGlobalSandboxConfig_keepsGroups {file : File J} :
    KeepsGroups st (parseGlobalSandboxConfig json api file st).2 := by
  unfold parseGlobalSandboxConfig
  split
  · exact KeepsGroups.refl st
  · dsimp only
    split
    · exact ⟨rfl, rfl, Nat.le_refl _, fun _ hp => Or.inl hp⟩
    · split <;> exact ⟨rfl, rfl, Nat.le_refl _, fun _ hp => Or.inl hp⟩

/-! ## New addresses -/

/-- The addresses of name-groups are below the next one. -/
def Fresh (st : AppSpawnSandboxCfg) : Prop := ∀ g ∈ st.queue .nameGroups, g.id < st.nextId

theorem fresh_parseNameGroup (h : Fresh st) : Fresh (parseNameGroup json api st e mem).2 := by
  have hparsed : NameGroupParsed json api st e mem (parseNameGroup json api st e mem) :=
    parseNameGroup_parsed st e mem
  generalize parseNameGroup json api st e mem = r at hparsed ⊢
  -- the section that has been found or made is below the next address
  have hfound : ∀ {s st₁}, findOrCreate api st .nameGroups (json.getStringFromJsonObj e "name")
      (mem .section) = some (s, st₁) → Fresh st₁ ∧ s.id < st₁.nextId := by
    intro s st₁ hfind
    rcases (findOrCreate_eq_some hfind).2 with ⟨hfound, rfl⟩ | ⟨-, hs, rfl⟩
    · exact ⟨h, h s (api.getSandboxSection_some hfound).1⟩
    · refine ⟨fun g hg => Nat.lt_succ_of_lt (h g hg), ?_⟩
      rw [hs]
      exact Nat.lt_succ_self _
  cases hparsed with
  | unnamed _ => exact h
  | noMemory _ _ => exact h
  | accepted hfind _ hid _ _ _ =>
    obtain ⟨hfresh, hlt⟩ := hfound hfind
    intro g hg
    rw [addSection_nextId]
    rcases mem_addSection_iff.mp hg with rfl | ⟨hg, -⟩
    · rw [hid]
      exact hlt
    · exact hfresh g hg
  | rejected hfind _ _ =>
    obtain ⟨hfresh, -⟩ := hfound hfind
    intro g hg
    exact hfresh g (mem_deleteSection.mp hg).1

theorem fresh_parseNameGroups {items : List (J × Memory)} (h : Fresh st) :
    Fresh (parseNameGroups json api items st).2 := by
  induction items generalizing st with
  | nil => exact h
  | cons item items ih =>
    have hitem : Fresh (parseNameGroup json api st item.1 item.2).2 := fresh_parseNameGroup h
    rw [parseNameGroups]
    split
    · next hparse =>
      rw [hparse] at hitem
      exact hitem
    · next node st' hparse =>
      rw [hparse] at hitem
      exact ih hitem

theorem fresh_parseNameGroupsConfig {file : File J} (h : Fresh st) :
    Fresh (parseNameGroupsConfig json api file st).2 := by
  unfold parseNameGroupsConfig
  split
  · exact h
  · split_ifs
    · exact h
    · exact h
    · exact fresh_parseNameGroups h

theorem KeepsGroups.fresh (h : KeepsGroups st st') (hst : Fresh st) : Fresh st' := by
  intro g hg
  rw [h.nameGroups] at hg
  exact Nat.lt_of_lt_of_le (hst g hg) h.nextId

theorem fresh_andThen {r : Ret × AppSpawnSandboxCfg}
    {next : AppSpawnSandboxCfg → Ret × AppSpawnSandboxCfg}
    (hnext : ∀ st, KeepsGroups st (next st).2) (hr : Fresh r.2) : Fresh (andThen r next).2 := by
  obtain ⟨ret, st⟩ := r
  cases ret
  case ok => exact (hnext st).fresh hr
  all_goals exact hr

theorem orInvalid_snd (r : Ret × AppSpawnSandboxCfg) : (orInvalid r).2 = r.2 := by
  unfold orInvalid
  split <;> rfl

theorem orInvalid_ok_iff {r : Ret × AppSpawnSandboxCfg} : (orInvalid r).1 = .ok ↔ r.1 = .ok := by
  unfold orInvalid
  split_ifs with hok
  · exact Iff.rfl
  · exact iff_of_false (by decide) hok

/-- A file that does not get behind its first part is left at the error. -/
theorem andThen_orInvalid_of_ne {ret : Ret} {next : AppSpawnSandboxCfg → Ret × AppSpawnSandboxCfg}
    (h : ret ≠ .ok) : andThen (orInvalid (ret, st)) next = (.sandboxInvalid, st) := by
  unfold orInvalid
  rw [if_neg h]
  rfl

theorem fresh_parseAppSandboxConfig {file : File J} (h : Fresh st) :
    Fresh (parseAppSandboxConfig json api file st).2 := by
  have hglobal : KeepsGroups st (parseGlobalSandboxConfig json api file st).2 :=
    parseGlobalSandboxConfig_keepsGroups
  unfold parseAppSandboxConfig
  generalize parseGlobalSandboxConfig json api file st = r at hglobal ⊢
  obtain ⟨ret, st₁⟩ := r
  by_cases hret : ret = .ok
  · subst hret
    refine fresh_andThen (r := orInvalid (parseNameGroupsConfig json api file st₁))
      (fun _ => parseSections_keepsGroups) ?_
    rw [orInvalid_snd]
    exact fresh_parseNameGroupsConfig (hglobal.fresh h)
  · rw [andThen_orInvalid_of_ne hret]
    exact hglobal.fresh h

end Sandbox
