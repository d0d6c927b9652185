import OpenHarmonyMac.Sandbox.Config

/-!
# Parsing a section

What all sections have in common: switches, a table of gids, mounts, symbol links and references to
name-groups. Whether a section is rejected depends on its configuration and on the memory, not on
what has been loaded before.

* `parseBaseConfig` — the code
* `BaseAccepted` — when it returns 0
* `parseBaseConfig_extends` — which references a section has after it
-/

namespace Sandbox

variable {J : Type} (json : CJson J) (api : Helpers)

/-! ## Values -/

/-- `MOUNT_MODE_MAP` -/
def mountModeMap : List (String × MountMode) := [("not-exists", .notExist), ("always", .always)]

/-- `NAME_GROUP_TYPE_MAP` -/
def nameGroupTypeMap : List (String × SandboxTag) :=
  [("system-const", .systemConst), ("app-variable", .appVariable)]

/-- `FLAGE_POINT_MAP` -/
def flagePointMap : List (String × FlagPoint) :=
  [("0", .zero), ("START_FLAGS_BACKUP", .backupExtension), ("DLP_MANAGER", .dlpManager),
    ("DEVELOPER_MODE", .developerMode)]

/-- `NAMESPACE_FLAGS_MAP`, with `CLONE_NEWPID` and `CLONE_NEWNET`. -/
def namespaceFlagsMap : List (String × BitVec 32) := [("pid", 0x20000000), ("net", 0x40000000)]

/-- The value of a member that is a string. -/
def stringItem (config : J) (key : String) : Option String :=
  (json.getObjectItemCaseSensitive config key).bind json.getStringValue

/-- `GetMountModeFromConfig` -/
def getMountModeFromConfig (config : J) (key : String) (default : MountMode) : MountMode :=
  match stringItem json config key with
  | none => default
  | some value => (api.getSandboxFlagInfo (some value) mountModeMap).getD default

/-- `GetNameGroupTypeFromConfig` -/
def getNameGroupTypeFromConfig (config : J) (key : String) (default : SandboxTag) : SandboxTag :=
  match stringItem json config key with
  | none => default
  | some value => (api.getSandboxFlagInfo (some value) nameGroupTypeMap).getD default

/-- `GetSandboxNsFlags` -/
def getSandboxNsFlags (appConfig : J) : BitVec 32 :=
  match json.getObjectItemCaseSensitive appConfig "sandbox-ns-flags" with
  | none => 0
  | some obj =>
    if json.isArray obj then
      (json.children obj).foldl
        (fun nsFlags item =>
          match api.getSandboxFlagInfo (json.getStringValue item) namespaceFlagsMap with
          | some flags => nsFlags ||| flags
          | none => nsFlags) 0
    else 0

/-- `GetChmodFromJson` with `SetMode` -/
def getChmodFromJson (config : J) : Nat :=
  match json.getStringFromJsonObj config "dest-mode" with
  | none => 0
  | some modeStrs => (api.stringSplit modeStrs "|").foldl (fun mode str => mode ||| api.getPathMode str) 0

/-- `GetFlagIndexFromJson` -/
def getFlagIndexFromJson (config : J) : FlagPoint :=
  match json.getStringFromJsonObj config "name" with
  | none => .zero
  | some flagStr => (api.getSandboxFlagInfo (some flagStr) flagePointMap).getD .zero

/-- `FillPathDemandInfo` -/
def fillPathDemandInfo (config : J) : PathDemandInfo where
  uid := json.getIntValueFromJsonObj config "uid" (-1)
  gid := json.getIntValueFromJsonObj config "gid" (-1)
  mode := json.getIntValueFromJsonObj config "ugo" (-1)

/-! ## Mounts -/

/-- `DecodeMountPathConfig`: the list without an old node of the same paths, and the new node. The
list is `none` for the section NULL. -/
def decodeMountPathConfig (front : Option (List MountNode)) (config : J) (type : SandboxTag)
    (memory aplMemory : Bool) : Option (List MountNode) × Option PathMountNode :=
  match json.getStringFromJsonObj config "src-path",
    json.getStringFromJsonObj config "sandbox-path" with
  | some srcPath, some dstPath =>
    let front := front.map fun nodes =>
      match api.getPathMountNode nodes type srcPath dstPath with
      | some tmp => nodes.erase (.path tmp)
      | none => nodes
    if memory then
      (front, some
        { type := type
          source := srcPath
          target := dstPath
          destMode := getChmodFromJson json api config
          mountSharedFlag := json.getBoolValueFromJsonObj config "mount-shared-flag" false
          checkErrorFlag := json.getBoolValueFromJsonObj config "check-action-status" false
          category := api.getMountCategory (json.getStringFromJsonObj config "category")
          appAplName := if aplMemory then json.getStringFromJsonObj config "app-apl-name" else none
          demandInfo := (json.getObjectItemCaseSensitive config "create-on-demand").map
            (fillPathDemandInfo json) })
    else (front, none)
  | _, _ => (front, none)

/-- The loop of `ParseMountPathsConfig` at an item, which is left out when it is not decoded. -/
def parseMountPath (type : SandboxTag) (mem : Memory) (s : SandboxSection) (item : J × Nat) :
    SandboxSection :=
  match decodeMountPathConfig json api (some s.front) item.1 type
    (mem (.path type item.2)) (mem (.aplName type item.2)) with
  | (front, some node) => { s with front := api.addSandboxMountNode (.path node) (front.getD []) }
  | (front, none) => { s with front := front.getD [] }

/-- `ParseMountPathsConfig` -/
def parseMountPathsConfig (mountConfigs : J) (s : SandboxSection) (type : SandboxTag)
    (mem : Memory) : Ret × SandboxSection :=
  if json.isArray mountConfigs then
    (.ok, (json.children mountConfigs).zipIdx.foldl (parseMountPath json api type mem) s)
  else (.minusOne, s)

/-- `DecodeSymbolLinksConfig` -/
def decodeSymbolLinksConfig (front : List MountNode) (config : J) (memory : Bool) :
    List MountNode × Option SymbolLinkNode :=
  match json.getStringFromJsonObj config "target-name",
    json.getStringFromJsonObj config "link-name" with
  | some target, some linkName =>
    let front :=
      match api.getSymbolLinkNode front target linkName with
      | some tmp => front.erase (.symbolLink tmp)
      | none => front
    if memory then
      (front, some
        { target := target
          linkName := linkName
          destMode := getChmodFromJson json api config
          checkErrorFlag := json.getBoolValueFromJsonObj config "check-action-status" false })
    else (front, none)
  | _, _ => (front, none)

/-- The loop of `ParseSymbolLinksConfig`, which ends at an item that is not decoded. -/
def parseSymbolLinks (mem : Memory) : List (J × Nat) → SandboxSection → Ret × SandboxSection
  | [], s => (.ok, s)
  | item :: items, s =>
    match decodeSymbolLinksConfig json api s.front item.1 (mem (.symbolLink item.2)) with
    | (front, some node) =>
      parseSymbolLinks mem items
        { s with front := api.addSandboxMountNode (.symbolLink node) front }
    | (front, none) => (.minusOne, { s with front := front })

/-- `ParseSymbolLinksConfig` -/
def parseSymbolLinksConfig (symbolLinkConfigs : J) (s : SandboxSection) (mem : Memory) :
    Ret × SandboxSection :=
  if json.isArray symbolLinkConfigs then
    parseSymbolLinks json api mem (json.children symbolLinkConfigs).zipIdx s
  else (.minusOne, s)

/-! ## Gids -/

/-- The gid of an item, 0 for none. -/
def itemGid (item : J) : BitVec 32 :=
  if json.isNumber item then BitVec.ofInt 32 (json.getNumberValue item)
  else api.decodeGid (json.getStringValue item)

/-- `ParseGidTableConfig`. The last table counts. -/
def parseGidTableConfig (configs : J) (s : SandboxSection) (mem : Memory) :
    Ret × SandboxSection :=
  if !json.isArray configs then (.ok, s)
  else if json.children configs = [] then (.ok, s)
  else if mem .gidTable then
    let gids := ((json.children configs).take api.appMaxGids).map (itemGid json api)
    (.ok, { s with gidTable := gids.filter (· ≠ 0) })
  else (.systemError, { s with gidTable := [] })

/-! ## References to name-groups -/

/-- The loop of `ParseMountGroupsConfig` at an index: the new array as far as `number`, and whether
all writes were inside of its `count` slots. -/
def mountGroupsStep (nameGroupsQueue : List SandboxSection) (groupConfig : J) (s : SandboxSection)
    (count : Nat) (groups : List (Option Nat) × Bool) (i : Nat) : List (Option Nat) × Bool :=
  -- `nameGroups[number] = NULL`
  let inside := groups.2 && decide (groups.1.length < count)
  let name := (json.getArrayItem groupConfig i).bind json.getStringValue
  match api.getSandboxSection nameGroupsQueue name with
  | none => (groups.1, inside)
  | some mountNode =>
    if s.name = "system-const" ∧ mountNode.destType ≠ some .systemConst then (groups.1, inside)
    else if some mountNode.id ∈ s.nameGroups then (groups.1, inside)
    else (groups.1 ++ [some mountNode.id], inside && decide (groups.1.length < count))

/-- What the loop does for all items and for as many indexes past the end as there were old
entries. -/
def mergeMountGroups (nameGroupsQueue : List SandboxSection) (groupConfig : J)
    (s : SandboxSection) : List (Option Nat) × Bool :=
  let count := json.getArraySize groupConfig + s.nameGroups.length
  (List.range count).foldl (mountGroupsStep json api nameGroupsQueue groupConfig s count)
    (s.nameGroups.filter (·.isSome), true)

/-- `ParseMountGroupsConfig` -/
def parseMountGroupsConfig (nameGroupsQueue : List SandboxSection) (groupConfig : J)
    (s : SandboxSection) (mem : Memory) : Ret × SandboxSection :=
  if !json.isArray groupConfig then (.sandboxInvalid, s)
  else if json.getArraySize groupConfig = 0 then (.ok, s)
  else if mem .nameGroups then
    (.ok, { s with nameGroups := (mergeMountGroups json api nameGroupsQueue groupConfig s).1 })
  else (.systemError, s)

/-! ## The whole section -/

/-- A part of the configuration that is parsed when it is there. -/
def parseItem (config : J) (key : String) (parse : J → SandboxSection → Ret × SandboxSection)
    (s : SandboxSection) : Ret × SandboxSection :=
  match json.getObjectItemCaseSensitive config key with
  | none => (.ok, s)
  | some item => parse item s

/-- What comes next, when there was no error. -/
def andThen {σ : Type} (r : Ret × σ) (next : σ → Ret × σ) : Ret × σ :=
  match r with
  | (.ok, s) => next s
  | r => r

/-- `ParseBaseConfig` -/
def parseBaseConfig (nameGroupsQueue : List SandboxSection) (s : SandboxSection) (configs : J)
    (mem : Memory) : Ret × SandboxSection :=
  if json.isObject configs then
    let s :=
      { s with
        sandboxSwitch := json.getBoolValueFromJsonObj configs "sandbox-switch" true
        sandboxShared := json.getBoolValueFromJsonObj configs "sandbox-shared" false }
    andThen (parseItem json configs "gids"
      (fun gids s => parseGidTableConfig json api gids s mem) s) fun s =>
    andThen (parseItem json configs "mount-paths"
      (fun paths s => parseMountPathsConfig json api paths s .mountPath mem) s) fun s =>
    andThen (parseItem json configs "mount-files"
      (fun paths s => parseMountPathsConfig json api paths s .mountFile mem) s) fun s =>
    andThen (parseItem json configs "symbol-links"
      (fun links s => parseSymbolLinksConfig json api links s mem) s) fun s =>
    parseItem json configs "mount-groups"
      (fun groups s => parseMountGroupsConfig json api nameGroupsQueue groups s mem) s
  else (.sandboxInvalid, s)

/-! ## What is accepted -/

variable {json api}
variable {config : J} {key : String} {s s' : SandboxSection} {mem : Memory}
  {queue : List SandboxSection} {r : Ret × SandboxSection}
  {parse : J → SandboxSection → Ret × SandboxSection}
  {next : SandboxSection → Ret × SandboxSection} {type : SandboxTag}

theorem andThen_ok_iff {σ : Type} {r : Ret × σ} {next : σ → Ret × σ} :
    (andThen r next).1 = .ok ↔ r.1 = .ok ∧ (next r.2).1 = .ok := by
  obtain ⟨ret, s⟩ := r
  cases ret <;> simp [andThen]

theorem andThen_eq_ok {σ : Type} {r : Ret × σ} {next : σ → Ret × σ} {t : σ}
    (h : andThen r next = (.ok, t)) : r.1 = .ok ∧ next r.2 = (.ok, t) := by
  obtain ⟨ret, s⟩ := r
  cases ret
  case ok => exact ⟨rfl, h⟩
  all_goals cases (Prod.mk.inj h).1

theorem parseItem_ok_iff : (parseItem json config key parse s).1 = .ok ↔
    ∀ item, json.getObjectItemCaseSensitive config key = some item → (parse item s).1 = .ok := by
  unfold parseItem
  cases hitem : json.getObjectItemCaseSensitive config key with
  | none => simp
  | some item => simp

/-- A symbol link has its two strings, and memory for its node. -/
def LinkAccepted (json : CJson J) (mem : Memory) (link : J × Nat) : Prop :=
  (json.getStringFromJsonObj link.1 "target-name").isSome ∧
    (json.getStringFromJsonObj link.1 "link-name").isSome ∧ mem (.symbolLink link.2) = true

/-- What `ParseBaseConfig` returns 0 for. -/
structure BaseAccepted (json : CJson J) (config : J) (mem : Memory) : Prop where
  isObject : json.isObject config = true
  gids : ∀ item, json.getObjectItemCaseSensitive config "gids" = some item →
    json.isArray item = true → json.children item ≠ [] → mem .gidTable = true
  mountPaths : ∀ item, json.getObjectItemCaseSensitive config "mount-paths" = some item →
    json.isArray item = true
  mountFiles : ∀ item, json.getObjectItemCaseSensitive config "mount-files" = some item →
    json.isArray item = true
  symbolLinks : ∀ item, json.getObjectItemCaseSensitive config "symbol-links" = some item →
    json.isArray item = true ∧ ∀ link ∈ (json.children item).zipIdx, LinkAccepted json mem link
  mountGroups : ∀ item, json.getObjectItemCaseSensitive config "mount-groups" = some item →
    json.isArray item = true ∧ (json.children item ≠ [] → mem .nameGroups = true)

theorem parseGidTableConfig_ok_iff : (parseGidTableConfig json api config s mem).1 = .ok ↔
    (json.isArray config = true → json.children config ≠ [] → mem .gidTable = true) := by
  unfold parseGidTableConfig
  by_cases harray : json.isArray config = true
  · by_cases hempty : json.children config = []
    · simp [harray, hempty]
    · by_cases hmem : mem .gidTable = true <;> simp [harray, hempty, hmem]
  · simp [harray]

theorem parseMountPathsConfig_ok_iff :
    (parseMountPathsConfig json api config s type mem).1 = .ok ↔ json.isArray config = true := by
  unfold parseMountPathsConfig
  by_cases harray : json.isArray config = true <;> simp [harray]

theorem decodeSymbolLinksConfig_isSome {front : List MountNode} {link : J × Nat} :
    (decodeSymbolLinksConfig json api front link.1 (mem (.symbolLink link.2))).2.isSome ↔
      LinkAccepted json mem link := by
  unfold decodeSymbolLinksConfig LinkAccepted
  cases json.getStringFromJsonObj link.1 "target-name" with
  | none => simp
  | some target =>
    cases json.getStringFromJsonObj link.1 "link-name" with
    | none => simp
    | some linkName => by_cases hmem : mem (.symbolLink link.2) = true <;> simp [hmem]

theorem parseSymbolLinks_ok_iff {links : List (J × Nat)} :
    (parseSymbolLinks json api mem links s).1 = .ok ↔ ∀ link ∈ links, LinkAccepted json mem link := by
  induction links generalizing s with
  | nil => simp [parseSymbolLinks]
  | cons link links ih =>
    have hsome : (decodeSymbolLinksConfig json api s.front link.1
        (mem (.symbolLink link.2))).2.isSome ↔ LinkAccepted json mem link :=
      decodeSymbolLinksConfig_isSome
    rw [parseSymbolLinks, List.forall_mem_cons, ← hsome]
    split
    case h_1 front node heq => simp [heq, ih]
    case h_2 front heq => simp [heq]

theorem parseSymbolLinksConfig_ok_iff : (parseSymbolLinksConfig json api config s mem).1 = .ok ↔
    json.isArray config = true ∧
      ∀ link ∈ (json.children config).zipIdx, LinkAccepted json mem link := by
  unfold parseSymbolLinksConfig
  by_cases harray : json.isArray config = true
  · rw [if_pos harray, parseSymbolLinks_ok_iff]
    simp [harray]
  · simp [harray]

theorem parseMountGroupsConfig_ok_iff :
    (parseMountGroupsConfig json api queue config s mem).1 = .ok ↔
      json.isArray config = true ∧ (json.children config ≠ [] → mem .nameGroups = true) := by
  unfold parseMountGroupsConfig CJson.getArraySize
  by_cases harray : json.isArray config = true
  · by_cases hempty : json.children config = []
    · simp [harray, hempty]
    · by_cases hmem : mem .nameGroups = true <;> simp [harray, hempty, hmem]
  · simp [harray]

/-- **When a section is accepted**, whatever has been loaded before. -/
theorem parseBaseConfig_ok_iff :
    (parseBaseConfig json api queue s config mem).1 = .ok ↔ BaseAccepted json config mem := by
  unfold parseBaseConfig
  by_cases hobject : json.isObject config = true
  · rw [if_pos hobject]
    simp only [andThen_ok_iff, parseItem_ok_iff, parseGidTableConfig_ok_iff,
      parseMountPathsConfig_ok_iff, parseSymbolLinksConfig_ok_iff, parseMountGroupsConfig_ok_iff]
    constructor
    · rintro ⟨hgids, hpaths, hfiles, hlinks, hgroups⟩
      exact ⟨hobject, hgids, hpaths, hfiles, hlinks, hgroups⟩
    · intro h
      exact ⟨h.gids, h.mountPaths, h.mountFiles, h.symbolLinks, h.mountGroups⟩
  · rw [if_neg hobject]
    constructor
    · intro h
      cases h
    · intro h
      exact absurd h.isObject hobject

/-! ## What parsing keeps -/

/-- The section is still the same one, with the dependency that it had, and its references are old
ones or to sections of the queue. -/
structure Extends (queue : List SandboxSection) (s s' : SandboxSection) : Prop where
  id : s'.id = s.id
  name : s'.name = s.name
  depNode : s'.depNode = s.depNode
  refs : ∀ p, some p ∈ s'.nameGroups → some p ∈ s.nameGroups ∨ ∃ g ∈ queue, g.id = p

theorem Extends.refl (queue : List SandboxSection) (s : SandboxSection) : Extends queue s s :=
  ⟨rfl, rfl, rfl, fun _ hp => Or.inl hp⟩

theorem Extends.trans {s'' : SandboxSection} (h : Extends queue s s') (h' : Extends queue s' s'') :
    Extends queue s s'' where
  id := h'.id.trans h.id
  name := h'.name.trans h.name
  depNode := h'.depNode.trans h.depNode
  refs := by
    intro p hp
    rcases h'.refs p hp with hp | hg
    · exact h.refs p hp
    · exact Or.inr hg

/-- A change of the other fields. -/
theorem Extends.of_fields (hid : s'.id = s.id) (hname : s'.name = s.name)
    (hdepNode : s'.depNode = s.depNode) (hrefs : s'.nameGroups = s.nameGroups) :
    Extends queue s s' :=
  ⟨hid, hname, hdepNode, fun _ hp => Or.inl (hrefs ▸ hp)⟩

theorem andThen_extends (hr : Extends queue s r.2) (hnext : Extends queue r.2 (next r.2).2) :
    Extends queue s (andThen r next).2 := by
  obtain ⟨ret, t⟩ := r
  unfold andThen
  split
  · next hr' =>
    obtain ⟨rfl, rfl⟩ := Prod.mk.inj hr'
    exact hr.trans hnext
  · exact hr

theorem parseItem_extends (h : ∀ item, Extends queue s (parse item s).2) :
    Extends queue s (parseItem json config key parse s).2 := by
  unfold parseItem
  split
  · exact Extends.refl queue s
  · exact h _

theorem parseGidTableConfig_extends :
    Extends queue s (parseGidTableConfig json api config s mem).2 := by
  unfold parseGidTableConfig
  split_ifs <;> exact Extends.of_fields rfl rfl rfl rfl

theorem parseMountPath_extends {item : J × Nat} :
    Extends queue s (parseMountPath json api type mem s item) := by
  unfold parseMountPath
  split <;> exact Extends.of_fields rfl rfl rfl rfl

theorem parseMountPathsConfig_extends :
    Extends queue s (parseMountPathsConfig json api config s type mem).2 := by
  unfold parseMountPathsConfig
  split_ifs
  · dsimp only
    -- by induction on the items, each of which changes the list of mounts only
    generalize (json.children config).zipIdx = items
    induction items generalizing s with
    | nil => exact Extends.refl queue s
    | cons item items ih => exact parseMountPath_extends.trans ih
  · exact Extends.refl queue s

theorem parseSymbolLinks_extends {links : List (J × Nat)} :
    Extends queue s (parseSymbolLinks json api mem links s).2 := by
  induction links generalizing s with
  | nil => exact Extends.refl queue s
  | cons link links ih =>
    rw [parseSymbolLinks]
    split
    case h_1 front node heq =>
      have hadd : Extends queue s
          { s with front := api.addSandboxMountNode (.symbolLink node) front } :=
        Extends.of_fields rfl rfl rfl rfl
      exact hadd.trans ih
    case h_2 front heq => exact Extends.of_fields rfl rfl rfl rfl

theorem parseSymbolLinksConfig_extends :
    Extends queue s (parseSymbolLinksConfig json api config s mem).2 := by
  unfold parseSymbolLinksConfig
  split_ifs
  · exact parseSymbolLinks_extends
  · exact Extends.refl queue s

/-- The entries of the new array are old ones or have been found in the queue. -/
theorem mem_mergeMountGroups {e : Option Nat}
    (h : e ∈ (mergeMountGroups json api queue config s).1) :
    e ∈ s.nameGroups ∨ ∃ g ∈ queue, some g.id = e := by
  unfold mergeMountGroups at h
  dsimp only at h
  generalize json.getArraySize config + s.nameGroups.length = count at h
  generalize List.range count = indexes at h
  -- the invariant of the loop: the entries so far are old or found
  have hstart : ∀ e ∈ s.nameGroups.filter (·.isSome),
      e ∈ s.nameGroups ∨ ∃ g ∈ queue, some g.id = e :=
    fun e he => Or.inl (List.mem_of_mem_filter he)
  generalize s.nameGroups.filter (·.isSome) = groups, true = inside at h hstart
  induction indexes generalizing groups inside with
  | nil => exact hstart e h
  | cons i indexes ih =>
    rw [List.foldl_cons] at h
    refine ih _ _ h ?_
    intro e he
    split at he
    · exact hstart e he
    · next g hg =>
      split_ifs at he
      · exact hstart e he
      · exact hstart e he
      · rcases List.mem_append.mp he with he | he
        · exact hstart e he
        · exact Or.inr ⟨g, (api.getSandboxSection_some hg).1, (List.mem_singleton.mp he).symm⟩

theorem parseMountGroupsConfig_extends :
    Extends queue s (parseMountGroupsConfig json api queue config s mem).2 := by
  unfold parseMountGroupsConfig
  split_ifs
  · exact Extends.refl queue s
  · exact Extends.refl queue s
  · refine ⟨rfl, rfl, rfl, ?_⟩
    intro p hp
    rcases mem_mergeMountGroups hp with hp | ⟨g, hg, hid⟩
    · exact Or.inl hp
    · exact Or.inr ⟨g, hg, Option.some.inj hid⟩
  · exact Extends.refl queue s

/-- **What parsing a section changes**, accepted or not. -/
theorem parseBaseConfig_extends :
    Extends queue s (parseBaseConfig json api queue s config mem).2 := by
  unfold parseBaseConfig
  split_ifs
  · have hswitches : Extends queue s
        { s with
          sandboxSwitch := json.getBoolValueFromJsonObj config "sandbox-switch" true
          sandboxShared := json.getBoolValueFromJsonObj config "sandbox-shared" false } :=
      Extends.of_fields rfl rfl rfl rfl
    refine hswitches.trans ?_
    refine andThen_extends (parseItem_extends fun _ => parseGidTableConfig_extends) ?_
    refine andThen_extends (parseItem_extends fun _ => parseMountPathsConfig_extends) ?_
    refine andThen_extends (parseItem_extends fun _ => parseMountPathsConfig_extends) ?_
    refine andThen_extends (parseItem_extends fun _ => parseSymbolLinksConfig_extends) ?_
    exact parseItem_extends fun _ => parseMountGroupsConfig_extends
  · exact Extends.refl queue s

end Sandbox
