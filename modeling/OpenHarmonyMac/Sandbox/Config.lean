import Mathlib.Data.List.Perm.Basic
import Mathlib.Tactic.SplitIfs

/-!
# The sandbox configuration

The loader reads JSON files into queues of sections. A section carries what is to be mounted for it
and pointers to name-groups, which are sections of a queue of their own.

* `CJson` — what is used of the JSON library
* `Helpers` — what is used of the queues and of the other helpers
* `SandboxSection`, `AppSpawnSandboxCfg` — the data
-/

namespace Sandbox

/-! ## JSON -/

/-- What is used of cJSON and `json_utils.h`. The children of a value are the items of an array or
the members of an object. -/
structure CJson (J : Type) where
  children : J → List J
  /-- The key of a member, `none` for NULL. -/
  string : J → Option String
  isArray : J → Bool
  isObject : J → Bool
  isNumber : J → Bool
  getNumberValue : J → Int
  getStringValue : J → Option String
  getObjectItemCaseSensitive : J → String → Option J
  getStringFromJsonObj : J → String → Option String
  getBoolValueFromJsonObj : J → String → Bool → Bool
  getIntValueFromJsonObj : J → String → Int → Int

variable {J : Type}

/-- `cJSON_GetArraySize` -/
def CJson.getArraySize (json : CJson J) (obj : J) : Nat := (json.children obj).length

/-- `cJSON_GetArrayItem`, NULL past the end. -/
def CJson.getArrayItem (json : CJson J) (obj : J) (i : Nat) : Option J := (json.children obj)[i]?

/-! ## Sections -/

/-- `SANDBOX_TAG_*` -/
inductive SandboxTag
  | mountPath
  | mountFile
  | systemConst
  | appVariable
  | invalid
  deriving DecidableEq

/-- `MOUNT_MODE_*` -/
inductive MountMode
  | notExist
  | always
  deriving DecidableEq

/-- The flags of `FLAGE_POINT_MAP` -/
inductive FlagPoint
  | zero
  | backupExtension
  | dlpManager
  | developerMode
  deriving DecidableEq

/-- `PathDemandInfo` -/
structure PathDemandInfo where
  uid : Int
  gid : Int
  mode : Int
  deriving DecidableEq

/-- `PathMountNode`. The demand info is there just in case `createDemand` is set. -/
structure PathMountNode where
  type : SandboxTag
  source : String
  target : String
  destMode : Nat
  mountSharedFlag : Bool
  checkErrorFlag : Bool
  category : Nat
  appAplName : Option String
  demandInfo : Option PathDemandInfo
  deriving DecidableEq

/-- `SymbolLinkNode` -/
structure SymbolLinkNode where
  target : String
  linkName : String
  destMode : Nat
  checkErrorFlag : Bool
  deriving DecidableEq

/-- What is in the list of a section. -/
inductive MountNode
  | path (node : PathMountNode)
  | symbolLink (node : SymbolLinkNode)
  deriving DecidableEq

/-- `SandboxSection` with the fields of the records that begin with one: those of a name-group, and
the flag index of a spawn flag. The address `id` stands for the pointer. `nameGroups` is the array as
far as `number`. -/
structure SandboxSection where
  id : Nat
  name : String
  sandboxSwitch : Bool
  sandboxShared : Bool
  gidTable : List (BitVec 32)
  front : List MountNode
  nameGroups : List (Option Nat)
  depNode : Option PathMountNode
  depMode : Option MountMode
  destType : Option SandboxTag
  flagIndex : FlagPoint
  deriving DecidableEq

/-- What `CreateSandboxSection` returns when there is memory. -/
def SandboxSection.create (id : Nat) (name : String) : SandboxSection where
  id := id
  name := name
  sandboxSwitch := false
  sandboxShared := false
  gidTable := []
  front := []
  nameGroups := []
  depNode := none
  depMode := none
  destType := none
  flagIndex := .zero

/-- The queues of the configuration. -/
inductive Queue
  | required
  | permission
  | spawnFlags
  | packageName
  | nameGroups
  deriving DecidableEq

/-- `AppSpawnSandboxCfg`. `nextId` is the address of the next section: no address is used twice. -/
structure AppSpawnSandboxCfg where
  queue : Queue → List SandboxSection
  nextId : Nat
  rootPath : Option String
  sandboxNsFlags : BitVec 32
  topSandboxSwitch : Bool
  pidNamespaceSupport : Bool
  appFullMountEnable : Bool
  depNodeCount : Nat
  depGroupNodes : Option (List (Option Nat))

/-- A configuration before anything is loaded. -/
def AppSpawnSandboxCfg.init : AppSpawnSandboxCfg where
  queue _ := []
  nextId := 0
  rootPath := none
  sandboxNsFlags := 0
  topSandboxSwitch := false
  pidNamespaceSupport := false
  appFullMountEnable := false
  depNodeCount := 0
  depGroupNodes := none

/-- What the functions return: 0, -1 or an error of `appspawn`. -/
inductive Ret
  | ok
  | minusOne
  | sandboxInvalid
  | systemError
  deriving DecidableEq

/-! ## Helpers -/

/-- The functions of `appspawn_sandbox.h` and of the other headers. A section is found by its name,
and a new one is put somewhere into its queue. -/
structure Helpers where
  getSandboxSection : List SandboxSection → Option String → Option SandboxSection
  getSandboxSection_some : ∀ {queue name s}, getSandboxSection queue name = some s →
    s ∈ queue ∧ name = some s.name
  getSandboxSection_none : ∀ {queue name}, getSandboxSection queue (some name) = none →
    ∀ s ∈ queue, s.name ≠ name
  addSandboxSection : SandboxSection → List SandboxSection → List SandboxSection
  addSandboxSection_perm : ∀ s queue, (addSandboxSection s queue).Perm (s :: queue)
  addSandboxMountNode : MountNode → List MountNode → List MountNode
  getPathMountNode : List MountNode → SandboxTag → String → String → Option PathMountNode
  getSymbolLinkNode : List MountNode → String → String → Option SymbolLinkNode
  getSandboxFlagInfo : {α : Type} → Option String → List (String × α) → Option α
  getMountCategory : Option String → Nat
  getPathMode : String → Nat
  stringSplit : String → String → List String
  decodeGid : Option String → BitVec 32
  appMaxGids : Nat
  /-- `GetParameter`, `none` for a result that is not positive. -/
  getParameter : String → Option String
  /-- What `ParseJsonConfig` returns when the calls for the files have returned these, `none` for
  `APPSPAWN_SANDBOX_NONE`. -/
  parseJsonConfig : List Ret → Option Ret
  parseJsonConfig_ok : ∀ {rets}, parseJsonConfig rets = some .ok → ∀ ret ∈ rets, ret = .ok
  parseJsonConfig_none : ∀ {rets}, parseJsonConfig rets = none → rets = []

/-- The places where the parsing of a section asks for memory. At `section` it is
`CreateSandboxSection` that returns a section or NULL. -/
inductive Site
  | section
  | gidTable
  | path (type : SandboxTag) (i : Nat)
  | aplName (type : SandboxTag) (i : Nat)
  | symbolLink (i : Nat)
  | nameGroups
  | depNode
  | depAplName

/-- Which of them get it. -/
abbrev Memory := Site → Bool

/-- A configuration file, and the memory for its root path and for the sections of each part. -/
structure File (J : Type) where
  root : J
  rootPathMemory : Bool
  memory : Queue → Nat → Memory

/-! ## An instance -/

/-- JSON values, with integers for numbers. -/
inductive Json
  | null
  | bool (value : Bool)
  | number (value : Int)
  | string (value : String)
  | array (items : List Json)
  | object (members : List (String × Json))

/-- A value with its key, if it is a member. -/
structure JsonItem where
  key : Option String
  value : Json

namespace JsonItem

def children (item : JsonItem) : List JsonItem :=
  match item.value with
  | .array items => items.map (JsonItem.mk none)
  | .object members => members.map fun member => ⟨some member.1, member.2⟩
  | _ => []

def member (item : JsonItem) (key : String) : Option JsonItem :=
  match item.value with
  | .object members =>
    (members.find? (·.1 == key)).map fun member => ⟨some member.1, member.2⟩
  | _ => none

def stringValue (item : JsonItem) : Option String :=
  match item.value with
  | .string value => some value
  | _ => none

def numberValue (item : JsonItem) : Option Int :=
  match item.value with
  | .number value => some value
  | _ => none

def boolValue (item : JsonItem) : Option Bool :=
  match item.value with
  | .bool value => some value
  | _ => none

end JsonItem

/-- A file with enough memory. -/
def Json.file (members : List (String × Json)) : File JsonItem where
  root := ⟨none, .object members⟩
  rootPathMemory := true
  memory _ _ _ := true

/-- The library on these values. -/
def cJson : CJson JsonItem where
  children := JsonItem.children
  string := JsonItem.key
  isArray item := match item.value with
    | .array _ => true
    | _ => false
  isObject item := match item.value with
    | .object _ => true
    | _ => false
  isNumber item := item.numberValue.isSome
  getNumberValue item := item.numberValue.getD 0
  getStringValue := JsonItem.stringValue
  getObjectItemCaseSensitive := JsonItem.member
  getStringFromJsonObj item key := (item.member key).bind JsonItem.stringValue
  getBoolValueFromJsonObj item key default := ((item.member key).bind JsonItem.boolValue).getD default
  getIntValueFromJsonObj item key default := ((item.member key).bind JsonItem.numberValue).getD default

/-- Queues in the order of insertion, without flags, gids and parameters. -/
def helpers : Helpers where
  getSandboxSection queue name := name.bind fun name => queue.find? (·.name == name)
  getSandboxSection_some := by
    intro queue name s h
    obtain ⟨key, rfl, hfind⟩ := Option.bind_eq_some_iff.mp h
    have hname := List.find?_some hfind
    exact ⟨List.mem_of_find?_eq_some hfind, congrArg some (beq_iff_eq.mp hname).symm⟩
  getSandboxSection_none := by
    intro queue name h s hs heq
    exact List.find?_eq_none.mp h s hs (beq_iff_eq.mpr heq)
  addSandboxSection s queue := queue ++ [s]
  addSandboxSection_perm s queue := List.perm_append_singleton s queue
  addSandboxMountNode node nodes := nodes ++ [node]
  getPathMountNode nodes type source target := nodes.findSome? fun
    | .path node =>
      if node.type = type ∧ node.source = source ∧ node.target = target then some node else none
    | _ => none
  getSymbolLinkNode nodes target linkName := nodes.findSome? fun
    | .symbolLink node =>
      if node.target = target ∧ node.linkName = linkName then some node else none
    | _ => none
  getSandboxFlagInfo key map := key.bind fun key => (map.find? (·.1 == key)).map (·.2)
  getMountCategory _ := 0
  getPathMode _ := 0
  stringSplit str _ := [str]
  decodeGid _ := 0
  appMaxGids := 64
  getParameter _ := none
  parseJsonConfig rets :=
    if rets = [] then none else some (if ∀ ret ∈ rets, ret = .ok then .ok else .minusOne)
  parseJsonConfig_ok := by
    intro rets h
    by_contra hne
    by_cases hnil : rets = [] <;> simp_all
  parseJsonConfig_none := by
    intro rets h
    by_contra hne
    rw [if_neg hne] at h
    cases h

end Sandbox
