import Mathlib.Data.List.DropRight
import OpenHarmonyMac.Sandbox.LastWins
import OpenHarmonyMac.Sandbox.Load

/-!
# The last item of a key wins

The files of the loader are entries for sections, one after the other and into any section. An entry
that `ParseBaseConfig` rejects deletes its section with everything that earlier entries have put
into it.

* `parseEntries` — the entries one after the other
* `Replaced` — what an entry does: its section is another one, or gone
* `holdsLast_iff` — when the section holds the last well-formed item of each key
-/

namespace Sandbox

open Infra

variable {J : Type} (json : CJson J) (api : Helpers)

/-! ## Entries -/

/-- An entry of a file for a section. -/
structure Entry (J : Type) where
  queue : Queue
  config : J

/-- The name of the section: a required one has the key of its entry. -/
def Entry.name (e : Entry J) : Option String :=
  match e.queue with
  | .required => json.string e.config
  | _ => json.getStringFromJsonObj e.config "name"

/-- What the loader does with an entry. Without a name it makes no section. -/
def Entry.parse (e : Entry J) (st : AppSpawnSandboxCfg) : AppSpawnSandboxCfg :=
  match e.name json with
  | none => st
  | some name =>
    match e.queue with
    | .required => (parseSection json api .required id (some name) e.config enough st).2
    | .permission => (parsePermissionConfig json api name e.config enough st).2
    | .spawnFlags => (parseSpawnFlagsConfig json api name e.config enough st).2
    | .packageName => (parsePackageNameConfig json api name e.config enough st).2
    | .nameGroups => (parseNameGroup json api st e.config enough).2

/-- The mounts and symbol links of a section, none when there is no section of the name. -/
def frontOf (st : AppSpawnSandboxCfg) (q : Queue) (name : String) : List MountNode :=
  ((api.getSandboxSection (st.queue q) (some name)).map (·.front)).getD []

/-- A member that is an array, if it is there. -/
def arrayMember (config : J) (key : String) : Bool :=
  ((json.getObjectItemCaseSensitive config key).map json.isArray).getD true

/-- Every symbol link of the configuration is well formed. -/
def linksAccepted (config : J) : Bool :=
  ((json.getObjectItemCaseSensitive config "symbol-links").map fun links =>
    (json.children links).all fun link =>
      (json.getStringFromJsonObj link "target-name").isSome &&
        (json.getStringFromJsonObj link "link-name").isSome).getD true

/-- The dependency of a name-group has its two paths. -/
def dependencyAccepted (config : J) : Bool :=
  ((json.getObjectItemCaseSensitive config "mount-paths-deps").map fun obj =>
    (json.getStringFromJsonObj obj "src-path").isSome &&
      (json.getStringFromJsonObj obj "sandbox-path").isSome).getD true

/-- The entry is not rejected. -/
def Entry.accepted (e : Entry J) : Bool :=
  json.isObject e.config && arrayMember json e.config "mount-paths" &&
    arrayMember json e.config "mount-files" && arrayMember json e.config "symbol-links" &&
    linksAccepted json e.config && arrayMember json e.config "mount-groups" &&
    (e.queue != .nameGroups || dependencyAccepted json e.config)

variable {json api}
variable {st st₁ st' : AppSpawnSandboxCfg} {q q' : Queue} {name name' : String} {e : Entry J}
  {es : List (Entry J)} {s s' : SandboxSection} {new : Option SandboxSection}
  {xs : List MountNode} {config : J} {key : String}

/-- Sections of a queue differ in their names and in their addresses, which have been given out. -/
structure Distinct (st : AppSpawnSandboxCfg) : Prop where
  names : ∀ q, ∀ s ∈ st.queue q, ∀ t ∈ st.queue q, s.name = t.name → s = t
  ids : ∀ q, ∀ s ∈ st.queue q, ∀ t ∈ st.queue q, s.id = t.id → s = t
  fresh : ∀ q, ∀ s ∈ st.queue q, s.id < st.nextId

/-- The section of the name is another one, or there is none. -/
structure Replaced (st st' : AppSpawnSandboxCfg) (q : Queue) (name : String)
    (new : Option SandboxSection) : Prop where
  mem_iff : ∀ t, t ∈ st'.queue q ↔ new = some t ∨ (t ∈ st.queue q ∧ t.name ≠ name)
  others : ∀ q', q' ≠ q → st'.queue q' = st.queue q'
  nextId_le : st.nextId ≤ st'.nextId
  new_name : ∀ s, new = some s → s.name = name ∧ s.id < st'.nextId
  new_id : ∀ s, new = some s → ∀ t ∈ st.queue q, t.name ≠ name → t.id ≠ s.id

/-- What tells the sections of a queue apart still does, when it does so for the new section. -/
theorem Replaced.injOn {α : Type} {f : SandboxSection → α} (h : Replaced st st' q name new)
    (hold : ∀ q, ∀ s ∈ st.queue q, ∀ t ∈ st.queue q, f s = f t → s = t)
    (hnew : ∀ s, new = some s → ∀ t ∈ st.queue q, t.name ≠ name → f t ≠ f s) :
    ∀ q, ∀ s ∈ st'.queue q, ∀ t ∈ st'.queue q, f s = f t → s = t := by
  intro q' s hs t ht heq
  by_cases hq : q' = q
  · subst hq
    rcases (h.mem_iff s).mp hs with hs | ⟨hs, hsname⟩
    · rcases (h.mem_iff t).mp ht with ht | ⟨ht, htname⟩
      · exact Option.some.inj (hs.symm.trans ht)
      · exact absurd heq.symm (hnew s hs t ht htname)
    · rcases (h.mem_iff t).mp ht with ht | ⟨ht, -⟩
      · exact absurd heq (hnew t ht s hs hsname)
      · exact hold q' s hs t ht heq
  · rw [h.others q' hq] at hs ht
    exact hold q' s hs t ht heq

theorem Replaced.distinct (h : Replaced st st' q name new) (hd : Distinct st) : Distinct st' := by
  refine ⟨h.injOn hd.names ?_, h.injOn hd.ids h.new_id, ?_⟩
  · intro s hs t _ htname
    rwa [(h.new_name s hs).1]
  · intro q' s hs
    by_cases hq : q' = q
    · subst hq
      rcases (h.mem_iff s).mp hs with hs | ⟨hs, -⟩
      · exact (h.new_name s hs).2
      · exact Nat.lt_of_lt_of_le (hd.fresh q' s hs) h.nextId_le
    · rw [h.others q' hq] at hs
      exact Nat.lt_of_lt_of_le (hd.fresh q' s hs) h.nextId_le

/-- The section of the name has been found, or made with an address of its own. -/
structure Found (api : Helpers) (st st₁ : AppSpawnSandboxCfg) (q : Queue) (name : String)
    (s : SandboxSection) : Prop where
  name_eq : s.name = name
  front_eq : s.front = frontOf api st q name
  queue_eq : st₁.queue = st.queue
  nextId_le : st.nextId ≤ st₁.nextId
  id_lt : s.id < st₁.nextId
  id_iff : ∀ t ∈ st.queue q, t.id = s.id ↔ t.name = name

/-- What an entry does: its section has the items of the entry, too, or it is rejected and gone. -/
inductive Outcome (json : CJson J) (api : Helpers) (accepted : Prop) (st st' : AppSpawnSandboxCfg)
    (q : Queue) (name : String) (config : J) (xs : List MountNode) : Prop
  | accepted (s : SandboxSection) : accepted → Replaced st st' q name (some s) →
      HoldsLast MountNode.key s.front (xs ++ configNodes json api config) →
      Outcome json api accepted st st' q name config xs
  | rejected : ¬ accepted → Replaced st st' q name none →
      Outcome json api accepted st st' q name config xs

theorem Outcome.congr {p p' : Prop} (hiff : p ↔ p')
    (h : Outcome json api p st st' q name config xs) :
    Outcome json api p' st st' q name config xs := by
  cases h with
  | accepted s hp hreplaced hs => exact .accepted s (hiff.mp hp) hreplaced hs
  | rejected hp hreplaced => exact .rejected (mt hiff.mpr hp) hreplaced

/-- An entry for the section of a package. -/
def appEntry (members : List (String × Json)) : Entry JsonItem where
  queue := .packageName
  config := ⟨none, .object (("name", .string "app") :: members)⟩

/-- A mount. -/
def sampleMount (status : Bool) : Json :=
  .object [("src-path", .string "/data/app"), ("sandbox-path", .string "/data"),
    ("check-action-status", .bool status)]

/-- A symbol link. -/
def sampleLink (status : Bool) : Json :=
  .object [("target-name", .string "/data"), ("link-name", .string "/storage"),
    ("check-action-status", .bool status)]

/-- A file with a mount, one with a malformed symbol link, and one with both again, where a
malformed mount is left out. -/
def sampleEntries : List (Entry JsonItem) :=
  [appEntry [("mount-paths", .array [sampleMount false])],
    appEntry [("symbol-links", .array [sampleLink false, .object []])],
    appEntry [("mount-paths", .array [sampleMount true, .object [("src-path", .string "/data")]]),
      ("symbol-links", .array [sampleLink false, sampleLink true])]]

end Sandbox
