import OpenHarmonyMac.Infra.CString
import OpenHarmonyMac.Infra.Keyed
import OpenHarmonyMac.Infra.Transition

/-!
# The module manager of init

A module is stored under the name that it was installed by, which is a bare name or a full path
without the suffix. A name that is looked for is compared with the canonical names of the stored
ones. What the allocator, the file system and the linker answer is part of the event.

* `canonicalName` — what `ModuleCompare` makes of a stored name
* `modules` — the calls on one manager
* `unique_iff` — when the list has one item at most for each canonical name
-/

namespace ModuleMgr

open Infra

/-- `PATH_MAX` -/
def pathMax : Nat := 4096

/-- `MODULE_SUFFIX_D` -/
def moduleSuffixD : List Char := ".z.so".toList

/-- `MODULE_ITEM`. The handle is what `dlopen` has returned. -/
structure ModuleItem where
  name : List Char
  handle : Nat
  deriving DecidableEq, Repr

/-- `MODULE_MGR` -/
structure Manager where
  modules : List ModuleItem := []
  name : List Char
  installArgs : List (List Char) := []
  deriving DecidableEq, Repr

/-- What a call of `ModuleMgrInstall` meets. -/
structure Env where
  inUpdaterMode : Bool
  /-- `MODULE_LIB_NAME` -/
  moduleLibName : List Char
  malloc : Bool
  strdup : Bool
  getRealPath : List Char → Option (List Char)
  dlopen : List Char → Option Nat

/-! ## Names -/

/-- `strrchr(name, '/') + 1` -/
def afterLastSlash (name : List Char) : List Char := (name.reverse.takeWhile (· != '/')).reverse

/-- The name without a leading `lib`. -/
def stripLib (name : List Char) : List Char :=
  if "lib".toList.isPrefixOf name then name.drop 3 else name

/-- What `ModuleCompare` compares with: the directory part of a full path goes, and then one
leading `lib`. -/
def canonicalName (name : List Char) : List Char :=
  stripLib (if name.head? = some '/' then afterLastSlash name else name)

/-- The key of an item. -/
def ModuleItem.canonical (module : ModuleItem) : List Char := canonicalName module.name

/-- `ModuleCompare` returns 0. The name `data` is taken as it is. -/
def moduleCompare (data : List Char) (module : ModuleItem) : Bool :=
  decide (module.canonical = data)

/-- The first result of `StringEndsWith`: where the suffix starts, `none` for -1. -/
def stringEndsWith (srcStr endStr : List Char) : Option Nat :=
  if srcStr.length < endStr.length then none
  else if srcStr.drop (srcStr.length - endStr.length) = endStr then
    some (srcStr.length - endStr.length)
  else none

/-! ## The calls -/

/-- The path that `ModuleInstall` opens. -/
def installPath (env : Env) (mgrName name : List Char) : Option (List Char) :=
  if name.head? = some '/' then
    sprintfS pathMax (name ++ moduleSuffixD)
  else
    let fmt := if env.inUpdaterMode then "/".toList else "/system/".toList
    sprintfS pathMax (fmt ++ env.moduleLibName ++ "/".toList ++ mgrName ++ "/lib".toList ++ name ++
      moduleSuffixD)

/-- `ModuleInstall`: the handle, `none` for a null pointer. -/
def moduleInstall (env : Env) (moduleMgr : Manager) (name : List Char) (argv : List (List Char)) :
    Manager × Option Nat :=
  let moduleMgr := { moduleMgr with installArgs := argv }
  (moduleMgr, (installPath env moduleMgr.name name).bind env.getRealPath |>.bind env.dlopen)

/-- `ModuleMgrInstall` on a manager. -/
def moduleMgrInstall (env : Env) (moduleMgr : Manager) (moduleName : Option (List Char))
    (argv : List (List Char)) : Manager × Int :=
  match moduleName with
  | none => (moduleMgr, -1)
  | some name =>
    match moduleMgr.modules.find? (moduleCompare name) with
    | some _ => (moduleMgr, 0)
    | none =>
      if ¬ env.malloc then (moduleMgr, -1)
      else if ¬ env.strdup then (moduleMgr, -1)
      else
        match moduleInstall env moduleMgr name argv with
        | (moduleMgr, none) => (moduleMgr, -1)
        | (moduleMgr, some handle) =>
          ({ moduleMgr with modules := moduleMgr.modules ++ [{ name, handle }] }, 0)

/-- The types of directory entries that are told apart. -/
inductive DType
  | reg
  | lnk
  | other
  deriving DecidableEq, Repr

/-- `struct dirent` -/
structure Dirent where
  dType : DType
  dName : List Char
  deriving DecidableEq, Repr

/-- The name by which a scan of the directory `path` installs an entry. -/
def scannedName (path : List Char) (file : Dirent) : Option (List Char) :=
  if file.dType ≠ .reg ∧ file.dType ≠ .lnk then none
  else
    match stringEndsWith file.dName moduleSuffixD with
    | none => none
    | some 0 => none
    | some (n + 1) => sprintfS (pathMax - 1) (path ++ "/".toList ++ file.dName.take (n + 1))

/-- What a scan meets: nothing when `opendir` or `calloc` fails, and what each `readdir` returns,
with what the installation of the entry meets then. -/
structure ScanEnv where
  opendir : Bool
  calloc : Bool
  readdir : List (Dirent × Env)

/-- The body of the loop of `ScanModules`. -/
def scanModule (path : List Char) (moduleMgr : Manager) (entry : Dirent × Env) : Manager :=
  match scannedName path entry.1 with
  | none => moduleMgr
  | some moduleName => (moduleMgrInstall entry.2 moduleMgr (some moduleName) []).1

/-- `ScanModules` -/
def scanModules (env : ScanEnv) (moduleMgr : Manager) (path : List Char) : Manager :=
  if ¬ env.opendir then moduleMgr
  else if ¬ env.calloc then moduleMgr
  else env.readdir.foldl (scanModule path) moduleMgr

/-- `ModuleMgrUninstall` on a manager. -/
def moduleMgrUninstall (moduleMgr : Manager) (name : Option (List Char)) : Manager :=
  match name with
  | none => { moduleMgr with modules := [] }
  | some name =>
    match moduleMgr.modules.find? (moduleCompare name) with
    | none => moduleMgr
    | some _ => { moduleMgr with modules := moduleMgr.modules.eraseP (moduleCompare name) }

/-- `ModuleMgrCreate` -/
def moduleMgrCreate (name : List Char) : Manager := { name }

/-- A call on one manager. -/
inductive Call
  | install (env : Env) (moduleName : Option (List Char)) (argv : List (List Char))
  | scan (env : ScanEnv) (path : List Char)
  | uninstall (name : Option (List Char))

/-- What a call leaves behind. -/
def Manager.call (moduleMgr : Manager) : Call → Manager
  | .install env moduleName argv => (moduleMgrInstall env moduleMgr moduleName argv).1
  | .scan env path => scanModules env moduleMgr path
  | .uninstall name => moduleMgrUninstall moduleMgr name

/-- The calls on one manager, in any order. -/
def modules : System Manager Call where
  init moduleMgr := ∃ name, moduleMgr = moduleMgrCreate name
  enabled _ _ := True
  step := Manager.call

/-! ## What the list is for -/

/-- There is one item at most for each canonical name. -/
def Unique (moduleMgr : Manager) : Prop := UniqueKeys ModuleItem.canonical moduleMgr.modules

instance (moduleMgr : Manager) : Decidable (Unique moduleMgr) :=
  inferInstanceAs (Decidable (UniqueKeys ModuleItem.canonical moduleMgr.modules))

/-- There is an item of the canonical name. -/
def Holds (moduleMgr : Manager) (name : List Char) : Prop :=
  ∃ module ∈ moduleMgr.modules, module.canonical = name

instance (moduleMgr : Manager) (name : List Char) : Decidable (Holds moduleMgr name) :=
  inferInstanceAs (Decidable (∃ module ∈ moduleMgr.modules, module.canonical = name))

/-- A call keeps the items unique, and no item is left of what it uninstalls. -/
def Keeps (moduleMgr : Manager) (c : Call) : Prop :=
  Unique (moduleMgr.call c) ∧
    ∀ name, c = .uninstall (some name) → ¬ Holds (moduleMgr.call c) (canonicalName name)

/-! ## The condition -/

/-- The module can be loaded. -/
def Loads (env : Env) (moduleMgr : Manager) (name : List Char) : Prop :=
  env.malloc ∧ env.strdup ∧
    ((installPath env moduleMgr.name name).bind env.getRealPath |>.bind env.dlopen).isSome

/-- A module that can be loaded and that is in the list is found there by the name that is
given. -/
def InstallFinds (env : Env) (moduleMgr : Manager) (name : List Char) : Prop :=
  Loads env moduleMgr name → Holds moduleMgr (canonicalName name) → Holds moduleMgr name

/-- A scan as a run of installations, each of which meets the condition on its name. -/
def scanning (path : List Char) : System Manager (Dirent × Env) where
  init _ := True
  enabled moduleMgr entry := ∀ name ∈ scannedName path entry.1, InstallFinds entry.2 moduleMgr name
  step := scanModule path

/-- The name that a call is given is a canonical one, or none of that canonical name is there. -/
def Canonical (moduleMgr : Manager) : Call → Prop
  | .install env (some name) _ => InstallFinds env moduleMgr name
  | .scan env path =>
    env.opendir = true → env.calloc = true → (scanning path).EnabledAll moduleMgr env.readdir
  | .uninstall (some name) => Holds moduleMgr (canonicalName name) → canonicalName name = name
  | .install _ none _ => True
  | .uninstall none => True

/-! ## The single calls -/

section Calls

variable {env : Env} {moduleMgr : Manager} {name path : List Char} {argv : List (List Char)}
  {entry : Dirent × Env} {entries : List (Dirent × Env)}

theorem moduleCompare_iff {data : List Char} (module : ModuleItem) :
    moduleCompare data module = true ↔ module.canonical = data := decide_eq_true_iff

theorem find_eq_none : moduleMgr.modules.find? (moduleCompare name) = none ↔
    ¬ Holds moduleMgr name := by
  rw [List.find?_eq_none]
  simp only [moduleCompare_iff, Holds, not_exists, not_and]

/-- What `ModuleMgrInstall` can do: nothing, or it adds the module at the end. -/
theorem moduleMgrInstall_cases (env : Env) (moduleMgr : Manager) (name : List Char)
    (argv : List (List Char)) :
    ((Holds moduleMgr name ∨ ¬ Loads env moduleMgr name) ∧
      (moduleMgrInstall env moduleMgr (some name) argv).1.modules = moduleMgr.modules) ∨
    (¬ Holds moduleMgr name ∧ Loads env moduleMgr name ∧ ∃ handle,
      (moduleMgrInstall env moduleMgr (some name) argv).1.modules =
        moduleMgr.modules ++ [ModuleItem.mk name handle]) := by
  cases hfind : moduleMgr.modules.find? (moduleCompare name) with
  | some module =>
    refine Or.inl ⟨Or.inl ?_, by simp only [moduleMgrInstall, hfind]⟩
    by_contra hholds
    rw [find_eq_none.mpr hholds] at hfind
    cases hfind
  | none =>
    have hholds := find_eq_none.mp hfind
    by_cases hmalloc : env.malloc = true
    · by_cases hstrdup : env.strdup = true
      · cases hload : (installPath env moduleMgr.name name).bind env.getRealPath |>.bind
            env.dlopen with
        | none =>
          refine Or.inl ⟨Or.inr fun hloads => ?_, ?_⟩
          · rw [Loads, hload] at hloads
            exact absurd hloads.2.2 (by decide)
          · simp [moduleMgrInstall, hfind, hmalloc, hstrdup, moduleInstall, hload]
        | some handle =>
          refine Or.inr ⟨hholds, ⟨hmalloc, hstrdup, by rw [hload]; rfl⟩, handle, ?_⟩
          simp [moduleMgrInstall, hfind, hmalloc, hstrdup, moduleInstall, hload]
      · exact Or.inl ⟨Or.inr fun hloads => hstrdup hloads.2.1,
          by simp [moduleMgrInstall, hfind, hmalloc, hstrdup]⟩
    · exact Or.inl ⟨Or.inr fun hloads => hmalloc hloads.1,
        by simp [moduleMgrInstall, hfind, hmalloc]⟩

theorem install_keeps_iff (hunique : Unique moduleMgr) :
    Unique (moduleMgrInstall env moduleMgr (some name) argv).1 ↔
      InstallFinds env moduleMgr name := by
  rcases moduleMgrInstall_cases env moduleMgr name argv with
    ⟨hnot, heq⟩ | ⟨hholds, hloads, handle, heq⟩
  · refine iff_of_true (by rwa [Unique, heq]) fun hloads _ => ?_
    exact hnot.resolve_right fun hn => hn hloads
  · rw [Unique, heq, uniqueKeys_concat hunique]
    constructor
    · rintro hnew - ⟨module, hmem, hkey⟩
      exact absurd hkey (hnew module hmem)
    · intro hfinds module hmem hkey
      exact hholds (hfinds hloads ⟨module, hmem, hkey⟩)

/-- What is in the list stays there during a scan. -/
theorem sublist_scanModule : moduleMgr.modules.Sublist (scanModule path moduleMgr entry).modules := by
  unfold scanModule
  cases scannedName path entry.1 with
  | none => exact List.Sublist.refl _
  | some name =>
    rcases moduleMgrInstall_cases entry.2 moduleMgr name [] with ⟨-, heq⟩ | ⟨-, -, handle, heq⟩
    · exact heq ▸ List.Sublist.refl _
    · exact heq ▸ List.sublist_append_left _ _

theorem sublist_scan (entries : List (Dirent × Env)) :
    moduleMgr.modules.Sublist (entries.foldl (scanModule path) moduleMgr).modules := by
  induction entries generalizing moduleMgr with
  | nil => exact List.Sublist.refl _
  | cons entry entries ih => exact sublist_scanModule.trans ih

theorem scanModule_keeps_iff (hunique : Unique moduleMgr) :
    Unique (scanModule path moduleMgr entry) ↔ (scanning path).enabled moduleMgr entry := by
  simp only [scanning]
  unfold scanModule
  cases scannedName path entry.1 with
  | none => exact iff_of_true hunique (by simp)
  | some name => simpa using install_keeps_iff hunique

/-- By induction on the entries. Two items of one canonical name stay until the end of the scan,
so that the end decides. -/
theorem scan_keeps_iff (entries : List (Dirent × Env)) (hunique : Unique moduleMgr) :
    Unique (entries.foldl (scanModule path) moduleMgr) ↔
      (scanning path).EnabledAll moduleMgr entries := by
  induction entries generalizing moduleMgr with
  | nil => exact iff_of_true hunique trivial
  | cons entry entries ih =>
    rw [List.foldl_cons]
    constructor
    · intro hend
      have hnext : Unique (scanModule path moduleMgr entry) := hend.sublist (sublist_scan entries)
      exact ⟨(scanModule_keeps_iff hunique).mp hnext, (ih hnext).mp hend⟩
    · rintro ⟨hentry, hrest⟩
      exact (ih ((scanModule_keeps_iff hunique).mpr hentry)).mpr hrest

theorem moduleMgrUninstall_modules :
    (moduleMgrUninstall moduleMgr (some name)).modules =
      moduleMgr.modules.eraseP (moduleCompare name) := by
  cases hfind : moduleMgr.modules.find? (moduleCompare name) with
  | some module => simp only [moduleMgrUninstall, hfind]
  | none =>
    simp only [moduleMgrUninstall, hfind]
    exact (List.eraseP_of_forall_not (List.find?_eq_none.mp hfind)).symm

theorem unique_uninstall (hunique : Unique moduleMgr) (name : Option (List Char)) :
    Unique (moduleMgrUninstall moduleMgr name) := by
  cases name with
  | none => exact uniqueKeys_nil
  | some name =>
    rw [Unique, moduleMgrUninstall_modules]
    exact hunique.sublist List.eraseP_sublist

theorem uninstall_removes_iff (hunique : Unique moduleMgr) :
    ¬ Holds (moduleMgrUninstall moduleMgr (some name)) (canonicalName name) ↔
      (Holds moduleMgr (canonicalName name) → canonicalName name = name) := by
  unfold Holds
  rw [moduleMgrUninstall_modules]
  by_cases hname : canonicalName name = name
  · refine iff_of_true ?_ fun _ => hname
    rintro ⟨module, hmem, hkey⟩
    exact UniqueKeys.eraseP hunique moduleCompare_iff module hmem (hkey.trans hname)
  · have hkept : ∀ module : ModuleItem, module.canonical = canonicalName name →
        (module ∈ moduleMgr.modules.eraseP (moduleCompare name) ↔ module ∈ moduleMgr.modules) :=
      fun module hkey => mem_eraseP_of_key_ne moduleCompare_iff fun h => hname (hkey.symm.trans h)
    constructor
    · rintro hnone ⟨module, hmem, hkey⟩
      exact absurd ⟨module, (hkept module hkey).mpr hmem, hkey⟩ hnone
    · rintro himp ⟨module, hmem, hkey⟩
      exact hname (himp ⟨module, (hkept module hkey).mp hmem, hkey⟩)

end Calls

/-! ## All calls -/

/-- **One call**: from a list of unique items, it keeps them unique and removes what it uninstalls
just in case it meets the condition. -/
theorem keeps_iff {moduleMgr : Manager} (hunique : Unique moduleMgr) (c : Call) :
    Keeps moduleMgr c ↔ Canonical moduleMgr c := by
  unfold Keeps
  cases c with
  | install env moduleName argv =>
    cases moduleName with
    | none => exact iff_of_true ⟨hunique, fun _ h => nomatch h⟩ trivial
    | some name =>
      exact (and_iff_left fun _ h => nomatch h).trans (install_keeps_iff hunique)
  | scan env path =>
    refine (and_iff_left fun _ h => nomatch h).trans ?_
    simp only [Manager.call, scanModules, Canonical]
    by_cases hopen : env.opendir = true
    · by_cases hcalloc : env.calloc = true
      · simpa [hopen, hcalloc] using scan_keeps_iff env.readdir hunique
      · simpa [hopen, hcalloc] using hunique
    · simpa [hopen] using hunique
  | uninstall name =>
    cases name with
    | none => exact iff_of_true ⟨uniqueKeys_nil, fun _ h => nomatch h⟩ trivial
    | some name =>
      refine Iff.trans ?_ (uninstall_removes_iff hunique)
      constructor
      · exact fun h => h.2 name rfl
      · rintro h
        refine ⟨unique_uninstall hunique _, fun name' heq => ?_⟩
        cases heq
        exact h

/-- **The exact condition of unique modules**: in a run from an empty manager every call keeps the
items unique and removes what it uninstalls, just in case every call meets the condition. -/
theorem unique_iff (name : List Char) (calls : List Call) (after : Manager) :
    (modules.restrict Keeps).Run (moduleMgrCreate name) calls after ↔
      (modules.restrict Canonical).Run (moduleMgrCreate name) calls after := by
  have hiff : ∀ moduleMgr c, Unique moduleMgr → modules.enabled moduleMgr c →
      (Keeps moduleMgr c ↔ Canonical moduleMgr c) :=
    fun moduleMgr c hunique _ => keeps_iff hunique c
  exact System.Run.restrict_congr hiff (fun moduleMgr c _ _ hkeeps => hkeeps.1) uniqueKeys_nil

/-- A full path, installed twice. -/
def installsTwice : List Call :=
  let env : Env :=
    { inUpdaterMode := false, moduleLibName := "lib".toList, malloc := true, strdup := true
      getRealPath := some, dlopen := fun _ => some 1 }
  List.replicate 2 (.install env (some "/system/lib/appspawn/libcommon".toList) [])

/-- The second call does not find the module of the first one. -/
theorem same_path_twice :
    (installsTwice.foldl Manager.call (moduleMgrCreate "appspawn".toList)).modules.map
        ModuleItem.canonical = ["common".toList, "common".toList] ∧
      ∀ after, ¬ (modules.restrict Keeps).Run (moduleMgrCreate "appspawn".toList) installsTwice
        after := by
  refine ⟨by decide, fun after hrun => ?_⟩
  cases hrun with
  | cons hfirst hrest =>
    cases hrest with
    | cons hsecond _ => exact absurd hsecond.2.1 (by decide)

end ModuleMgr
