import OpenHarmonyMac.Devmgr.Service
import OpenHarmonyMac.Infra.Cursor

/-!
# The drivers of the second step

`DevmgrServiceLoadLeftDriver` loads the devices that are marked for the second step. Those that have
been loaded are removed from the list of their host, through the iterator that walks it.
`hdf_slist.c` is not among the sources: the iterator is a `Cursor`.

* `loadsLeft_iff` — when every device that is left is loaded once, and no host is missed
-/

namespace Devmgr

open Infra

/-! ## The function -/

/-- A node of a list of devices: its address, and the device. -/
structure DevInfoNode where
  node : Nat
  info : HdfDeviceInfo
  deriving DecidableEq, Repr

/-- What the function reads of a `DevHostServiceClnt`. -/
structure LeftHost where
  hostService : Option DevHostService := none
  unloadDevInfos : List DevInfoNode := []
  deriving DecidableEq, Repr

structure AddDeviceCall where
  service : DevHostService
  deviceInfo : DevInfoNode
  deriving DecidableEq, Repr

/-- The calls of `AddDevice` so far, and the devices that have become `HDF_SERVICE_USABLE`. -/
@[ext]
structure LeftLog where
  calls : List AddDeviceCall := []
  usable : List DevInfoNode := []
  deriving DecidableEq, Repr

inductive LeftOutcome
  | returned (ret : Ret) (hosts : List LeftHost) (log : LeftLog)
  | nullCall
  | outOfFuel
  deriving DecidableEq, Repr

/-- One turn of the inner loop, with what `AddDevice` answers: whether the node is removed, `none`
for a call through NULL. -/
def loadDeviceInfo (added : AddDeviceCall → Bool) (hostService : Option DevHostService)
    (log : LeftLog) (deviceInfo : DevInfoNode) : Option (Bool × LeftLog) :=
  if deviceInfo.info.preload = .enableStep2 then
    -- Neither the service nor its function is checked, as in `DevmgrServiceLoadDevice`.
    match hostService with
    | none => none
    | some service =>
      if service.addDevice then
        let log := { log with calls := log.calls ++ [⟨service, deviceInfo⟩] }
        if added ⟨service, deviceInfo⟩ then
          some (true, { log with usable := log.usable ++ [deviceInfo] })
        else some (false, log)
      else none
  else some (false, log)

/-- The loop over the hosts. -/
def loadLeftHosts (list : Cursor DevInfoNode) (added : AddDeviceCall → Bool) :
    List LeftHost → LeftLog → LeftOutcome
  | [], log => .returned .success [] log
  | hostClnt :: hosts, log =>
    match list.sweep (loadDeviceInfo added hostClnt.hostService)
      (hostClnt.unloadDevInfos.length + 1) (list.start hostClnt.unloadDevInfos) log with
    | .outOfFuel => .outOfFuel
    | .broken => .nullCall
    | .ended itDeviceInfo log =>
      match loadLeftHosts list added hosts log with
      | .returned ret hosts log =>
        .returned ret ({ hostClnt with unloadDevInfos := list.list itDeviceInfo } :: hosts) log
      | outcome => outcome

/-- `devMgrSvc` is `none` for NULL. -/
def devmgrServiceLoadLeftDriver (list : Cursor DevInfoNode) (added : AddDeviceCall → Bool)
    (devMgrSvc : Option (List LeftHost)) : LeftOutcome :=
  match devMgrSvc with
  | none => .returned .failure [] {}
  | some hosts => loadLeftHosts list added hosts {}

/-! ## What it is to do -/

namespace LeftHost

variable (added : AddDeviceCall → Bool) (h : LeftHost)

/-- The devices of the second step. -/
def step2 : List DevInfoNode := h.unloadDevInfos.filter (·.info.preload = .enableStep2)

/-- The calls that are due for the host, if it has attached. -/
def addDeviceCalls : List AddDeviceCall :=
  match h.hostService with
  | none => []
  | some service => h.step2.map (AddDeviceCall.mk service)

/-- The device is one of the second step, and its `AddDevice` succeeds. -/
def loaded (deviceInfo : DevInfoNode) : Bool :=
  deviceInfo.info.preload = .enableStep2 && h.hostService.any fun s => added ⟨s, deviceInfo⟩

/-- The host without the devices that have been loaded. -/
def withoutLoaded : LeftHost :=
  { h with unloadDevInfos := h.unloadDevInfos.filter (! h.loaded added ·) }

/-- The host has nothing to load, or a service that can load it. -/
def CanLoad : Prop := h.step2 ≠ [] → ∃ service ∈ h.hostService, service.addDevice = true

end LeftHost

/-- The function returns, has called `AddDevice` once for each device of the second step of each
host that has attached, and each list has lost what has been loaded. -/
def LoadsLeft (list : Cursor DevInfoNode) (added : AddDeviceCall → Bool) (hosts : List LeftHost) :
    Prop :=
  devmgrServiceLoadLeftDriver list added (some hosts) =
    .returned .success (hosts.map (·.withoutLoaded added))
      { calls := hosts.flatMap (·.addDeviceCalls)
        usable := hosts.flatMap fun h => h.unloadDevInfos.filter (h.loaded added) }

/-! ## One host -/

variable {list : Cursor DevInfoNode} {added : AddDeviceCall → Bool} {h : LeftHost}
  {hosts : List LeftHost}

namespace LeftHost

/-- The log after a device that could be loaded. -/
def after (added : AddDeviceCall → Bool) (h : LeftHost) (log : LeftLog) (deviceInfo : DevInfoNode) :
    LeftLog where
  calls := log.calls ++ { h with unloadDevInfos := [deviceInfo] }.addDeviceCalls
  usable := log.usable ++ [deviceInfo].filter (h.loaded added)

theorem addDeviceCalls_cons (deviceInfo : DevInfoNode) (rest : List DevInfoNode) :
    { h with unloadDevInfos := deviceInfo :: rest }.addDeviceCalls =
      { h with unloadDevInfos := [deviceInfo] }.addDeviceCalls ++
        { h with unloadDevInfos := rest }.addDeviceCalls := by
  unfold addDeviceCalls step2
  cases h.hostService with
  | none => rfl
  | some service => rw [← List.map_append, ← List.filter_append, List.singleton_append]

theorem foldl_after (log : LeftLog) (devices : List DevInfoNode) :
    devices.foldl (h.after added) log =
      { calls := log.calls ++ { h with unloadDevInfos := devices }.addDeviceCalls
        usable := log.usable ++ devices.filter (h.loaded added) } := by
  induction devices generalizing log with
  | nil =>
    unfold addDeviceCalls step2
    cases h.hostService <;> simp
  | cons deviceInfo rest ih =>
    rw [List.foldl_cons, ih, addDeviceCalls_cons]
    ext1
    · simp [after]
    · simp only [after]
      rw [List.append_assoc, ← List.filter_append, List.singleton_append]

/-- A host that can load is visited to its end. -/
theorem loadDeviceInfo_of_canLoad (hcan : h.CanLoad) (log : LeftLog) {deviceInfo : DevInfoNode}
    (hmem : deviceInfo ∈ h.unloadDevInfos) :
    loadDeviceInfo added h.hostService log deviceInfo =
      some (h.loaded added deviceInfo, h.after added log deviceInfo) := by
  unfold loadDeviceInfo
  by_cases hstep : deviceInfo.info.preload = .enableStep2
  · have hne : h.step2 ≠ [] :=
      List.ne_nil_of_mem (List.mem_filter.mpr ⟨hmem, by simpa using hstep⟩)
    obtain ⟨service, hservice, hadd⟩ := hcan hne
    have hservice : h.hostService = some service := hservice
    rw [if_pos hstep]
    cases hadded : added ⟨service, deviceInfo⟩ with
    | true => simp [hservice, hadd, hadded, after, loaded, addDeviceCalls, step2, hstep]
    | false => simp [hservice, hadd, hadded, after, loaded, addDeviceCalls, step2, hstep]
  · rw [if_neg hstep]
    cases hservice : h.hostService with
    | none => simp [hservice, after, loaded, addDeviceCalls, hstep]
    | some service => simp [hservice, after, loaded, addDeviceCalls, step2, hstep]

variable (list added) in
/-- **A host that can load.** -/
theorem sweep_of_canLoad (hcan : h.CanLoad) (log : LeftLog) :
    ∃ it, list.sweep (loadDeviceInfo added h.hostService) (h.unloadDevInfos.length + 1)
        (list.start h.unloadDevInfos) log =
        .ended it
          { calls := log.calls ++ h.addDeviceCalls
            usable := log.usable ++ h.unloadDevInfos.filter (h.loaded added) } ∧
      list.list it = (h.withoutLoaded added).unloadDevInfos := by
  have hvisit : ∀ d ∈ h.unloadDevInfos, ∀ log, loadDeviceInfo added h.hostService log d =
      some (h.loaded added d, h.after added log d) :=
    fun d hd log => loadDeviceInfo_of_canLoad hcan log hd
  have hsweep := list.sweep_of_forall hvisit (list.at_start _) (Nat.lt_succ_self _) log
  rwa [foldl_after] at hsweep

/-- **A host that cannot load.** Its first device of the second step is a call through NULL. -/
theorem sweep_of_not_canLoad (hcan : ¬ h.CanLoad) (log : LeftLog) :
    list.sweep (loadDeviceInfo added h.hostService) (h.unloadDevInfos.length + 1)
      (list.start h.unloadDevInfos) log = .broken := by
  obtain ⟨hne, hnone⟩ := Classical.not_imp.mp hcan
  obtain ⟨deviceInfo, hmem⟩ := List.exists_mem_of_ne_nil _ hne
  obtain ⟨hmem, hstep⟩ := List.mem_filter.mp hmem
  refine Cursor.sweep_of_mem hmem (fun log => ?_) (list.at_start _) (Nat.lt_succ_self _) log
  unfold loadDeviceInfo
  rw [if_pos (by simpa using hstep)]
  cases hservice : h.hostService with
  | none => rfl
  | some service =>
    have hadd : ¬ service.addDevice = true := fun hadd => hnone ⟨service, hservice, hadd⟩
    simp only [if_neg hadd]

end LeftHost

/-! ## All hosts -/

theorem loadLeftHosts_of_canLoad (hcan : ∀ h ∈ hosts, h.CanLoad) (log : LeftLog) :
    loadLeftHosts list added hosts log =
      .returned .success (hosts.map (·.withoutLoaded added))
        { calls := log.calls ++ hosts.flatMap (·.addDeviceCalls)
          usable := log.usable ++ hosts.flatMap fun h =>
            h.unloadDevInfos.filter (h.loaded added) } := by
  induction hosts generalizing log with
  | nil => simp [loadLeftHosts]
  | cons h hosts ih =>
    rw [List.forall_mem_cons] at hcan
    obtain ⟨it, hsweep, hlist⟩ := LeftHost.sweep_of_canLoad list added hcan.1 log
    rw [loadLeftHosts, hsweep]
    simp only [ih hcan.2, hlist, List.map_cons, List.flatMap_cons, List.append_assoc]
    rfl

theorem loadLeftHosts_of_not_canLoad (hmem : h ∈ hosts) (hcan : ¬ h.CanLoad) (log : LeftLog) :
    loadLeftHosts list added hosts log = .nullCall := by
  induction hosts generalizing log with
  | nil => cases hmem
  | cons h' hosts ih =>
    rw [loadLeftHosts]
    by_cases hcan' : h'.CanLoad
    · have hmem : h ∈ hosts := (List.mem_cons.mp hmem).resolve_left fun heq => hcan (heq ▸ hcan')
      obtain ⟨it, hsweep, -⟩ := LeftHost.sweep_of_canLoad list added hcan' log
      rw [hsweep]
      simp only [ih hmem]
    · rw [LeftHost.sweep_of_not_canLoad hcan' log]

/-- **When what is left is loaded.** Just in case each host that has a device of the second step
has a service with `AddDevice`. -/
theorem loadsLeft_iff (list : Cursor DevInfoNode) (added : AddDeviceCall → Bool)
    (hosts : List LeftHost) : LoadsLeft list added hosts ↔ ∀ h ∈ hosts, h.CanLoad := by
  constructor
  · intro hloads h hmem
    by_contra hcan
    rw [LoadsLeft, devmgrServiceLoadLeftDriver, loadLeftHosts_of_not_canLoad hmem hcan] at hloads
    cases hloads
  · intro hcan
    rw [LoadsLeft, devmgrServiceLoadLeftDriver, loadLeftHosts_of_canLoad hcan]
    rfl

/-- A host that has been started and has not attached yet. -/
def startedHost : LeftHost where
  unloadDevInfos := [⟨1, "sensor", 1, .enableStep2⟩]

theorem unattached_host_called :
    ¬ LoadsLeft (Cursor.zipper DevInfoNode) (fun _ => true) [startedHost] := by
  intro hloads
  have hnull : devmgrServiceLoadLeftDriver (Cursor.zipper DevInfoNode) (fun _ => true)
      (some [startedHost]) = .nullCall := rfl
  rw [LoadsLeft, hnull] at hloads
  cases hloads

end Devmgr
