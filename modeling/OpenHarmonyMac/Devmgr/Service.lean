import Mathlib.Data.Finset.Insert
import OpenHarmonyMac.Infra.Family

/-!
# Host clients of the device manager

`DevmgrServiceLoadDevice` starts the host process of a device if there is none, and
`DevmgrServiceUnloadDevice` stops it with the last device. Each keeps `hostLock` only for part of
its work, and the host attaches when it is up. A section under the lock is one step here, and so is
each statement outside of it. What a host service and the installer answer is part of the event.

* `Host` — the client of one host, with the calls in progress on it
* `hostClient` — its steps
* `devmgr` — the clients of all hosts, found by the names of their devices
-/

namespace Devmgr

open Infra

/-- `DEVICE_PRELOAD_DISABLE` marks a device that is loaded on demand. -/
inductive Preload
  | enable
  | enableStep2
  | disable
  deriving DecidableEq, Repr

/-- A `HdfDeviceInfo`. -/
structure HdfDeviceInfo where
  svcName : String
  deviceId : Nat
  preload : Preload
  deriving DecidableEq, Repr

/-- What the configuration says about a host. -/
structure HostInfo where
  hostId : Nat
  unloadDevInfos : List HdfDeviceInfo := []
  dynamicDevInfos : List HdfDeviceInfo := []
  deriving DecidableEq, Repr

/-- The functions that the driver installer has. -/
structure Installer where
  startDeviceHost : Bool := true
  stopDeviceHost : Bool := true
  deriving DecidableEq, Repr

/-- The service of a host process, with the functions it has. -/
structure DevHostService where
  pid : Nat
  addDevice : Bool := true
  delDevice : Bool := true
  deriving DecidableEq, Repr

/-- The results of the calls. -/
inductive Ret
  | success
  | failure
  | errTimeout
  | errInvalidParam
  | errNoDevice
  | errNoRange
  deriving DecidableEq, Repr

/-- Where a call is: the step that comes next. -/
inductive CallPc
  | idle
  | loadLocked
  | startDeviceHost
  | storePid
  | checkPid
  | clearStopFlag
  | poll
  | stopTimedOut
  | clearPid
  | addDevice
  | unloadLocked
  | stopHost
  | setStopFlag
  | installDriver
  | returned (ret : Ret)
  deriving DecidableEq, Repr

/-- A call of the installer for the host. -/
inductive InstallerCall
  | start (pid : Option Nat) (dynamic : Bool)
  | stop
  deriving DecidableEq, Repr

/-- A `DevHostServiceClnt` with the calls on it and, of each, the device, the result of
`StartDeviceHost` and `waitCount`.
The last three fields observe what is done: the calls of the installer and of `AddDevice`, the last
one first, and the processes that have been started and neither stopped nor given up. -/
structure Host where
  hostPid : Int := -1
  stopFlag : Bool := false
  hostService : Option DevHostService := none
  devices : List Nat := []
  calls : Nat → CallPc := fun _ => .idle
  deviceInfo : Nat → Option HdfDeviceInfo := fun _ => none
  startedPid : Nat → Option Nat := fun _ => none
  waitCount : Nat → Nat := fun _ => 0
  installerCalls : List InstallerCall := []
  addDeviceCalls : List (Nat × Option HdfDeviceInfo) := []
  serving : Finset Nat := ∅

/-- A step of a call, with the answers of what it calls. -/
inductive HostEvent
  | loadDevice (call : Nat) (device : HdfDeviceInfo)
  | unloadDevice (call : Nat) (device : HdfDeviceInfo)
  | loadLocked (call : Nat) (added : Bool)
  | startDeviceHost (call : Nat) (pid : Option Nat)
  | storePid (call : Nat)
  | checkPid (call : Nat)
  | clearStopFlag (call : Nat)
  | poll (call : Nat)
  | stopTimedOut (call : Nat)
  | clearPid (call : Nat)
  | addDevice (call : Nat) (added : Bool)
  | unloadLocked (call : Nat) (deleted : Bool)
  | stopHost (call : Nat)
  | setStopFlag (call : Nat)
  | attachDeviceHost (call : Nat) (service : Option DevHostService)
  | installDriver (call : Nat) (installed : Bool)
  | attachDevice (call : Nat) (token : Option Nat) (allocated : Bool)
  | detachDevice (call : Nat) (devid : Nat)
  deriving DecidableEq, Repr

/-- The number of polls in `DevmgrServiceStartHostProcess`. -/
def waitHostSleepCnt : Nat := 1000

namespace Host

variable (inst : Installer) (info : HostInfo) (s : Host) (c : Nat)

/-- The call goes on at `pc`. -/
def goto (pc : CallPc) : Host := { s with calls := Function.update s.calls c pc }

@[simp] theorem goto_hostPid (pc : CallPc) : (s.goto c pc).hostPid = s.hostPid := rfl

@[simp] theorem goto_hostService (pc : CallPc) : (s.goto c pc).hostService = s.hostService := rfl

@[simp] theorem goto_serving (pc : CallPc) : (s.goto c pc).serving = s.serving := rfl

@[simp] theorem goto_calls_self (pc : CallPc) : (s.goto c pc).calls c = pc :=
  Function.update_self ..

/-! ## `DevmgrServiceLoadDevice` -/

/-- The call begins, with the device that has been found. -/
def beginCall (device : HdfDeviceInfo) (pc : CallPc) : Host :=
  { s with deviceInfo := Function.update s.deviceInfo c (some device) }.goto c pc

/-- `AddDevice` of the service, if there is one that has it. -/
def sendAddDevice (added : Bool) : Host :=
  match s.hostService with
  | none => s.goto c (.returned .failure)
  | some service =>
    if !service.addDevice then s.goto c (.returned .failure)
    else
      { s with addDeviceCalls := (service.pid, s.deviceInfo c) :: s.addDeviceCalls }.goto c
        (.returned (if added then .success else .failure))

/-- The locked section with the first check of `hostPid`. -/
def loadLocked (added : Bool) : Host :=
  if s.hostPid < 0 then s.goto c .startDeviceHost else s.sendAddDevice c added

/-- `DevmgrServiceStartHostProcess` has the process started. -/
def startDeviceHost (pid : Option Nat) : Host :=
  if !inst.startDeviceHost then s.goto c (.returned .failure)
  else
    let dynamic := info.unloadDevInfos.isEmpty && !info.dynamicDevInfos.isEmpty
    { s with
      startedPid := Function.update s.startedPid c pid
      serving := pid.elim s.serving fun pid => insert pid s.serving
      installerCalls := .start pid dynamic :: s.installerCalls }.goto c .storePid

/-- The result of `StartDeviceHost` is stored in `hostPid`. `HDF_FAILURE` is stored, too, and
gives up what was there. -/
def storePid : Host :=
  { s with
    hostPid := (s.startedPid c).elim (-1) Int.ofNat
    serving := (s.startedPid c).elim ∅ fun _ => s.serving }.goto c .checkPid

/-- `hostClnt->hostPid == HDF_FAILURE`. -/
def checkPid : Host :=
  if s.hostPid = -1 then s.goto c (.returned .failure) else s.goto c .clearStopFlag

/-- `hostClnt->stopFlag = false`, before the loop. -/
def clearStopFlag : Host :=
  { s with
    stopFlag := false
    waitCount := Function.update s.waitCount c waitHostSleepCnt }.goto c .poll

/-- One turn of the loop that waits for the service. The loop ends with the service or with the
counter, and the counter alone decides what comes next. -/
def poll : Host :=
  if s.hostService.isNone && 0 < s.waitCount c then
    { s with waitCount := Function.update s.waitCount c (s.waitCount c - 1) }
  else if s.waitCount c = 0 then s.goto c .stopTimedOut
  else s.goto c .addDevice

/-- A host that did not attach in time is stopped, if the installer can. -/
def stopTimedOut : Host :=
  if inst.stopDeviceHost then
    { s with serving := ∅, installerCalls := .stop :: s.installerCalls }.goto c .clearPid
  else s.goto c .clearPid

/-- `hostClnt->hostPid = -1`. -/
def clearPid : Host := { s with hostPid := -1, serving := ∅ }.goto c (.returned .errTimeout)

/-! ## `DevmgrServiceUnloadDevice` -/

/-- The locked section. The client is cleared with the last device of a host that has only dynamic
devices. -/
def unloadLocked (deleted : Bool) : Host :=
  match s.hostService with
  | none => s.goto c (.returned .failure)
  | some service =>
    if !service.delDevice then s.goto c (.returned .failure)
    else if !deleted then s.goto c (.returned .failure)
    else if !s.devices.isEmpty then s.goto c (.returned .success)
    else if !info.unloadDevInfos.isEmpty then s.goto c (.returned .success)
    else { s with hostPid := -1, hostService := none, devices := [], serving := ∅ }.goto c .stopHost

/-- `DevmgrServiceStopHost`. -/
def stopHost : Host :=
  if !inst.stopDeviceHost then s.goto c (.returned .failure)
  else { s with serving := ∅, installerCalls := .stop :: s.installerCalls }.goto c .setStopFlag

/-- `hostClnt->stopFlag = true`. -/
def setStopFlag : Host := { s with stopFlag := true }.goto c (.returned .success)

/-! ## The calls of a host -/

/-- The locked section of `DevmgrServiceAttachDeviceHost`. -/
def attachDeviceHost (service : Option DevHostService) : Host :=
  match service with
  | none => s.goto c (.returned .failure)
  | some service => { s with hostService := some service }.goto c .installDriver

/-- The result of `DevHostServiceClntInstallDriver`. -/
def installDriver (installed : Bool) : Host :=
  s.goto c (.returned (if installed then .success else .failure))

/-- `DevmgrServiceAttachDevice`. -/
def attachDevice (token : Option Nat) (allocated : Bool) : Host :=
  match token with
  | none => s.goto c (.returned .failure)
  | some devid =>
    if !allocated then s.goto c (.returned .failure)
    else { s with devices := s.devices ++ [devid] }.goto c (.returned .success)

/-- `DevmgrServiceDetachDevice`. -/
def detachDevice (devid : Nat) : Host :=
  if devid ∈ s.devices then
    { s with devices := s.devices.erase devid }.goto c (.returned .success)
  else s.goto c (.returned .errNoDevice)

/-! ## The steps -/

/-- No call of this number is under way. -/
def Free : Prop := s.calls c = .idle ∨ ∃ ret, s.calls c = .returned ret

/-- The call is where the event goes on. -/
def Enabled (s : Host) : HostEvent → Prop
  | .loadDevice c _ => s.Free c
  | .unloadDevice c _ => s.Free c
  | .loadLocked c _ => s.calls c = .loadLocked
  | .startDeviceHost c _ => s.calls c = .startDeviceHost
  | .storePid c => s.calls c = .storePid
  | .checkPid c => s.calls c = .checkPid
  | .clearStopFlag c => s.calls c = .clearStopFlag
  | .poll c => s.calls c = .poll
  | .stopTimedOut c => s.calls c = .stopTimedOut
  | .clearPid c => s.calls c = .clearPid
  | .addDevice c _ => s.calls c = .addDevice
  | .unloadLocked c _ => s.calls c = .unloadLocked
  | .stopHost c => s.calls c = .stopHost
  | .setStopFlag c => s.calls c = .setStopFlag
  | .attachDeviceHost c _ => s.Free c
  | .installDriver c _ => s.calls c = .installDriver
  | .attachDevice c _ _ => s.Free c
  | .detachDevice c _ => s.Free c

/-- The step that an event stands for. -/
def step (s : Host) : HostEvent → Host
  | .loadDevice c device => s.beginCall c device .loadLocked
  | .unloadDevice c device => s.beginCall c device .unloadLocked
  | .loadLocked c added => s.loadLocked c added
  | .startDeviceHost c pid => s.startDeviceHost inst info c pid
  | .storePid c => s.storePid c
  | .checkPid c => s.checkPid c
  | .clearStopFlag c => s.clearStopFlag c
  | .poll c => s.poll c
  | .stopTimedOut c => s.stopTimedOut inst c
  | .clearPid c => s.clearPid c
  | .addDevice c added => s.sendAddDevice c added
  | .unloadLocked c deleted => s.unloadLocked info c deleted
  | .stopHost c => s.stopHost inst c
  | .setStopFlag c => s.setStopFlag c
  | .attachDeviceHost c service => s.attachDeviceHost c service
  | .installDriver c installed => s.installDriver c installed
  | .attachDevice c token allocated => s.attachDevice c token allocated
  | .detachDevice c devid => s.detachDevice c devid

/-! ## What a function with several exits does -/

/-- A device is sent to the service, or the call fails because there is nothing to send it to. -/
theorem sendAddDevice_cases (added : Bool) :
    ((∀ service ∈ s.hostService, service.addDevice = false) ∧
        s.sendAddDevice c added = s.goto c (.returned .failure)) ∨
      ∃ service ∈ s.hostService, service.addDevice = true ∧ s.sendAddDevice c added =
        { s with addDeviceCalls := (service.pid, s.deviceInfo c) :: s.addDeviceCalls }.goto c
          (.returned (if added then .success else .failure)) := by
  unfold sendAddDevice
  cases s.hostService with
  | none => exact .inl ⟨by simp, rfl⟩
  | some service =>
    cases hadd : service.addDevice with
    | false => exact .inl ⟨by simp [hadd], by simp [hadd]⟩
    | true => exact .inr ⟨service, rfl, hadd, by simp [hadd]⟩

/-- The loop goes on with a lower counter, or the call leaves it. -/
theorem poll_cases : (∃ counts, s.poll c = { s with waitCount := counts }) ∨
    ∃ pc, (pc = .stopTimedOut ∨ pc = .addDevice) ∧ s.poll c = s.goto c pc := by
  unfold poll
  split
  · exact .inl ⟨_, rfl⟩
  · split
    · exact .inr ⟨_, .inl rfl, rfl⟩
    · exact .inr ⟨_, .inr rfl, rfl⟩

/-- The locked section of `DevmgrServiceUnloadDevice` returns, or clears the client. -/
theorem unloadLocked_cases (deleted : Bool) :
    (∃ ret, s.unloadLocked info c deleted = s.goto c (.returned ret)) ∨
      s.unloadLocked info c deleted =
        { s with hostPid := -1, hostService := none, devices := [], serving := ∅ }.goto c
          .stopHost := by
  unfold unloadLocked
  split
  · exact .inl ⟨_, rfl⟩
  · split
    · exact .inl ⟨_, rfl⟩
    · split
      · exact .inl ⟨_, rfl⟩
      · split
        · exact .inl ⟨_, rfl⟩
        · split
          · exact .inl ⟨_, rfl⟩
          · exact .inr rfl

/-- A client that has not been started, or that was started when the manager was. -/
def Init (s : Host) : Prop :=
  s = {} ∨ ∃ pid dynamic,
    s = { hostPid := Int.ofNat pid, serving := {pid}, installerCalls := [.start (some pid) dynamic] }

end Host

/-- The client of one host as a system. -/
def hostClient (inst : Installer) (info : HostInfo) : System Host HostEvent where
  init := Host.Init
  enabled := Host.Enabled
  step := Host.step inst info

/-! ## The device manager -/

/-- `DevmgrServiceDynamicDevInfoFound`: the first dynamic device of that name. -/
def dynamicDevInfoFound (hosts : List HostInfo) (svcName : String) :
    Option (HostInfo × HdfDeviceInfo) :=
  hosts.findSome? fun host =>
    (host.dynamicDevInfos.find? (·.svcName = svcName)).map fun device => (host, device)

/-- The checks of `DevmgrServiceLoadDevice` and of `DevmgrServiceUnloadDevice` before the lock. The
device is only loaded and unloaded if it is loaded on demand, and the two differ in the result. -/
def findDevice (hosts : List HostInfo) (notDynamic : Ret) (svcName : Option String) :
    Except Ret (HostInfo × HdfDeviceInfo) :=
  match svcName with
  | none => .error .errInvalidParam
  | some svcName =>
    match dynamicDevInfoFound hosts svcName with
    | none => .error .errNoDevice
    | some (host, device) =>
      if device.preload = .disable then .ok (host, device) else .error notDynamic

/-- `DevmgrServiceFindDeviceHost`. -/
def findDeviceHost (hosts : List HostInfo) (hostId : Nat) : Option HostInfo :=
  hosts.find? (·.hostId = hostId)

/-- A call begins on the host that the manager finds for it, and the other steps go on there. -/
def Found (hosts : List HostInfo) (e : Nat × HostEvent) : Prop :=
  match e.2 with
  | .loadDevice _ device =>
    ∃ svcName host, findDevice hosts .errNoRange svcName = .ok (host, device) ∧ host.hostId = e.1
  | .unloadDevice _ device =>
    ∃ svcName host, findDevice hosts .errNoDevice svcName = .ok (host, device) ∧ host.hostId = e.1
  | .attachDeviceHost _ _ | .attachDevice _ _ _ | .detachDevice _ _ =>
    (findDeviceHost hosts e.1).isSome
  | _ => True

/-- The configuration of a host. -/
def hostInfo (hosts : List HostInfo) (hostId : Nat) : HostInfo :=
  (findDeviceHost hosts hostId).getD { hostId := hostId }

/-- The device manager with the clients of its hosts. -/
def devmgr (inst : Installer) (hosts : List HostInfo) : System (Nat → Host) (Nat × HostEvent) :=
  (System.family fun hostId => hostClient inst (hostInfo hosts hostId)).restrict
    fun _ e => Found hosts e

/-- A run of the manager is a run of each client. -/
theorem devmgr_component {inst : Installer} {hosts : List HostInfo} {f g : Nat → Host}
    {es : List (Nat × HostEvent)} (ok : Host → HostEvent → Prop)
    (hr : ((devmgr inst hosts).restrict fun f e => ok (f e.1) e.2).Run f es g) (hostId : Nat) :
    ((hostClient inst (hostInfo hosts hostId)).restrict ok).Run (f hostId)
      (System.eventsOf hostId es) (g hostId) := by
  have hfamily : ((System.family fun hostId => hostClient inst (hostInfo hosts hostId)).restrict
      fun f e => ok (f e.1) e.2).Run f es g := by
    refine hr.mono rfl ?_
    rintro f e ⟨⟨he, -⟩, hok⟩
    exact ⟨he, hok⟩
  exact @System.Run.component_restrict _ _ _ _ _ _ _ _ (fun _ => ok) hostId hfamily

/-- A run of one client is a run of the manager, if the manager finds its devices there. -/
theorem devmgr_lift {inst : Installer} {hosts : List HostInfo} {hostId : Nat} {s t : Host}
    {es : List HostEvent} (ok : Host → HostEvent → Prop)
    (hr : ((hostClient inst (hostInfo hosts hostId)).restrict ok).Run s es t)
    (hfound : ∀ e ∈ es, Found hosts (hostId, e)) {f : Nat → Host} (hf : f hostId = s) :
    ((devmgr inst hosts).restrict fun f e => ok (f e.1) e.2).Run f
      (es.map fun e => (hostId, e)) (Function.update f hostId t) := by
  have hfamily := @System.Run.lift _ _ _ _
    (fun hostId => (hostClient inst (hostInfo hosts hostId)).restrict ok) _ _ _ _ hr f hf
  have hall : ∀ e ∈ es.map fun e => (hostId, e), Found hosts e := by
    intro e he
    obtain ⟨e', he', rfl⟩ := List.mem_map.mp he
    exact hfound e' he'
  refine (hfamily.restrict_of_forall hall).mono rfl ?_
  rintro f e ⟨⟨he, hok⟩, hf⟩
  exact ⟨⟨he, hf⟩, hok⟩

/-! ## Deciding what is enabled -/

instance (s : Host) (c : Nat) : Decidable (s.Free c) :=
  match h : s.calls c with
  | .idle => isTrue (.inl h)
  | .returned ret => isTrue (.inr ⟨ret, h⟩)
  | .loadLocked | .startDeviceHost | .storePid | .checkPid | .clearStopFlag | .poll
  | .stopTimedOut | .clearPid | .addDevice | .unloadLocked | .stopHost | .setStopFlag
  | .installDriver => isFalse (by rintro (h' | ⟨_, h'⟩) <;> rw [h] at h' <;> cases h')

instance (s : Host) : ∀ e, Decidable (s.Enabled e)
  | .loadDevice c _ | .unloadDevice c _ | .attachDeviceHost c _ | .attachDevice c _ _
  | .detachDevice c _ => inferInstanceAs (Decidable (s.Free c))
  | .loadLocked _ _ | .startDeviceHost _ _ | .storePid _ | .checkPid _ | .clearStopFlag _
  | .poll _ | .stopTimedOut _ | .clearPid _ | .addDevice _ _ | .unloadLocked _ _ | .stopHost _
  | .setStopFlag _ | .installDriver _ _ => inferInstanceAs (Decidable (_ = _))

instance (inst : Installer) (info : HostInfo) (s : Host) (e : HostEvent) :
    Decidable ((hostClient inst info).enabled s e) :=
  inferInstanceAs (Decidable (s.Enabled e))

/-! ## A host with two devices -/

/-- Two devices of one host, loaded on demand. -/
def sampleHosts : List HostInfo :=
  [{ hostId := 1, dynamicDevInfos := [⟨"sensor", 1, .disable⟩, ⟨"vibrator", 2, .disable⟩] }]

theorem init_sample : (devmgr {} sampleHosts).init fun _ => {} := fun _ => .inl rfl

theorem found_sensor (call : Nat) :
    Found sampleHosts (1, .loadDevice call ⟨"sensor", 1, .disable⟩) :=
  ⟨some "sensor", _, rfl, rfl⟩

theorem found_vibrator (call : Nat) :
    Found sampleHosts (1, .loadDevice call ⟨"vibrator", 2, .disable⟩) :=
  ⟨some "vibrator", _, rfl, rfl⟩

/-- A run of the host with these devices, as a run of the manager. -/
theorem sample_lift {es : List HostEvent} {t : Host} (ok : Host → HostEvent → Prop)
    (hr : ((hostClient {} (hostInfo sampleHosts 1)).restrict ok).Run {} es t)
    (hfound : ∀ e ∈ es, Found sampleHosts (1, e)) :
    ((devmgr {} sampleHosts).restrict fun f e => ok (f e.1) e.2).Run (fun _ => {})
      (es.map fun e => (1, e)) (Function.update (fun _ => {}) 1 t) :=
  devmgr_lift ok hr hfound rfl

end Devmgr
