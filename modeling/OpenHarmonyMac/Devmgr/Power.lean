import Mathlib.Data.List.Nodup
import OpenHarmonyMac.Infra.Pass

/-!
# Power states

`DevmgrServicePowerStateChange` tells the device nodes of all hosts that the system wakes up or is
suspended. There is a loop over the hosts, one over the devices of a host and one over the nodes of
a device, each of which runs in either sense. Which states there are and what a handler answers is
decided elsewhere.

* `wakeOrder` — the nodes in the order in which they wake up
* `power_state_propagation` — each powered node is told once, in this order or its reverse
-/

namespace Devmgr

namespace Power

open Infra

/-- `HDF_SUCCESS` -/
def hdfSuccess : Int := 0

/-- `HDF_FAILURE` -/
def hdfFailure : Int := -1

/-- `HDF_ERR_INVALID_PARAM` -/
def hdfErrInvalidParam : Int := -3

/-- `HDF_ERR_INVALID_OBJECT` -/
def hdfErrInvalidObject : Int := -4

/-- The part of a `struct HdfDeviceNode` that is read: where it is, and its `powerToken`. -/
structure HdfDeviceNode where
  address : Nat
  powerToken : Option Nat
  deriving DecidableEq, Repr

/-- `struct HdfDevice` -/
structure HdfDevice where
  devNodes : List HdfDeviceNode
  deriving DecidableEq, Repr

/-- `struct DevHostService` -/
structure DevHostService where
  devices : List HdfDevice
  deriving DecidableEq, Repr

/-- `struct DevHostServiceClnt` -/
structure DevHostServiceClnt where
  hostService : Option DevHostService
  deriving DecidableEq, Repr

/-- The nodes of the services in `hosts`. -/
def nodesOf (hosts : List DevHostServiceClnt) : List HdfDeviceNode :=
  hosts.flatMap fun hostClient => hostClient.hostService.elim [] fun hostService =>
    hostService.devices.flatMap HdfDevice.devNodes

/-- `struct DevmgrService`. A node is an entry of one list only. -/
structure DevmgrService where
  hosts : List DevHostServiceClnt
  distinct : (nodesOf hosts).Nodup

/-! ## The code -/

section Code

variable (isValidPowerState isPowerWakeState : UInt32 → Bool)
  (powerStateChange : UInt32 → List HdfDeviceNode → HdfDeviceNode → Int)

/-- The body of both loops of `DevHostServiceFullDispatchPowerState`. -/
def changeNode (state : UInt32) (deviceNode : HdfDeviceNode) : Pass HdfDeviceNode :=
  match deviceNode.powerToken with
  | some _ => Pass.visit (powerStateChange state) deviceNode
  | none => fun notified => (hdfSuccess, notified)

/-- `DevHostServiceFullDispatchPowerState` -/
def devHostServiceFullDispatchPowerState (device : HdfDevice) (state : UInt32) :
    Pass HdfDeviceNode :=
  if isPowerWakeState state then
    Pass.each hdfFailure (changeNode powerStateChange state) device.devNodes
  else
    Pass.each hdfFailure (changeNode powerStateChange state) device.devNodes.reverse

/-- `DevHostServiceFullPmNotify`. The devices wake up in the reverse order of their list, unlike
the hosts and the nodes. -/
def devHostServiceFullPmNotify (service : Option DevHostService) (state : UInt32) :
    Pass HdfDeviceNode := fun notified =>
  match service with
  | none => (hdfErrInvalidParam, notified)
  | some hostService =>
    if ¬ isValidPowerState state then (hdfErrInvalidParam, notified)
    else if isPowerWakeState state then
      Pass.each hdfFailure (fun device => devHostServiceFullDispatchPowerState isPowerWakeState
        powerStateChange device state) hostService.devices.reverse notified
    else
      Pass.each hdfFailure (fun device => devHostServiceFullDispatchPowerState isPowerWakeState
        powerStateChange device state) hostService.devices notified

/-- The body of both loops of `DevmgrServicePowerStateChange`, where `PmNotify` is
`DevHostServiceFullPmNotify`. -/
def notifyHost (state : UInt32) (hostClient : DevHostServiceClnt) : Pass HdfDeviceNode :=
  match hostClient.hostService with
  | some hostService => devHostServiceFullPmNotify isValidPowerState isPowerWakeState
      powerStateChange (some hostService) state
  | none => fun notified => (hdfSuccess, notified)

/-- `DevmgrServicePowerStateChange` -/
def devmgrServicePowerStateChange (devmgrService : Option DevmgrService) (powerState : UInt32) :
    Pass HdfDeviceNode := fun notified =>
  match devmgrService with
  | none => (hdfErrInvalidObject, notified)
  | some devmgr =>
    if ¬ isValidPowerState powerState then (hdfErrInvalidParam, notified)
    else if isPowerWakeState powerState then
      Pass.each hdfFailure (notifyHost isValidPowerState isPowerWakeState powerStateChange
        powerState) devmgr.hosts notified
    else
      Pass.each hdfFailure (notifyHost isValidPowerState isPowerWakeState powerStateChange
        powerState) devmgr.hosts.reverse notified

end Code

/-! ## The order -/

/-- A handler is called for the nodes that have a power token. -/
def HdfDeviceNode.powered (deviceNode : HdfDeviceNode) : Bool := deviceNode.powerToken.isSome

/-- The nodes of a device that are told, in the order of its list. -/
def HdfDevice.wakeOrder (device : HdfDevice) : List HdfDeviceNode :=
  device.devNodes.filter HdfDeviceNode.powered

/-- The nodes of a host in the order in which they wake up. -/
def DevHostServiceClnt.wakeOrder (hostClient : DevHostServiceClnt) : List HdfDeviceNode :=
  hostClient.hostService.elim [] fun hostService =>
    hostService.devices.reverse.flatMap HdfDevice.wakeOrder

/-- All nodes in the order in which they wake up. -/
def DevmgrService.wakeOrder (devmgr : DevmgrService) : List HdfDeviceNode :=
  devmgr.hosts.flatMap DevHostServiceClnt.wakeOrder

theorem HdfDevice.wakeOrder_eq_flatMap (devNodes : List HdfDeviceNode) :
    devNodes.filter HdfDeviceNode.powered =
      devNodes.flatMap fun deviceNode => if deviceNode.powered then [deviceNode] else [] := by
  induction devNodes with
  | nil => rfl
  | cons deviceNode devNodes ih =>
    rw [List.filter_cons, List.flatMap_cons, ih]
    split <;> rfl

theorem DevHostServiceClnt.wakeOrder_perm (hostClient : DevHostServiceClnt) :
    hostClient.wakeOrder.Perm ((nodesOf [hostClient]).filter HdfDeviceNode.powered) := by
  unfold DevHostServiceClnt.wakeOrder nodesOf
  rw [List.flatMap_singleton]
  cases hostClient.hostService with
  | none => exact List.Perm.refl _
  | some hostService =>
    simp only [Option.elim_some, List.filter_flatMap]
    exact (List.reverse_perm _).flatMap_right _

/-- The nodes that wake up are the powered ones. -/
theorem DevmgrService.wakeOrder_perm (devmgr : DevmgrService) :
    devmgr.wakeOrder.Perm ((nodesOf devmgr.hosts).filter HdfDeviceNode.powered) := by
  unfold DevmgrService.wakeOrder
  generalize devmgr.hosts = hosts
  induction hosts with
  | nil => exact List.Perm.refl _
  | cons hostClient hosts ih =>
    have hcons : nodesOf (hostClient :: hosts) = nodesOf [hostClient] ++ nodesOf hosts := by
      simp [nodesOf]
    rw [List.flatMap_cons, hcons, List.filter_append]
    exact hostClient.wakeOrder_perm.append ih

theorem DevmgrService.count_wakeOrder (devmgr : DevmgrService) (deviceNode : HdfDeviceNode) :
    devmgr.wakeOrder.count deviceNode =
      if deviceNode ∈ nodesOf devmgr.hosts ∧ deviceNode.powered then 1 else 0 := by
  rw [devmgr.wakeOrder_perm.count_eq]
  have hnodup := devmgr.distinct.filter HdfDeviceNode.powered
  split
  case isTrue h => exact List.count_eq_one_of_mem hnodup (List.mem_filter.mpr h)
  case isFalse h => exact List.count_eq_zero.mpr fun hmem => h (List.mem_filter.mp hmem)

/-! ## What the calls visit -/

section Visits

variable {isValidPowerState isPowerWakeState : UInt32 → Bool}
  {powerStateChange : UInt32 → List HdfDeviceNode → HdfDeviceNode → Int} {state : UInt32}

theorem failure_ne_success : hdfFailure ≠ 0 := by decide

theorem covers_changeNode (deviceNode : HdfDeviceNode) :
    Covers (powerStateChange state) (changeNode powerStateChange state deviceNode)
      (if deviceNode.powered then [deviceNode] else []) := by
  unfold changeNode HdfDeviceNode.powered
  cases deviceNode.powerToken with
  | none => exact covers_skip
  | some token => exact covers_visit

theorem covers_device_wake (hwake : isPowerWakeState state) (device : HdfDevice) :
    Covers (powerStateChange state)
      (devHostServiceFullDispatchPowerState isPowerWakeState powerStateChange device state)
      device.wakeOrder := by
  unfold devHostServiceFullDispatchPowerState HdfDevice.wakeOrder
  rw [if_pos hwake, HdfDevice.wakeOrder_eq_flatMap]
  exact covers_each failure_ne_success _ fun deviceNode _ => covers_changeNode deviceNode

theorem covers_device_suspend (hsuspend : ¬ isPowerWakeState state) (device : HdfDevice) :
    Covers (powerStateChange state)
      (devHostServiceFullDispatchPowerState isPowerWakeState powerStateChange device state)
      device.wakeOrder.reverse := by
  unfold devHostServiceFullDispatchPowerState HdfDevice.wakeOrder
  rw [if_neg hsuspend, ← List.filter_reverse, HdfDevice.wakeOrder_eq_flatMap]
  exact covers_each failure_ne_success _ fun deviceNode _ => covers_changeNode deviceNode

theorem covers_host_wake (hvalid : isValidPowerState state) (hwake : isPowerWakeState state)
    (hostClient : DevHostServiceClnt) :
    Covers (powerStateChange state)
      (notifyHost isValidPowerState isPowerWakeState powerStateChange state hostClient)
      hostClient.wakeOrder := by
  unfold notifyHost DevHostServiceClnt.wakeOrder
  cases hostClient.hostService with
  | none => exact covers_skip
  | some hostService =>
    intro notified
    simp only [devHostServiceFullPmNotify, hvalid, hwake, not_true_eq_false, if_false, if_true]
    exact covers_each failure_ne_success _ (fun device _ => covers_device_wake hwake device)
      notified

theorem covers_host_suspend (hvalid : isValidPowerState state)
    (hsuspend : ¬ isPowerWakeState state) (hostClient : DevHostServiceClnt) :
    Covers (powerStateChange state)
      (notifyHost isValidPowerState isPowerWakeState powerStateChange state hostClient)
      hostClient.wakeOrder.reverse := by
  unfold notifyHost DevHostServiceClnt.wakeOrder
  cases hostClient.hostService with
  | none => exact covers_skip
  | some hostService =>
    intro notified
    -- the reverse of the reverse of the list of devices is the list, which is walked here
    rw [Option.elim_some, List.reverse_flatMap, List.reverse_reverse]
    simp only [devHostServiceFullPmNotify, hvalid, hsuspend, not_true_eq_false, if_false]
    exact covers_each failure_ne_success _
      (fun device _ => covers_device_suspend hsuspend device) notified

theorem covers_devmgr_wake (hvalid : isValidPowerState state) (hwake : isPowerWakeState state)
    (devmgr : DevmgrService) :
    Covers (powerStateChange state)
      (devmgrServicePowerStateChange isValidPowerState isPowerWakeState powerStateChange
        (some devmgr) state)
      devmgr.wakeOrder := by
  intro notified
  simp only [devmgrServicePowerStateChange, hvalid, hwake, not_true_eq_false, if_false, if_true]
  exact covers_each failure_ne_success _
    (fun hostClient _ => covers_host_wake hvalid hwake hostClient) notified

theorem covers_devmgr_suspend (hvalid : isValidPowerState state)
    (hsuspend : ¬ isPowerWakeState state) (devmgr : DevmgrService) :
    Covers (powerStateChange state)
      (devmgrServicePowerStateChange isValidPowerState isPowerWakeState powerStateChange
        (some devmgr) state)
      devmgr.wakeOrder.reverse := by
  intro notified
  rw [DevmgrService.wakeOrder, List.reverse_flatMap]
  simp only [devmgrServicePowerStateChange, hvalid, hsuspend, not_true_eq_false, if_false]
  exact covers_each failure_ne_success _
    (fun hostClient _ => covers_host_suspend hvalid hsuspend hostClient) notified

/-- A call with a valid state visits the powered nodes in the order of waking up or in its
reverse. -/
theorem covers_devmgr (hvalid : isValidPowerState state) (devmgr : DevmgrService) :
    Covers (powerStateChange state)
      (devmgrServicePowerStateChange isValidPowerState isPowerWakeState powerStateChange
        (some devmgr) state)
      (if isPowerWakeState state then devmgr.wakeOrder else devmgr.wakeOrder.reverse) := by
  split
  case isTrue hwake => exact covers_devmgr_wake hvalid hwake devmgr
  case isFalse hsuspend => exact covers_devmgr_suspend hvalid hsuspend devmgr

/-- **Power states reach every node**: a state of suspending tells the nodes in the reverse of the
order of a state of waking up. Either tells each powered node of a host with a service exactly
once, whatever the handlers answer, and succeeds just in case each handler does. -/
theorem power_state_propagation (devmgr : DevmgrService) {wake suspend : UInt32}
    (hwake : isValidPowerState wake ∧ isPowerWakeState wake)
    (hsuspend : isValidPowerState suspend ∧ ¬ isPowerWakeState suspend) :
    let change := devmgrServicePowerStateChange isValidPowerState isPowerWakeState powerStateChange
      (some devmgr)
    (change suspend []).2 = (change wake []).2.reverse ∧
      ∀ state, isValidPowerState state →
        (∀ deviceNode, (change state []).2.count deviceNode =
          if deviceNode ∈ nodesOf devmgr.hosts ∧ deviceNode.powered then 1 else 0) ∧
        ((change state []).1 = hdfSuccess ↔
          Succeeds (powerStateChange state) [] (change state []).2) := by
  intro change
  have hvisits : ∀ state, isValidPowerState state → (change state []).2 =
      if isPowerWakeState state then devmgr.wakeOrder else devmgr.wakeOrder.reverse :=
    fun state hvalid => ((covers_devmgr hvalid devmgr) []).1
  refine ⟨?_, ?_⟩
  · rw [hvisits wake hwake.1, hvisits suspend hsuspend.1, if_pos hwake.2, if_neg hsuspend.2]
  · intro state hvalid
    refine ⟨fun deviceNode => ?_, ?_⟩
    · rw [hvisits state hvalid, ← devmgr.count_wakeOrder deviceNode]
      split
      · rfl
      · exact List.count_reverse
    · rw [hvisits state hvalid]
      exact ((covers_devmgr hvalid devmgr) []).2

end Visits

/-- Two hosts with a service and one without. The first device of the first host has a node without
a power token. -/
def threeHosts : DevmgrService where
  hosts := [
    { hostService := some { devices := [
      { devNodes := [⟨1, some 1⟩, ⟨2, none⟩, ⟨3, some 3⟩] }, { devNodes := [⟨4, some 4⟩] }] } },
    { hostService := none },
    { hostService := some { devices := [{ devNodes := [⟨5, some 5⟩] }] } }]
  distinct := by decide

/-- The states 0 and 2 are states of waking up, and the node 3 fails to be suspended. -/
theorem power_state_propagation_threeHosts :
    let change := devmgrServicePowerStateChange (fun state => state < 4)
      (fun state => state == 0 || state == 2)
      (fun state _ deviceNode => if state = 3 ∧ deviceNode.address = 3 then hdfFailure else 0)
      (some threeHosts)
    (change 2 []).2.map HdfDeviceNode.address = [4, 1, 3, 5] ∧ (change 2 []).1 = hdfSuccess ∧
      (change 3 []).2 = (change 2 []).2.reverse ∧ (change 3 []).1 = hdfFailure := by
  refine ⟨by decide, by decide, ?_, by decide⟩
  exact (power_state_propagation threeHosts (by decide) (by decide)).1

end Power

end Devmgr
