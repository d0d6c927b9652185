import Mathlib.Data.Finset.Erase
import Mathlib.Data.Finset.Insert
import OpenHarmonyMac.Infra.Transition

/-!
# The display composer service

`DisplayComposerService` loads the functions of a VDI library and serves each of its operations by
one of them. The library and the classes of the device cache and of the command responser are not
here: their answers are arguments of the operations, and so are those of the VDI functions.
Arguments that an operation only passes on, and results that it only passes back, are left out.

* `construct` — the constructor with its partial failures
* `Event.serve` — an operation of the service, or a call of one of its handlers by the VDI
* `service` — the service with the VDI and the device caches as a transition system
-/

namespace Composer

open Infra

/-- `HDF_SUCCESS`, `HDF_FAILURE`, `HDF_ERR_NOT_SUPPORT`, `DISPLAY_NOT_SUPPORT` and the other codes
that a VDI function may return. -/
inductive Code
  | success
  | failure
  | errNotSupport
  | displayNotSupport
  | other (n : Int)
  deriving DecidableEq, Repr

abbrev DevId := UInt32

abbrev LayerId := UInt32

/-- A callback object of a client. -/
abbrev Callback := Nat

/-! ## The functions of the VDI -/

/-- The function pointers of `DisplayComposerVdiAdapter`. Each is loaded under its own name. -/
inductive VdiFn
  | regHotPlugCallback | getDisplayCapability | getDisplaySupportedModes | getDisplayMode
  | setDisplayMode | getDisplayPowerStatus | setDisplayPowerStatus | getDisplayBacklight
  | setDisplayBacklight | getDisplayProperty | getDisplayCompChange | setDisplayClientCrop
  | setDisplayClientBuffer | setDisplayClientDamage | setDisplayVsyncEnabled
  | regDisplayVBlankCallback | getDisplayReleaseFence | createVirtualDisplay
  | destroyVirtualDisplay | setVirtualDisplayBuffer | setDisplayProperty | commit | createLayer
  | destroyLayer | prepareDisplayLayers | setLayerAlpha | setLayerRegion | setLayerCrop
  | setLayerZorder | setLayerPreMulti | setLayerTransformMode | setLayerDirtyRegion
  | setLayerVisibleRegion | setLayerBuffer | setLayerCompositionType | setLayerBlendType
  | setLayerMaskInfo | setLayerColor | regSeamlessChangeCallback | getDisplaySupportedModesExt
  | setDisplayModeAsync | getDisplayVBlankPeriod | setLayerPerFrameParameter
  | getSupportedLayerPerFrameParameterKey | setDisplayOverlayResolution | regRefreshCallback
  | getDisplaySupportedColorGamuts | getHDRCapabilityInfos | regDisplayVBlankIdleCallback
  | setDisplayConstraint | setHardwareCursorPosition | enableHardwareCursorStats
  | getHardwareCursorStats | setDisplayActiveRegion
  deriving DecidableEq, Repr

/-- A function pointer of the adapter: as the allocation left it, null, or a function of the
library. -/
inductive VdiPointer
  | unset
  | null
  | loaded
  deriving DecidableEq, Repr

abbrev VdiAdapter := VdiFn → VdiPointer

/-- The symbols that a VDI library has. -/
abbrev VdiLibrary := VdiFn → Bool

/-- What the build and the header of the adapter decide: whether there is a default library, and
whether a pointer that nothing has set reads as null. -/
structure Platform where
  defaultLibraryEnable : Bool
  unsetIsNull : VdiFn → Bool

/-- `LoadVdiFuncPart1`. -/
def vdiFuncPart1 : List VdiFn :=
  [.regHotPlugCallback, .getDisplayCapability, .getDisplaySupportedModes, .getDisplayMode,
    .setDisplayMode, .getDisplayPowerStatus, .setDisplayPowerStatus, .getDisplayBacklight,
    .setDisplayBacklight, .getDisplayProperty, .getDisplayCompChange, .setDisplayClientCrop,
    .setDisplayClientBuffer, .setDisplayClientDamage, .setDisplayVsyncEnabled,
    .regDisplayVBlankCallback, .getDisplayReleaseFence, .createVirtualDisplay,
    .destroyVirtualDisplay, .setVirtualDisplayBuffer, .setDisplayProperty, .commit, .createLayer,
    .destroyLayer, .prepareDisplayLayers, .setLayerAlpha, .setLayerRegion]

/-- `LoadVdiFuncPart2`. -/
def vdiFuncPart2 : List VdiFn :=
  [.setLayerCrop, .setLayerZorder, .setLayerPreMulti, .setLayerTransformMode,
    .setLayerDirtyRegion, .setLayerVisibleRegion, .setLayerBuffer, .setLayerCompositionType,
    .setLayerBlendType, .setLayerMaskInfo, .setLayerColor, .regSeamlessChangeCallback,
    .getDisplaySupportedModesExt, .setDisplayModeAsync, .getDisplayVBlankPeriod,
    .setLayerPerFrameParameter, .getSupportedLayerPerFrameParameterKey,
    .setDisplayOverlayResolution, .regRefreshCallback, .getDisplaySupportedColorGamuts,
    .getHDRCapabilityInfos, .regDisplayVBlankIdleCallback, .setDisplayConstraint,
    .setHardwareCursorPosition, .enableHardwareCursorStats, .getHardwareCursorStats]

/-- `LoadVdiFuncPart3`. -/
def vdiFuncPart3 : List VdiFn :=
  [.setDisplayActiveRegion]

/-- The pointers that `LoadVdiAdapter` checks. -/
def mandatoryFuncs : List VdiFn :=
  [.regHotPlugCallback, .getDisplayCapability, .getDisplaySupportedModes, .getDisplayMode,
    .setDisplayMode, .getDisplayPowerStatus, .setDisplayPowerStatus, .getDisplayBacklight,
    .setDisplayBacklight, .getDisplayProperty, .getDisplayCompChange, .setDisplayClientCrop,
    .setDisplayClientBuffer, .setDisplayClientDamage, .setDisplayVsyncEnabled,
    .regDisplayVBlankCallback, .getDisplayReleaseFence, .createVirtualDisplay,
    .destroyVirtualDisplay, .setVirtualDisplayBuffer, .setDisplayProperty, .commit, .createLayer,
    .destroyLayer, .prepareDisplayLayers, .setLayerAlpha, .setLayerRegion, .setLayerCrop,
    .setLayerZorder, .setLayerPreMulti, .setLayerTransformMode, .setLayerDirtyRegion,
    .setLayerVisibleRegion, .setLayerBuffer, .setLayerCompositionType, .setLayerBlendType,
    .setLayerMaskInfo, .setLayerColor]

namespace VdiAdapter

/-- A check of a pointer against null. -/
def isNull (a : VdiAdapter) (p : Platform) (f : VdiFn) : Bool :=
  match a f with
  | .unset => p.unsetIsNull f
  | .null => true
  | .loaded => false

/-- `dlsym` for each of the functions. -/
def load (a : VdiAdapter) (lib : VdiLibrary) (fs : List VdiFn) : VdiAdapter :=
  fs.foldl (fun a f => Function.update a f (if lib f then .loaded else .null)) a

end VdiAdapter

/-! ## The state -/

/-- The layers that a `DeviceCache` records. -/
structure DeviceCache where
  layers : Finset LayerId
  deriving DecidableEq

/-- The device caches of the one `DeviceCacheManager`. -/
abbrev DeviceCacheManager := DevId → Option DeviceCache

/-- The members of `DisplayComposerService`, and of the VDI the callback registered for each
device and the layers of each device. -/
structure DisplayComposerService where
  libHandle : Option VdiLibrary := none
  vdiAdapter : Option VdiAdapter := none
  cacheMgr : Option DeviceCacheManager := none
  cmdResponser : Option VdiAdapter := none
  currentBacklightLevel : UInt32 := 0
  hotPlugCb : Option Callback := none
  vBlankCb : Option Callback := none
  modeCb : Option Callback := none
  seamlessChangeCb : Option Callback := none
  refreshCb : Option Callback := none
  vBlankIdleCb : Option Callback := none
  registered : DevId → Option Callback := fun _ => none
  vdiLayers : DevId → Finset LayerId := fun _ => ∅

/-- What an operation returns, and the callback object that a handler calls. -/
structure Reply where
  code : Code := .success
  level : Option UInt32 := none
  fences : List Int := []
  layerId : Option LayerId := none
  called : Option Callback := none
  deriving DecidableEq, Repr

/-- The result of an operation, or the pointer without a function that it calls. -/
abbrev Outcome := Except VdiFn (Reply × DisplayComposerService)

/-! ## The constructor -/

/-- What the steps of the constructor find: the memory for the adapter, the libraries that
`dlopen` finds, the instance of the cache manager and the memory for the responser. -/
structure Construction where
  adapterAllocated : Bool := true
  defaultLibrary : Option VdiLibrary := none
  vdiLibrary : Option VdiLibrary := none
  cacheMgr : Option DeviceCacheManager := some fun _ => none
  responserCreated : Bool := true

/-- The library that `LoadVdiSo` opens. -/
def Construction.library (p : Platform) (o : Construction) : Option VdiLibrary :=
  if p.defaultLibraryEnable then o.defaultLibrary <|> o.vdiLibrary else o.vdiLibrary

namespace DisplayComposerService

variable (p : Platform) (o : Construction) (s : DisplayComposerService)

/-- `ExitService`. -/
def exitService : DisplayComposerService := { s with vdiAdapter := none, libHandle := none }

/-- `LoadVdiSo`, with the handle that it leaves in `libHandle_`. -/
def loadVdiSo : Code × DisplayComposerService :=
  (if (o.library p).isNone then .failure else .success, { s with libHandle := o.library p })

/-- `LoadVdiAdapter`, which leaves the pointers in the adapter also when it fails. -/
def loadVdiAdapter : Code × DisplayComposerService :=
  match s.vdiAdapter, s.libHandle with
  | some a, some lib =>
    let a := ((a.load lib vdiFuncPart1).load lib vdiFuncPart2).load lib vdiFuncPart3
    (if mandatoryFuncs.any (a.isNull p) then .failure else .success, { s with vdiAdapter := some a })
  | _, _ => (.failure, s)

/-- `CreateResponser`. -/
def createResponser : Code × DisplayComposerService :=
  let s := { s with cacheMgr := o.cacheMgr }
  if s.cacheMgr.isNone then (.failure, s)
  else
    match s.vdiAdapter with
    | none => (.failure, s)
    | some a =>
      if o.responserCreated then (.success, { s with cmdResponser := some a })
      else (.failure, s)

/-- The constructor `DisplayComposerService()`. -/
def construct : DisplayComposerService :=
  let s : DisplayComposerService :=
    { vdiAdapter := if o.adapterAllocated then some fun _ => .unset else none }
  let r := s.loadVdiSo p o
  if r.1 ≠ .success then r.2
  else
    let r := r.2.loadVdiAdapter p
    if r.1 ≠ .success then r.2.exitService
    else
      let r := r.2.createResponser o
      if r.1 ≠ .success then r.2.exitService
      else r.2

/-! ## The shapes of an operation -/

/-- `CHECK_NULLPOINTER_RETURN_VALUE(vdiAdapter_, HDF_FAILURE)`. -/
def withAdapter (k : VdiAdapter → Outcome) : Outcome :=
  match s.vdiAdapter with
  | none => .ok ({ code := .failure }, s)
  | some a => k a

/-- A call of `vdiAdapter_->f`, with what comes after it. -/
def callVdi (a : VdiAdapter) (f : VdiFn) (k : Outcome) : Outcome :=
  if a f = .loaded then k else .error f

/-- The results that an operation keeps when only success is one. -/
def chkSuccess (ret : Code) : Code := if ret ≠ .success then .failure else ret

/-- The results of an operation that may not be supported. -/
def chkSupported (ret : Code) : Code :=
  if ret ≠ .success ∧ ret ≠ .errNotSupport then .failure else ret

/-- The same, where `DISPLAY_NOT_SUPPORT` is translated first. -/
def chkNotSupport (ret : Code) : Code :=
  if ret = .displayNotSupport then .errNotSupport else chkSupported ret

/-- An operation on a mandatory pointer: the call, the check of its result and the state `next`. -/
def mandatoryOp (f : VdiFn) (chk : Code → Code) (ret : Code) (next : DisplayComposerService) :
    Outcome :=
  s.withAdapter fun a => callVdi a f (.ok ({ code := chk ret }, next))

/-- An operation on an optional pointer, which is checked before the call. -/
def optionalOp (f : VdiFn) (chk : Code → Code) (ret : Code) (next : DisplayComposerService) :
    Outcome :=
  s.withAdapter fun a =>
    if a.isNull p f then .ok ({ code := .errNotSupport }, s)
    else callVdi a f (.ok ({ code := chk ret }, next))

/-- `cacheMgr_` and the cache of the device are looked up, both with a check. -/
def withDeviceCache (devId : DevId)
    (k : DeviceCacheManager → DeviceCache → Reply × DisplayComposerService) :
    Reply × DisplayComposerService :=
  match s.cacheMgr with
  | none => ({ code := .failure }, s)
  | some caches =>
    match caches devId with
    | none => ({ code := .failure }, s)
    | some cache => k caches cache

/-! ## The operations on mandatory pointers -/

def getDisplayCapability (ret : Code) : Outcome :=
  s.mandatoryOp .getDisplayCapability chkSuccess ret s

def getDisplaySupportedModes (ret : Code) : Outcome :=
  s.mandatoryOp .getDisplaySupportedModes chkSuccess ret s

def getDisplayMode (ret : Code) : Outcome :=
  s.mandatoryOp .getDisplayMode chkSuccess ret s

def setDisplayMode (ret : Code) : Outcome :=
  s.mandatoryOp .setDisplayMode chkSuccess ret s

def getDisplayPowerStatus (ret : Code) : Outcome :=
  s.mandatoryOp .getDisplayPowerStatus chkSuccess ret s

def setDisplayPowerStatus (ret : Code) : Outcome :=
  s.mandatoryOp .setDisplayPowerStatus chkSuccess ret s

def getDisplayProperty (ret : Code) : Outcome :=
  s.mandatoryOp .getDisplayProperty chkNotSupport ret s

def setDisplayClientCrop (ret : Code) : Outcome :=
  s.mandatoryOp .setDisplayClientCrop chkSuccess ret s

def setDisplayVsyncEnabled (ret : Code) : Outcome :=
  s.mandatoryOp .setDisplayVsyncEnabled chkSuccess ret s

def createVirtualDisplay (ret : Code) : Outcome :=
  s.mandatoryOp .createVirtualDisplay chkSuccess ret s

def destroyVirtualDisplay (ret : Code) : Outcome :=
  s.mandatoryOp .destroyVirtualDisplay chkSuccess ret s

def setDisplayProperty (ret : Code) : Outcome :=
  s.mandatoryOp .setDisplayProperty chkSuccess ret s

/-- `RegHotPlugCallback` stores the callback before the call. -/
def regHotPlugCallback (cb : Option Callback) (ret : Code) : Outcome :=
  s.mandatoryOp .regHotPlugCallback chkSuccess ret { s with hotPlugCb := cb }

/-- `SetDisplayBacklight` remembers the level that the VDI took. -/
def setDisplayBacklight (level : UInt32) (ret : Code) : Outcome :=
  s.mandatoryOp .setDisplayBacklight chkSuccess ret
    (if ret = .success then { s with currentBacklightLevel := level } else s)

/-- `GetDisplayBacklight` answers with the remembered level when the VDI has none. -/
def getDisplayBacklight (level : UInt32) (ret : Code) : Outcome :=
  s.withAdapter fun a =>
    callVdi a .getDisplayBacklight
      (if ret = .displayNotSupport then .ok ({ level := some s.currentBacklightLevel }, s)
      else .ok ({ code := ret, level := some level }, s))

/-- `GetDisplayReleaseFence` returns what the VDI returns, and wraps each fence. -/
def getDisplayReleaseFence (outFences : List Int) (ret : Code) : Outcome :=
  s.withAdapter fun a =>
    callVdi a .getDisplayReleaseFence (.ok ({ code := ret, fences := outFences }, s))

/-- `SetVirtualDisplayBuffer` checks its arguments, the adapter and the handle of the buffer. -/
def setVirtualDisplayBuffer (buffer fence handle : Bool) (ret : Code) : Outcome :=
  if !buffer || !fence then .ok ({ code := .failure }, s)
  else
    s.withAdapter fun a =>
      if !handle then .ok ({ code := .failure }, s)
      else callVdi a .setVirtualDisplayBuffer (.ok ({ code := chkSuccess ret }, s))

/-- The VDI has taken the raw pointer for the device, and the service has stored its reference. -/
def vBlankRegistered (devId : DevId) (cb : Option Callback) : DisplayComposerService :=
  { s with vBlankCb := cb, registered := Function.update s.registered devId cb }

@[simp] theorem vBlankRegistered_vBlankCb (devId : DevId) (cb : Option Callback) :
    (s.vBlankRegistered devId cb).vBlankCb = cb := rfl

@[simp] theorem vBlankRegistered_registered (devId : DevId) (cb : Option Callback) :
    (s.vBlankRegistered devId cb).registered = Function.update s.registered devId cb := rfl

/-- `RegDisplayVBlankCallback`. The VDI keeps for each device the last pointer that it took. -/
def regDisplayVBlankCallback (devId : DevId) (cb : Option Callback) (ret : Code) : Outcome :=
  s.mandatoryOp .regDisplayVBlankCallback chkSuccess ret
    (if ret = .success then s.vBlankRegistered devId cb else s)

/-! ## The operations on layers -/

/-- The VDI has created a layer. -/
def layerCreated (devId : DevId) (layerId : LayerId) : DisplayComposerService :=
  { s with vdiLayers := Function.update s.vdiLayers devId (insert layerId (s.vdiLayers devId)) }

/-- The VDI has destroyed a layer. -/
def layerDestroyed (devId : DevId) (layerId : LayerId) : DisplayComposerService :=
  { s with vdiLayers := Function.update s.vdiLayers devId ((s.vdiLayers devId).erase layerId) }

/-- The cache of a device is replaced. -/
def setDeviceCache (caches : DeviceCacheManager) (devId : DevId) (cache : DeviceCache) :
    DisplayComposerService :=
  { s with cacheMgr := some (Function.update caches devId (some cache)) }

/-- `AddLayerCache` of a device cache, with the result of the class. -/
def addLayerCache (devId : DevId) (layerId : LayerId) (cached : Code) :
    Reply × DisplayComposerService :=
  s.withDeviceCache devId fun caches cache =>
    ({ code := cached, layerId := some layerId },
      if cached = .success then
        s.setDeviceCache caches devId { cache with layers := insert layerId cache.layers }
      else s)

/-- `RemoveLayerCache` of a device cache, with the result of the class. -/
def removeLayerCache (devId : DevId) (layerId : LayerId) (cached : Code) :
    Reply × DisplayComposerService :=
  s.withDeviceCache devId fun caches cache =>
    ({ code := cached },
      if cached = .success then
        s.setDeviceCache caches devId { cache with layers := cache.layers.erase layerId }
      else s)

/-- `CreateLayer`: the layer of the VDI first, its cache second. -/
def createLayer (devId : DevId) (layerId : LayerId) (ret cached : Code) : Outcome :=
  s.withAdapter fun a =>
    callVdi a .createLayer
      (if ret ≠ .success then .ok ({ code := .failure }, s)
      else .ok ((s.layerCreated devId layerId).addLayerCache devId layerId cached))

/-- `DestroyLayer`: the layer of the VDI first, its cache second. -/
def destroyLayer (devId : DevId) (layerId : LayerId) (ret cached : Code) : Outcome :=
  s.withAdapter fun a =>
    callVdi a .destroyLayer
      (if ret ≠ .success then .ok ({ code := .failure }, s)
      else .ok ((s.layerDestroyed devId layerId).removeLayerCache devId layerId cached))

/-! ## The operations on optional pointers -/

def setHardwareCursorPosition (ret : Code) : Outcome :=
  s.optionalOp p .setHardwareCursorPosition chkSupported ret s

def enableHardwareCursorStats (ret : Code) : Outcome :=
  s.optionalOp p .enableHardwareCursorStats chkSupported ret s

def getHardwareCursorStats (ret : Code) : Outcome :=
  s.optionalOp p .getHardwareCursorStats chkSupported ret s

def getDisplaySupportedModesExt (ret : Code) : Outcome :=
  s.optionalOp p .getDisplaySupportedModesExt chkNotSupport ret s

def getDisplayVBlankPeriod (ret : Code) : Outcome :=
  s.optionalOp p .getDisplayVBlankPeriod chkNotSupport ret s

def setLayerPerFrameParameter (ret : Code) : Outcome :=
  s.optionalOp p .setLayerPerFrameParameter chkNotSupport ret s

def getSupportedLayerPerFrameParameterKey (ret : Code) : Outcome :=
  s.optionalOp p .getSupportedLayerPerFrameParameterKey chkNotSupport ret s

def setDisplayOverlayResolution (ret : Code) : Outcome :=
  s.optionalOp p .setDisplayOverlayResolution chkNotSupport ret s

def getDisplaySupportedColorGamuts (ret : Code) : Outcome :=
  s.optionalOp p .getDisplaySupportedColorGamuts chkNotSupport ret s

def getHDRCapabilityInfos (ret : Code) : Outcome :=
  s.optionalOp p .getHDRCapabilityInfos chkNotSupport ret s

/-- `SetDisplayActiveRegion` returns what the VDI returns. -/
def setDisplayActiveRegion (ret : Code) : Outcome :=
  s.optionalOp p .setDisplayActiveRegion id ret s

def regSeamlessChangeCallback (cb : Option Callback) (ret : Code) : Outcome :=
  s.optionalOp p .regSeamlessChangeCallback chkNotSupport ret
    (if ret = .success then { s with seamlessChangeCb := cb } else s)

def setDisplayModeAsync (cb : Option Callback) (ret : Code) : Outcome :=
  s.optionalOp p .setDisplayModeAsync chkNotSupport ret
    (if ret = .success then { s with modeCb := cb } else s)

def regRefreshCallback (cb : Option Callback) (ret : Code) : Outcome :=
  s.optionalOp p .regRefreshCallback chkNotSupport ret
    (if ret = .success then { s with refreshCb := cb } else s)

/-- `RegDisplayVBlankIdleCallback` stores the callback before the call. -/
def regDisplayVBlankIdleCallback (cb : Option Callback) (ret : Code) : Outcome :=
  s.optionalOp p .regDisplayVBlankIdleCallback chkSupported ret { s with vBlankIdleCb := cb }

/-! ## The operations on the caches and on the responser -/

/-- `SetClientBufferCacheCount`. -/
def setClientBufferCacheCount (devId : DevId) (ret : Code) : Outcome :=
  s.withAdapter fun _ => .ok (s.withDeviceCache devId fun _ _ => ({ code := chkSuccess ret }, s))

/-- `ClearClientBuffer`. -/
def clearClientBuffer (devId : DevId) (ret : Code) : Outcome :=
  .ok (s.withDeviceCache devId fun _ _ => ({ code := ret }, s))

/-- `ClearLayerBuffer`. -/
def clearLayerBuffer (devId : DevId) (ret : Code) : Outcome :=
  .ok (s.withDeviceCache devId fun _ _ => ({ code := ret }, s))

/-- A call of the responser, which calls these functions of the adapter it was created with. -/
def withResponser (calls : List VdiFn) (ret : Code) : Outcome :=
  match s.cmdResponser with
  | none => .ok ({ code := .failure }, s)
  | some a => calls.foldr (callVdi a) (.ok ({ code := chkSuccess ret }, s))

/-- `InitCmdRequest`, which checks the queue first. -/
def initCmdRequest (request : Bool) (calls : List VdiFn) (ret : Code) : Outcome :=
  if !request then .ok ({ code := .failure }, s) else s.withResponser calls ret

def cmdRequest (calls : List VdiFn) (ret : Code) : Outcome := s.withResponser calls ret

def getCmdReply (calls : List VdiFn) (ret : Code) : Outcome := s.withResponser calls ret

/-! ## The handlers that the VDI calls -/

/-- `OnHotPlug`: the cache of the device is added or removed, if the class does so, and the
callback is called. -/
def onHotPlug (outputId : DevId) (connected : Bool) (ret : Code) : Outcome :=
  match s.cacheMgr with
  | none => .ok ({}, s)
  | some caches =>
    let cache := if connected then some ((caches outputId).getD { layers := ∅ }) else none
    .ok ({ called := s.hotPlugCb },
      if ret = .success then { s with cacheMgr := some (Function.update caches outputId cache) }
      else s)

/-- `OnVBlank`, with the pointer that the VDI has for the device. -/
def onVBlank (devId : DevId) : Outcome := .ok ({ called := s.registered devId }, s)

end DisplayComposerService

/-! ## The service as a system -/

/-- An operation of the service with the answers of what it calls, or a call by the VDI. -/
inductive Event
  | getDisplayCapability (ret : Code)
  | getDisplaySupportedModes (ret : Code)
  | getDisplayMode (ret : Code)
  | setDisplayMode (ret : Code)
  | getDisplayPowerStatus (ret : Code)
  | setDisplayPowerStatus (ret : Code)
  | getDisplayProperty (ret : Code)
  | setDisplayClientCrop (ret : Code)
  | setDisplayVsyncEnabled (ret : Code)
  | createVirtualDisplay (ret : Code)
  | destroyVirtualDisplay (ret : Code)
  | setDisplayProperty (ret : Code)
  | regHotPlugCallback (cb : Option Callback) (ret : Code)
  | setDisplayBacklight (level : UInt32) (ret : Code)
  | getDisplayBacklight (level : UInt32) (ret : Code)
  | getDisplayReleaseFence (outFences : List Int) (ret : Code)
  | setVirtualDisplayBuffer (buffer fence handle : Bool) (ret : Code)
  | regDisplayVBlankCallback (devId : DevId) (cb : Option Callback) (ret : Code)
  | createLayer (devId : DevId) (layerId : LayerId) (ret cached : Code)
  | destroyLayer (devId : DevId) (layerId : LayerId) (ret cached : Code)
  | setHardwareCursorPosition (ret : Code)
  | enableHardwareCursorStats (ret : Code)
  | getHardwareCursorStats (ret : Code)
  | getDisplaySupportedModesExt (ret : Code)
  | getDisplayVBlankPeriod (ret : Code)
  | setLayerPerFrameParameter (ret : Code)
  | getSupportedLayerPerFrameParameterKey (ret : Code)
  | setDisplayOverlayResolution (ret : Code)
  | getDisplaySupportedColorGamuts (ret : Code)
  | getHDRCapabilityInfos (ret : Code)
  | setDisplayActiveRegion (ret : Code)
  | regSeamlessChangeCallback (cb : Option Callback) (ret : Code)
  | setDisplayModeAsync (cb : Option Callback) (ret : Code)
  | regRefreshCallback (cb : Option Callback) (ret : Code)
  | regDisplayVBlankIdleCallback (cb : Option Callback) (ret : Code)
  | setClientBufferCacheCount (devId : DevId) (ret : Code)
  | clearClientBuffer (devId : DevId) (ret : Code)
  | clearLayerBuffer (devId : DevId) (ret : Code)
  | initCmdRequest (request : Bool) (calls : List VdiFn) (ret : Code)
  | cmdRequest (calls : List VdiFn) (ret : Code)
  | getCmdReply (calls : List VdiFn) (ret : Code)
  | onHotPlug (outputId : DevId) (connected : Bool) (ret : Code)
  | onVBlank (devId : DevId)
  deriving DecidableEq, Repr

namespace Event

variable (p : Platform) (s : DisplayComposerService)

/-- The operation that an event stands for. -/
def serve : Event → Outcome
  | .getDisplayCapability ret => s.getDisplayCapability ret
  | .getDisplaySupportedModes ret => s.getDisplaySupportedModes ret
  | .getDisplayMode ret => s.getDisplayMode ret
  | .setDisplayMode ret => s.setDisplayMode ret
  | .getDisplayPowerStatus ret => s.getDisplayPowerStatus ret
  | .setDisplayPowerStatus ret => s.setDisplayPowerStatus ret
  | .getDisplayProperty ret => s.getDisplayProperty ret
  | .setDisplayClientCrop ret => s.setDisplayClientCrop ret
  | .setDisplayVsyncEnabled ret => s.setDisplayVsyncEnabled ret
  | .createVirtualDisplay ret => s.createVirtualDisplay ret
  | .destroyVirtualDisplay ret => s.destroyVirtualDisplay ret
  | .setDisplayProperty ret => s.setDisplayProperty ret
  | .regHotPlugCallback cb ret => s.regHotPlugCallback cb ret
  | .setDisplayBacklight level ret => s.setDisplayBacklight level ret
  | .getDisplayBacklight level ret => s.getDisplayBacklight level ret
  | .getDisplayReleaseFence outFences ret => s.getDisplayReleaseFence outFences ret
  | .setVirtualDisplayBuffer buffer fence handle ret =>
    s.setVirtualDisplayBuffer buffer fence handle ret
  | .regDisplayVBlankCallback devId cb ret => s.regDisplayVBlankCallback devId cb ret
  | .createLayer devId layerId ret cached => s.createLayer devId layerId ret cached
  | .destroyLayer devId layerId ret cached => s.destroyLayer devId layerId ret cached
  | .setHardwareCursorPosition ret => s.setHardwareCursorPosition p ret
  | .enableHardwareCursorStats ret => s.enableHardwareCursorStats p ret
  | .getHardwareCursorStats ret => s.getHardwareCursorStats p ret
  | .getDisplaySupportedModesExt ret => s.getDisplaySupportedModesExt p ret
  | .getDisplayVBlankPeriod ret => s.getDisplayVBlankPeriod p ret
  | .setLayerPerFrameParameter ret => s.setLayerPerFrameParameter p ret
  | .getSupportedLayerPerFrameParameterKey ret => s.getSupportedLayerPerFrameParameterKey p ret
  | .setDisplayOverlayResolution ret => s.setDisplayOverlayResolution p ret
  | .getDisplaySupportedColorGamuts ret => s.getDisplaySupportedColorGamuts p ret
  | .getHDRCapabilityInfos ret => s.getHDRCapabilityInfos p ret
  | .setDisplayActiveRegion ret => s.setDisplayActiveRegion p ret
  | .regSeamlessChangeCallback cb ret => s.regSeamlessChangeCallback p cb ret
  | .setDisplayModeAsync cb ret => s.setDisplayModeAsync p cb ret
  | .regRefreshCallback cb ret => s.regRefreshCallback p cb ret
  | .regDisplayVBlankIdleCallback cb ret => s.regDisplayVBlankIdleCallback p cb ret
  | .setClientBufferCacheCount devId ret => s.setClientBufferCacheCount devId ret
  | .clearClientBuffer devId ret => s.clearClientBuffer devId ret
  | .clearLayerBuffer devId ret => s.clearLayerBuffer devId ret
  | .initCmdRequest request calls ret => s.initCmdRequest request calls ret
  | .cmdRequest calls ret => s.cmdRequest calls ret
  | .getCmdReply calls ret => s.getCmdReply calls ret
  | .onHotPlug outputId connected ret => s.onHotPlug outputId connected ret
  | .onVBlank devId => s.onVBlank devId

/-- The functions that the responser calls for an event. -/
def responserCalls : Event → List VdiFn
  | .initCmdRequest _ calls _ | .cmdRequest calls _ | .getCmdReply calls _ => calls
  | _ => []

/-- The responser calls mandatory functions, and optional ones after a check of the pointer. -/
def Checked (e : Event) : Prop :=
  ∀ f ∈ e.responserCalls, f ∈ mandatoryFuncs ∨ ∀ a ∈ s.cmdResponser, a.isNull p f = false

end Event

namespace DisplayComposerService

variable (p : Platform) (s : DisplayComposerService)

/-- The state after an event. A call of a missing function ends the process, and nothing is done
after it. -/
def step (e : Event) : DisplayComposerService :=
  match e.serve p s with
  | .ok (_, t) => t
  | .error _ => s

/-! ### What an event can do to the state -/

/-- The state of a successful event. A failure keeps the state, except where a callback is stored
first or a layer has been created or destroyed. -/
def after : Event → DisplayComposerService
  | .regHotPlugCallback cb _ => { s with hotPlugCb := cb }
  | .setDisplayBacklight level _ => { s with currentBacklightLevel := level }
  | .regDisplayVBlankCallback devId cb _ => s.vBlankRegistered devId cb
  | .createLayer devId layerId _ cached =>
    ((s.layerCreated devId layerId).addLayerCache devId layerId cached).2
  | .destroyLayer devId layerId _ cached =>
    ((s.layerDestroyed devId layerId).removeLayerCache devId layerId cached).2
  | .regSeamlessChangeCallback cb _ => { s with seamlessChangeCb := cb }
  | .setDisplayModeAsync cb _ => { s with modeCb := cb }
  | .regRefreshCallback cb _ => { s with refreshCb := cb }
  | .regDisplayVBlankIdleCallback cb _ => { s with vBlankIdleCb := cb }
  | .onHotPlug outputId connected ret => s.step p (.onHotPlug outputId connected ret)
  | _ => s

/-- An outcome leaves the state as it was, or as `next`. -/
def Reaches (s next : DisplayComposerService) (r : Outcome) : Prop :=
  ∀ reply t, r = .ok (reply, t) → t = s ∨ t = next

variable {p s} {next : DisplayComposerService}

theorem withDeviceCache_induction {P : DisplayComposerService → Prop} {devId : DevId}
    {k : DeviceCacheManager → DeviceCache → Reply × DisplayComposerService} (h : P s)
    (hk : ∀ caches cache, P (k caches cache).2) : P (s.withDeviceCache devId k).2 := by
  unfold withDeviceCache
  split
  · exact h
  · split
    · exact h
    · exact hk _ _

theorem reaches_same (reply : Reply) : Reaches s next (.ok (reply, s)) := by
  intro reply' t h
  cases h
  exact .inl rfl

theorem reaches_next (reply : Reply) : Reaches s next (.ok (reply, next)) := by
  intro reply' t h
  cases h
  exact .inr rfl

theorem reaches_ite {c : Prop} [Decidable c] (reply : Reply) :
    Reaches s next (.ok (reply, if c then next else s)) := by
  split
  · exact reaches_next reply
  · exact reaches_same reply

theorem Reaches.callVdi {a : VdiAdapter} {f : VdiFn} {k : Outcome} (hk : Reaches s next k) :
    Reaches s next (callVdi a f k) := by
  unfold DisplayComposerService.callVdi
  split
  · exact hk
  · intro reply t h
    cases h

theorem Reaches.withAdapter {k : VdiAdapter → Outcome} (hk : ∀ a, Reaches s next (k a)) :
    Reaches s next (s.withAdapter k) := by
  unfold DisplayComposerService.withAdapter
  split
  · exact reaches_same _
  · exact hk _

theorem Reaches.mandatoryOp {f : VdiFn} {chk : Code → Code} {ret : Code}
    {t : DisplayComposerService} (h : ∀ reply, Reaches s next (.ok (reply, t))) :
    Reaches s next (s.mandatoryOp f chk ret t) :=
  .withAdapter fun _ => .callVdi (h _)

theorem Reaches.optionalOp {f : VdiFn} {chk : Code → Code} {ret : Code}
    {t : DisplayComposerService} (h : ∀ reply, Reaches s next (.ok (reply, t))) :
    Reaches s next (s.optionalOp p f chk ret t) := by
  refine .withAdapter fun a => ?_
  split
  · exact reaches_same _
  · exact .callVdi (h _)

theorem reaches_withDeviceCache {devId : DevId}
    {k : DeviceCacheManager → DeviceCache → Reply × DisplayComposerService}
    (hk : ∀ caches cache, (k caches cache).2 = s) :
    Reaches s next (.ok (s.withDeviceCache devId k)) := by
  have h : (s.withDeviceCache devId k).2 = s := @withDeviceCache_induction s (· = s) _ _ rfl hk
  intro reply t ht
  have hstate : (s.withDeviceCache devId k).2 = t := congrArg Prod.snd (Except.ok.inj ht)
  exact .inl (hstate.symm.trans h)

theorem reaches_withResponser (calls : List VdiFn) (ret : Code) :
    Reaches s next (s.withResponser calls ret) := by
  unfold withResponser
  split
  · exact reaches_same _
  · induction calls with
    | nil => exact reaches_same _
    | cons f calls ih => exact .callVdi ih

/-- **An event leaves the state as it was, or as a successful event does.** -/
theorem reaches_serve (e : Event) : Reaches s (s.after p e) (e.serve p s) := by
  cases e with
  | getDisplayCapability | getDisplaySupportedModes | getDisplayMode | setDisplayMode
  | getDisplayPowerStatus | setDisplayPowerStatus | getDisplayProperty | setDisplayClientCrop
  | setDisplayVsyncEnabled | createVirtualDisplay | destroyVirtualDisplay | setDisplayProperty =>
    exact .mandatoryOp reaches_same
  | regHotPlugCallback => exact .mandatoryOp reaches_next
  | setDisplayBacklight | regDisplayVBlankCallback => exact .mandatoryOp reaches_ite
  | getDisplayBacklight level ret =>
    refine .withAdapter fun a => .callVdi ?_
    split <;> exact reaches_same _
  | getDisplayReleaseFence => exact .withAdapter fun a => .callVdi (reaches_same _)
  | setVirtualDisplayBuffer buffer fence handle ret =>
    show Reaches s _ (s.setVirtualDisplayBuffer buffer fence handle ret)
    unfold setVirtualDisplayBuffer
    split
    · exact reaches_same _
    · refine .withAdapter fun a => ?_
      split
      · exact reaches_same _
      · exact .callVdi (reaches_same _)
  | createLayer devId layerId ret cached =>
    refine .withAdapter fun a => .callVdi ?_
    split
    · exact reaches_same _
    · exact reaches_next _
  | destroyLayer devId layerId ret cached =>
    refine .withAdapter fun a => .callVdi ?_
    split
    · exact reaches_same _
    · exact reaches_next _
  | setHardwareCursorPosition | enableHardwareCursorStats | getHardwareCursorStats
  | getDisplaySupportedModesExt | getDisplayVBlankPeriod | setLayerPerFrameParameter
  | getSupportedLayerPerFrameParameterKey | setDisplayOverlayResolution
  | getDisplaySupportedColorGamuts | getHDRCapabilityInfos | setDisplayActiveRegion =>
    exact .optionalOp reaches_same
  | regSeamlessChangeCallback | setDisplayModeAsync | regRefreshCallback =>
    exact .optionalOp reaches_ite
  | regDisplayVBlankIdleCallback => exact .optionalOp reaches_next
  | setClientBufferCacheCount devId ret =>
    exact .withAdapter fun _ => reaches_withDeviceCache fun _ _ => rfl
  | clearClientBuffer | clearLayerBuffer => exact reaches_withDeviceCache fun _ _ => rfl
  | initCmdRequest request calls ret =>
    show Reaches s _ (s.initCmdRequest request calls ret)
    unfold initCmdRequest
    split
    · exact reaches_same _
    · exact reaches_withResponser calls ret
  | cmdRequest calls ret | getCmdReply calls ret => exact reaches_withResponser calls ret
  | onHotPlug outputId connected ret =>
    intro reply t h
    right
    show t = s.step p (.onHotPlug outputId connected ret)
    rw [step, h]
  | onVBlank => exact reaches_same _

theorem step_cases (p : Platform) (s : DisplayComposerService) (e : Event) :
    s.step p e = s ∨ s.step p e = s.after p e := by
  unfold step
  split
  · next reply t h => exact reaches_serve e reply t h
  · exact .inl rfl

/-! ### Calls that the VDI takes -/

/-- The VDI has the function, and the call of it succeeds. -/
def VdiTakes (s : DisplayComposerService) (f : VdiFn) (ret : Code) : Prop :=
  ret = .success ∧ ∃ a ∈ s.vdiAdapter, a f = .loaded

theorem withAdapter_of_takes {f : VdiFn} {ret : Code} (h : s.VdiTakes f ret) (k : Outcome) :
    (s.withAdapter fun a => DisplayComposerService.callVdi a f k) = k := by
  obtain ⟨-, a, ha, hf⟩ := h
  rw [Option.mem_def] at ha
  unfold DisplayComposerService.withAdapter
  rw [ha]
  exact if_pos hf

/-- A call that the VDI does not take leaves the state as it was, if its failure does. -/
theorem state_of_not_takes {f : VdiFn} {ret : Code} (h : ¬ s.VdiTakes f ret) {k : Outcome}
    (hk : ret ≠ .success → Reaches s s k) :
    Reaches s s (s.withAdapter fun a => DisplayComposerService.callVdi a f k) := by
  unfold DisplayComposerService.withAdapter
  split
  · exact reaches_same _
  · next a ha =>
    show Reaches s s (if a f = .loaded then k else .error f)
    split
    · next hf => exact hk fun hret => h ⟨hret, a, ha, hf⟩
    · intro reply t ht
      cases ht

theorem step_of_reaches {e : Event} (h : Reaches s s (e.serve p s)) : s.step p e = s := by
  unfold step
  split
  · next reply t ht => exact (h reply t ht).elim id id
  · rfl

end DisplayComposerService

/-- The service, from the end of its constructor on. -/
def service (p : Platform) : System DisplayComposerService Event where
  init s := ∃ o, s = DisplayComposerService.construct p o
  enabled s e := e.Checked p s
  step := DisplayComposerService.step p

end Composer
