import Mathlib.Data.List.Basic
import Mathlib.Tactic.Ring

/-!
# Messages of the appspawn server

The data the server reads out of a message: the fixed header and the TLVs behind it.
`appspawn_msg.h`, its decoder and the function that takes a message out of a receive buffer
belong to another repository. They are the parameter `MsgLib`, and what a result needs of
them is a hypothesis about it.
-/

namespace Appspawn

/-- `msgType` of the header, as `ProcessRecvMsg` switches on it. -/
inductive MsgType
  | getRenderTerminationStatus
  | spawnNativeProcess
  | appSpawn
  | dump
  | begetCmd
  | begetSpawntime
  | updateMountPoints
  | restartSpawner
  | deviceDebug
  | uninstallDebugHap
  | lockStatus
  | other (value : Nat)
deriving DecidableEq, Repr

/-- The bits of `TLV_MSG_FLAGS` that the server tests or sets. -/
inductive AppFlag
  | ubsanEnabled
  | asanEnabled
  | tsanEnabled
  | hwasanEnabled
  | childProcess
  | debuggable
  | developerMode
deriving DecidableEq, Repr

/-- What `cJSON` finds in a devicedebug request: each field when it has the type asked for. -/
structure DeviceDebugJson where
  app : Option Int
  op : Option String
  /-- `none` when `args` is no object, `some none` when its `signal` is no number. -/
  args : Option (Option Int)
deriving DecidableEq, Repr

/-- `AppSpawnClient` -/
structure AppSpawnClient where
  id : UInt32
  flags : UInt32
deriving DecidableEq, Repr

/-- A message as the server sees it through the header and the TLV accessors. -/
structure AppSpawnMsg where
  msgType : MsgType
  msgLen : Nat
  msgId : Nat
  processName : String
  bundleName : String := ""
  flags : List AppFlag := []
  /-- `uid` of `TLV_DAC_INFO`, when the message has one. -/
  dacUid : Option Nat := none
  /-- `MSG_EXT_NAME_PROCESS_TYPE` -/
  processType : Option String := none
  /-- `MSG_EXT_NAME_BEGET_PID`, read by `atoi`. -/
  begetPid : Option Int := none
  /-- The `devicedebug` text: missing or empty, no JSON, or an object. -/
  devicedebug : Option (Option DeviceDebugJson) := none
  /-- The `lockstatus` text. -/
  lockstatus : Option (List Char) := none
deriving DecidableEq, Repr

/-- `CheckAppMsgFlagsSet` -/
def AppSpawnMsg.checkFlagsSet (m : AppSpawnMsg) (f : AppFlag) : Bool := decide (f ∈ m.flags)

/-- `SetAppSpawnMsgFlag(message, TLV_MSG_FLAGS, f)` -/
def AppSpawnMsg.setFlag (m : AppSpawnMsg) (f : AppFlag) : AppSpawnMsg :=
  { m with flags := f :: m.flags }

/-- What a call of `GetAppSpawnMsgFromBuffer` leaves in its out parameters.

With a non-zero return `*outMsg` may still be NULL; with return 0 it is a node, and
`msgRecvLen` and `reminder` have been written. -/
inductive GetMsgResult
  | error (message : Option (List UInt8))
  | ok (message : List UInt8) (msgRecvLen reminder : Nat)
deriving DecidableEq, Repr

/-- The message library. A node is represented by the bytes copied into it so far. -/
structure MsgLib where
  /-- `MAX_MSG_TOTAL_LENGTH`, an `uint32_t`. -/
  maxMsgTotalLength : Nat
  maxMsgTotalLength_le : maxMsgTotalLength ≤ 2 ^ 32
  /-- `GetAppSpawnMsgFromBuffer(buffer, bufferLen, &message, &msgRecvLen, &reminder)` -/
  getAppSpawnMsgFromBuffer : List UInt8 → Option (List UInt8) → Nat → GetMsgResult
  /-- The header and TLVs of a node that holds these bytes. -/
  view : List UInt8 → AppSpawnMsg
  /-- `DecodeAppSpawnMsg` -/
  decodeAppSpawnMsg : List UInt8 → Int

end Appspawn
