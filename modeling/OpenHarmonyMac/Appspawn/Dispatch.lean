import OpenHarmonyMac.Infra.CString
import OpenHarmonyMac.Appspawn.Receive
import OpenHarmonyMac.Appspawn.System

/-!
# Dispatching a message

`ProcessRecvMsg` and its handlers for each `msgType`, and the rounds of `OnReceiveRequest` on the
server: which node a round works on, where the node goes, and when the connection is closed.

What a handler finds out from the system is in `DispatchEnv`, for one message each.
-/

namespace Appspawn

open Infra

/-- What the environment answers while one message is dispatched. -/
structure DispatchEnv where
  spawn : SpawnEnv := {}
  /-- `ProcessTerminationStatusMsg`: its return value, `result.result` and `result.pid`. -/
  terminationStatus : Int × Int × Int := (0, 0, 0)
  /-- `minAppspawnTime` and `maxAppspawnTime` -/
  spawnTime : Int × Int := (0, 0)
  /-- `RebuildAppSpawnMsgNode`, `none` for NULL. -/
  rebuilt : Option AppSpawnMsg := none
  /-- `DecodeAppSpawnMsg` of the rebuilt node. -/
  rebuiltDecode : Int := 0
  /-- `ProcessSpawnRemountMsg` -/
  remount : Int := 0
  /-- `execv` replaces the server that is told to restart. -/
  restarted : Bool := false
  /-- `CreateAppSpawningCtx` for the uninstall message, with the client it makes. -/
  uninstallCtx : Option AppSpawnClient := none
  /-- The hooks of `STAGE_PARENT_UNINSTALL`. -/
  uninstallHook : Int := 0
  /-- `kill` of a device debug request. -/
  killRet : Int := 0
  /-- `SetParameter` of a lock status. -/
  setParameter : Int := 0

variable (k : Codes)

/-! ## The handlers -/

/-- `ProcessSpawnBegetctlMsg`: the node rebuilt for a tracked child, or NULL. -/
def processSpawnBegetctlMsg (env : DispatchEnv) (s : Server) (message : AppSpawnMsgNode) :
    Server × Option AppSpawnMsgNode :=
  match message.msg.begetPid with
  | none => (s, none)
  | some pid =>
    match s.getSpawnedProcess pid with
    | none => (s, none)
    | some _ =>
      match env.rebuilt with
      | none => (s, none)
      | some msg =>
        let node : AppSpawnMsgNode := { id := s.nextId, msg }
        let s := s.createAppSpawnMsg
        if env.rebuiltDecode ≠ 0 then (s.deleteAppSpawnMsg node.id, none) else (s, some node)

/-- `ProcessBegetCmdMsg` -/
def processBegetCmdMsg (env : DispatchEnv) (s : Server) (c : ConnId) (message : AppSpawnMsgNode) :
    Server :=
  if env.spawn.developerMode = false then s.refuse c message k.debugModeNotSupport
  else
    let r := processSpawnBegetctlMsg env s message
    match r.2 with
    | none => r.1.refuse c message k.debugModeNotSupport
    | some msgNode =>
      -- ProcessSpawnReqMsg has passed the node on, and it is deleted all the same
      ((processSpawnReqMsg k env.spawn r.1 c msgNode).deleteAppSpawnMsg message.id).deleteAppSpawnMsg
        msgNode.id

/-- `ProcessSpawnRestartMsg`. The loop of a server that is replaced has ended. -/
def processSpawnRestartMsg (env : DispatchEnv) (s : Server) (c : ConnId)
    (message : AppSpawnMsgNode) : Server :=
  if s.content.isNWebSpawnMode = false then s.refuse c message k.msgInvalid
  else
    let s := (s.appQueue.foldl appQueueDestroyProc s).refuse c message 0
    if env.restarted then { s with loopStopped := true } else s

/-- The context of an uninstall message. -/
def uninstallCtx (c : ConnId) (client : AppSpawnClient) (message : AppSpawnMsgNode) :
    AppSpawningCtx :=
  { client, message := { message with connection := c }, pid := 0, state := .idle, fd := none }

/-- `ProcessUninstallDebugHap` -/
def processUninstallDebugHap (env : DispatchEnv) (s : Server) (c : ConnId)
    (message : AppSpawnMsgNode) : Server :=
  match env.uninstallCtx with
  | none => s.refuse c message k.systemError
  | some client =>
    let property := uninstallCtx c client message
    { s with appSpawnQueue := s.appSpawnQueue ++ [property] }.answer property env.uninstallHook 0

/-- `AppspawpnDevicedebugKill` -/
def appspawpnDevicedebugKill (env : DispatchEnv) (s : Server) (pid : Int) (signal : Option Int) :
    Server × Int :=
  match signal with
  | none => (s, -1)
  | some signal =>
    match s.getSpawnedProcess pid with
    | none => (s, k.deviceDebugAppNotExist)
    | some appInfo =>
      if appInfo.isDebuggable = false then (s, k.deviceDebugAppNotDebuggable)
      else (s.kill pid signal.toNat, if env.killRet ≠ 0 then -1 else 0)

/-- `AppspawnDevicedebugDeal` -/
def appspawnDevicedebugDeal (env : DispatchEnv) (s : Server) (op : String) (pid : Int)
    (signal : Option Int) : Server × Int :=
  if op = "kill" then appspawpnDevicedebugKill k env s pid signal else (s, -1)

/-- `ProcessAppSpawnDeviceDebugMsg` -/
def processAppSpawnDeviceDebugMsg (env : DispatchEnv) (s : Server) (message : AppSpawnMsgNode) :
    Server × Int :=
  match message.msg.devicedebug with
  | some (some { app := some pid, op := some op, args := some signal }) =>
    appspawnDevicedebugDeal k env s op pid signal
  | _ => (s, -1)

/-- `USER_ID_MIN_VALUE` -/
def USER_ID_MIN_VALUE : Int := 100

/-- `USER_ID_MAX_VALUE` -/
def USER_ID_MAX_VALUE : Int := 10736

/-- The parameter that a lock status asks for. -/
def lockStatusParam (lockstatus : List Char) : Option (List Char × List Char) :=
  match strtok ':' lockstatus with
  | some (userIdStr, some userLockStatus) =>
    let userId := atoi userIdStr
    if userId < USER_ID_MIN_VALUE ∨ USER_ID_MAX_VALUE < userId then none
    else if userLockStatus ≠ ['0'] ∧ userLockStatus ≠ ['1'] then none
    else some ("startup.appspawn.lockstatus_".toList ++ formatInt userId, userLockStatus)
  | _ => none

/-- `ProcessAppSpawnLockStatusMsg` -/
def processAppSpawnLockStatusMsg (env : DispatchEnv) (s : Server) (message : AppSpawnMsgNode) :
    Server :=
  match message.msg.lockstatus.bind lockStatusParam with
  | none => s
  | some param =>
    if env.setParameter ≠ 0 then s else { s with parameters := param :: s.parameters }

/-- `ProcessRecvMsg` -/
def processRecvMsg (env : DispatchEnv) (s : Server) (c : ConnId) (message : AppSpawnMsgNode) :
    Server :=
  let s := s.use message.id
  match message.msg.msgType with
  | .getRenderTerminationStatus =>
    let (ret, result, pid) := env.terminationStatus
    s.reply c message (if ret = 0 then result else ret) pid
  | .spawnNativeProcess => processSpawnReqMsg k env.spawn s c message
  | .appSpawn => processSpawnReqMsg k env.spawn s c message
  | .dump => s.reply c message 0 0
  | .begetCmd => processBegetCmdMsg k env s c message
  | .begetSpawntime => s.reply c message env.spawnTime.1 env.spawnTime.2
  | .updateMountPoints => s.sendResponse c message env.remount 0
  | .restartSpawner => processSpawnRestartMsg k env s c message
  | .deviceDebug =>
    let r := processAppSpawnDeviceDebugMsg k env s message
    r.1.reply c message r.2 0
  | .uninstallDebugHap => processUninstallDebugHap k env s c message
  | .lockStatus => (processAppSpawnLockStatusMsg env s message).reply c message 0 0
  | .other _ => s.reply c message k.msgInvalid 0

/-! ## The rounds of `OnReceiveRequest` -/

/-- `receiverCtx` without its incomplete message. -/
def AppSpawnConnection.take (x : AppSpawnConnection) : AppSpawnConnection :=
  { x with incompleteMsg := none }

/-- `receiverCtx` when a message is complete. -/
def AppSpawnConnection.complete (x : AppSpawnConnection) : AppSpawnConnection :=
  { x with msgRecvLen := 0, timer := false }

/-- `receiverCtx` with the incomplete message in the node `n`. -/
def AppSpawnConnection.keep (n : NodeId) (message : List UInt8) (msgRecvLen : Nat)
    (x : AppSpawnConnection) : AppSpawnConnection :=
  { x with incompleteMsg := some (n, message), msgRecvLen }

def AppSpawnConnection.receiverCtx (x : AppSpawnConnection) : ReceiverCtx :=
  { incompleteMsg := x.incompleteMsg.map (·.2), msgRecvLen := x.msgRecvLen }

/-- The node of a round: the incomplete one, or else a new one. -/
def Server.takeNode (s : Server) : Option NodeId → Server × NodeId
  | some n => (s, n)
  | none => (s.createAppSpawnMsg, s.nextId)

variable (lib : MsgLib)

/-- What a round does with its node. `held` is the node of the incomplete message. -/
def runPiece (env : DispatchEnv) (s : Server) (c : ConnId) (held : Option NodeId) (r : Round) :
    Server :=
  let t := s.takeNode held
  let complete := (t.1.use t.2).updateConnection c AppSpawnConnection.complete
  match r.piece with
  | .failed message =>
    if held.isNone && message.isNone then s else t.1.deleteAppSpawnMsg t.2
  | .incomplete message =>
    (t.1.use t.2).updateConnection c (AppSpawnConnection.keep t.2 message r.msgRecvLen)
  | .refused _ => complete
  | .undecoded _ => complete.deleteAppSpawnMsg t.2
  | .dispatched message => processRecvMsg k env complete c { id := t.2, msg := lib.view message }

/-- The rounds of one call, each with the environment of its message. -/
def runRounds (c : ConnId) : Server → Option NodeId → List Round → List DispatchEnv → Server
  | s, _, [], _ => s
  | s, held, r :: rs, envs =>
    runRounds c (runPiece k lib (envs.headD {}) s c held r) none rs envs.tail

/-- What the environment answers during one call of `OnReceiveRequest`. -/
structure ReceiveEnv where
  /-- What lies behind the buffer. -/
  beyond : Nat → List UInt8 := fun _ => []
  /-- `getsockopt(SO_PEERCRED)` in `MsgDevicedebugCheck` succeeds. -/
  credOk : Bool := true
  dispatch : List DispatchEnv := []
  createTimer : Bool := true
  startTimer : Bool := true

/-- What the framing of `OnReceiveRequest` makes of a buffer of the connection `conn`. -/
def ReceiveEnv.received (shellUid : Nat) (env : ReceiveEnv) (conn : AppSpawnConnection)
    (buffer : List UInt8) : Received :=
  onReceiveRequest lib (msgDevicedebugCheck shellUid (if env.credOk then conn.peerUid else none))
    env.beyond conn.receiverCtx buffer

/-- `StartTimerForCheckMsg`, and the close when it fails. -/
def startTimerForCheckMsg (env : ReceiveEnv) (s : Server) (c : ConnId) : Server :=
  match s.connections.find? (·.id == c) with
  | none => s
  | some conn =>
    if conn.incompleteMsg.isNone || conn.timer then s
    else if env.createTimer = false then closeTask s c
    else
      let s := s.updateConnection c (fun x => { x with timer := true })
      if env.startTimer then s else closeTask s c

/-- `OnReceiveRequest` for a buffer of the connection `conn`. -/
def receiveRequest (shellUid : Nat) (env : ReceiveEnv) (s : Server) (conn : AppSpawnConnection)
    (buffer : List UInt8) : Server :=
  if buffer.length < lib.maxMsgTotalLength then
    let r := env.received lib shellUid conn buffer
    let s := runRounds k lib conn.id (s.updateConnection conn.id AppSpawnConnection.take)
      (conn.incompleteMsg.map (·.1)) r.rounds env.dispatch
    if r.closed then closeTask s conn.id else startTimerForCheckMsg env s conn.id
  else closeTask s conn.id

/-- `WaitMsgCompleteTimeOut` -/
def waitMsgCompleteTimeOut (s : Server) (conn : AppSpawnConnection) : Server :=
  closeTask ((deleteIncompleteMsg s conn).updateConnection conn.id AppSpawnConnection.take) conn.id

/-! ## The server with its receive path -/

inductive ServiceEvent
  /-- A buffer arrives on the connection `c`. -/
  | receive (c : ConnId) (buffer : List UInt8) (env : ReceiveEnv)
  /-- The timer of the incomplete message of `c` expires. -/
  | receiveTimeout (c : ConnId)
  /-- Any other event of the loop. -/
  | loop (e : Event)

/-- The record of an open connection. -/
def Server.connectionOf (s : Server) (c : ConnId) : Option AppSpawnConnection :=
  s.connections.find? (·.id == c)

def Server.serve (shellUid : Nat) (s : Server) : ServiceEvent → Server
  | .receive c buffer env =>
    match s.connectionOf c with
    | none => s
    | some conn => receiveRequest k lib shellUid env s conn buffer
  | .receiveTimeout c =>
    match s.connectionOf c with
    | none => s
    | some conn => waitMsgCompleteTimeOut s conn
  | .loop e => s.step k e

/-- Spawn requests come in with a buffer here, not by themselves. -/
def Server.Serves (s : Server) : ServiceEvent → Prop
  | .receive c _ _ => s.isOpen c = true
  | .receiveTimeout c => ∃ conn ∈ s.connectionOf c, conn.timer = true
  | .loop (.spawnRequest _ _ _) => False
  | .loop e => s.Enabled e

instance (s : Server) (e : ServiceEvent) : Decidable (s.Serves e) :=
  match e with
  | .receive c _ _ => inferInstanceAs (Decidable (s.isOpen c = true))
  | .receiveTimeout c => inferInstanceAs (Decidable (∃ conn ∈ s.connectionOf c, conn.timer = true))
  | .loop (.spawnRequest _ _ _) => .isFalse id
  | .loop (.connection cred dev) => inferInstanceAs (Decidable (s.Enabled (.connection cred dev)))
  | .loop (.childResponse n b a) => inferInstanceAs (Decidable (s.Enabled (.childResponse n b a)))
  | .loop (.childTimeout n) => inferInstanceAs (Decidable (s.Enabled (.childTimeout n)))
  | .loop (.signal sig) => inferInstanceAs (Decidable (s.Enabled (.signal sig)))
  | .loop (.close c) => inferInstanceAs (Decidable (s.Enabled (.close c)))
  | .loop (.sendComplete pid f) => inferInstanceAs (Decidable (s.Enabled (.sendComplete pid f)))

/-- The whole server: `system` with the receive path in place of its spawn requests. -/
def service (shellUid : Nat) : Infra.System Server ServiceEvent where
  init := (system k).init
  enabled s e := s.loopStopped = false ∧ s.Serves e
  step s e := s.serve k lib shellUid e

instance (shellUid : Nat) (s : Server) (e : ServiceEvent) :
    Decidable ((service k lib shellUid).enabled s e) :=
  inferInstanceAs (Decidable (_ ∧ _))

end Appspawn
