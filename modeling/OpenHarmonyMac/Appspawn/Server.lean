import OpenHarmonyMac.Appspawn.Message

/-!
# State of the appspawn server

The global state of `appspawn_service.c` and the functions that every handler is made of.

Pointers are natural numbers from one counter. A spawning context is identified by the message
it owns. Pipes are the kernel's pipes, not descriptor numbers: `none` stands for -1.

The last group of fields of `Server` is history. No function of the server reads it.
-/

namespace Appspawn

abbrev ConnId := Nat
abbrev NodeId := Nat
abbrev Pipe := Nat

/-- The codes of `appspawn_error.h` that the server answers with. None of them is success. -/
structure Codes where
  systemError : Int
  msgInvalid : Int
  childCrash : Int
  spawnTimeout : Int
  forkFail : Int
  debugModeNotSupport : Int
  deviceDebugAppNotExist : Int
  deviceDebugAppNotDebuggable : Int
  /-- What `memcpy_s` returns when the destination is too small. -/
  memcpyError : Int
  ne_zero : systemError ≠ 0 ∧ msgInvalid ≠ 0 ∧ childCrash ≠ 0 ∧ spawnTimeout ≠ 0 ∧
    forkFail ≠ 0 ∧ debugModeNotSupport ≠ 0 ∧ memcpyError ≠ 0
  /-- `sizeof(AppSpawnMsg)` -/
  sizeofAppSpawnMsg : Nat
  /-- `APP_COLD_START` -/
  appColdStart : UInt32
  appspawnServerName : String
  nwebspawnServerName : String
  nativespawnServerName : String
  /-- The modes of a cold start are no names of servers. -/
  names_ne : appspawnServerName ≠ "app_cold" ∧ appspawnServerName ≠ "nweb_cold" ∧
    nwebspawnServerName ≠ "app_cold" ∧ nwebspawnServerName ≠ "nweb_cold"
  /-- `APPSPAWN_MSG_DIR` -/
  appspawnMsgDir : String
  /-- The build defines `CJAPP_SPAWN` or `NATIVE_SPAWN`. -/
  cjappOrNativeSpawn : Bool

/-- Codes for runs on fixed inputs. -/
def sampleCodes : Codes where
  systemError := 1
  msgInvalid := 2
  childCrash := 3
  spawnTimeout := 4
  forkFail := 5
  debugModeNotSupport := 6
  deviceDebugAppNotExist := 7
  deviceDebugAppNotDebuggable := 8
  memcpyError := 34
  ne_zero := by decide
  sizeofAppSpawnMsg := 280
  appColdStart := 1
  appspawnServerName := "appspawn"
  nwebspawnServerName := "nwebspawn"
  nativespawnServerName := "nativespawn"
  names_ne := by decide
  appspawnMsgDir := "/mnt/startup/"
  cjappOrNativeSpawn := false

inductive Mode
  | appSpawn
  | nwebSpawn
  | appColdRun
  | nwebColdRun
  | nativeSpawn
  | cjappSpawn
deriving DecidableEq, Repr

/-- `AppSpawnContent` -/
structure AppSpawnContent where
  mode : Mode
  enablePerfork : Bool
  reservedPid : Int := 0
  preforkFd : Option Pipe := none
  parentToChildFd : Option Pipe := none
  /-- `propertyBuffer != NULL` -/
  propertyBuffer : Bool := false
deriving DecidableEq, Repr

/-- `IsNWebSpawnMode` -/
def AppSpawnContent.isNWebSpawnMode (content : AppSpawnContent) : Bool :=
  content.mode == .nwebSpawn || content.mode == .nwebColdRun

/-- `AppSpawnMsgNode`. `connection` is 0 until it is set. -/
structure AppSpawnMsgNode where
  id : NodeId
  msg : AppSpawnMsg
  connection : ConnId := 0
deriving DecidableEq, Repr

inductive AppState
  | idle
  | spawning
deriving DecidableEq, Repr

/-- `AppSpawningCtx` -/
structure AppSpawningCtx where
  client : AppSpawnClient
  message : AppSpawnMsgNode
  pid : Int
  state : AppState
  /-- `forkCtx.fd` -/
  fd : Option Pipe
deriving DecidableEq, Repr

/-- `AppSpawnedProcess` -/
structure AppSpawnedProcess where
  pid : Int
  name : String
  isDebuggable : Bool
  uid : Nat := 0
  /-- History: the request whose answer added the entry. -/
  request : Option NodeId := none
deriving DecidableEq, Repr

/-- `AppSpawnConnection` -/
structure AppSpawnConnection where
  id : ConnId
  /-- What `getsockopt(SO_PEERCRED)` tells about the peer. -/
  peerUid : Option Nat
  /-- `receiverCtx.incompleteMsg`: the node and the bytes in it. -/
  incompleteMsg : Option (NodeId × List UInt8) := none
  msgRecvLen : Nat := 0
  /-- `receiverCtx.timer != NULL` -/
  timer : Bool := false
deriving DecidableEq, Repr

/-- A child process, as the kernel knows it. -/
structure Proc where
  pid : Int
  /-- The ends of `preforkFd` and `parentToChildFd` it was forked with, if by `ProcessPreFork`. -/
  prefork : Option (Pipe × Pipe) := none
  /-- The requests it was handed to. -/
  handedTo : List NodeId := []
  /-- The prefork path sent it SIGKILL. -/
  killedByPrefork : Bool := false
  reaped : Bool := false
deriving DecidableEq, Repr

/-- A call of `SendResponse`. -/
structure Response where
  connection : ConnId
  message : NodeId
  result : Int
  pid : Int
  /-- The connection was open at the time. -/
  connOpen : Bool
deriving DecidableEq, Repr

structure Server where
  content : AppSpawnContent
  /-- `AppSpawnMgr::appSpawnQueue` -/
  appSpawnQueue : List AppSpawningCtx := []
  /-- `AppSpawnMgr::appQueue` -/
  appQueue : List AppSpawnedProcess := []
  lastDiedAppId : UInt32 := 0
  crashTimes : UInt32 := 0
  connections : List AppSpawnConnection := []
  loopStopped : Bool := false
  nextId : Nat := 1
  procs : List Proc := []
  /-- The spawn requests received. -/
  requests : List (ConnId × NodeId) := []
  sent : List Response := []
  /-- Signals sent. -/
  kills : List (Int × Nat) := []
  /-- The nodes created, and the nodes released, as often as each of it happened. -/
  created : List NodeId := []
  released : List NodeId := []
  /-- Nodes that were read after they had been released. -/
  staleUses : List NodeId := []
  /-- The requests whose children were put into and taken out of `appQueue`. -/
  added : List NodeId := []
  removed : List NodeId := []
  /-- The parameters set, name and value. -/
  parameters : List (List Char × List Char) := []
deriving Repr

def SIGKILL : Nat := 9
def SIGTERM : Nat := 15

namespace Server

variable (s : Server)

/-- The connection's task is in the loop. -/
def isOpen (c : ConnId) : Bool := s.connections.any (·.id == c)

/-- History: a spawn request was received. -/
@[simps]
def noteRequest (c : ConnId) (n : NodeId) : Server := { s with requests := (c, n) :: s.requests }

/-- A read of a message node. -/
@[simps]
def use (n : NodeId) : Server :=
  { s with staleUses := (if n ∈ s.released then [n] else []) ++ s.staleUses }

/-- `CreateAppSpawnMsg`, which `GetAppSpawnMsgFromBuffer` calls for a new message. -/
@[simps]
def createAppSpawnMsg : Server :=
  { s with created := s.nextId :: s.created, nextId := s.nextId + 1 }

/-- `DeleteAppSpawnMsg` -/
@[simps]
def deleteAppSpawnMsg (n : NodeId) : Server := { s with released := n :: s.released }

/-- `SendResponse`: copies the header and hands the response to `LE_Send`. Its failures are left out:
there is memory for the buffer, and `LE_Send` takes it. -/
@[simps]
def sendResponse (c : ConnId) (m : AppSpawnMsgNode) (result pid : Int) : Server :=
  { s.use m.id with
    sent := { connection := c, message := m.id, result, pid, connOpen := s.isOpen c } :: s.sent }

set_option linter.simpsNoConstructor false in
/-- `SendResponse` and `DeleteAppSpawnMsg`: the end of a message that got no context. -/
@[simps]
def refuse (c : ConnId) (m : AppSpawnMsgNode) (result : Int) : Server :=
  (s.sendResponse c m result 0).deleteAppSpawnMsg m.id

set_option linter.simpsNoConstructor false in
/-- `SendResponse` and `DeleteAppSpawnMsg` with a pid in the response. -/
@[simps]
def reply (c : ConnId) (m : AppSpawnMsgNode) (result pid : Int) : Server :=
  (s.sendResponse c m result pid).deleteAppSpawnMsg m.id

/-- `kill(pid, sig)` -/
@[simps]
def kill (pid : Int) (sig : Nat) : Server := { s with kills := (pid, sig) :: s.kills }

/-- `DeleteAppSpawningCtx`: the context leaves the queue with its timer and watcher, and its
message is released. -/
@[simps]
def deleteAppSpawningCtx (ctx : AppSpawningCtx) : Server :=
  { s with
    appSpawnQueue := s.appSpawnQueue.filter (·.message.id != ctx.message.id)
    released := ctx.message.id :: s.released }

set_option linter.simpsNoConstructor false in
/-- `SendResponse` and `DeleteAppSpawningCtx`: the end of a context. -/
@[simps]
def answer (ctx : AppSpawningCtx) (result pid : Int) : Server :=
  (s.sendResponse ctx.message.connection ctx.message result pid).deleteAppSpawningCtx ctx

/-- `GetAppSpawningCtxByPid` -/
def getAppSpawningCtxByPid (pid : Int) : Option AppSpawningCtx :=
  s.appSpawnQueue.find? (·.pid == pid)

/-- `GetSpawnedProcess` -/
def getSpawnedProcess (pid : Int) : Option AppSpawnedProcess := s.appQueue.find? (·.pid == pid)

/-- `GetSpawnedProcessByName` -/
def getSpawnedProcessByName (name : String) : Option AppSpawnedProcess :=
  s.appQueue.find? (·.name == name)

/-- `AddSpawnedProcess` with the uid that `ProcessChildResponse` stores in the new entry. -/
@[simps]
def addSpawnedProcess (ctx : AppSpawningCtx) : Server :=
  { s with
    appQueue := s.appQueue ++
      [{ pid := ctx.pid
         name := ctx.message.msg.bundleName
         isDebuggable := ctx.message.msg.checkFlagsSet .debuggable
         uid := ctx.message.msg.dacUid.getD 0
         request := some ctx.message.id }]
    added := ctx.message.id :: s.added }

/-- `TerminateSpawnedProcess`, and `OH_ListRemove` with `free`: the entry leaves the table. -/
@[simps]
def terminateSpawnedProcess (app : AppSpawnedProcess) : Server :=
  { s with
    appQueue := s.appQueue.erase app
    removed := app.request.toList ++ s.removed }

end Server

/-- Change the record of the connection `c`. -/
@[simps]
def Server.updateConnection (s : Server) (c : ConnId)
    (f : AppSpawnConnection → AppSpawnConnection) : Server :=
  { s with connections := s.connections.map (fun x => if x.id = c then f x else x) }

/-- `receiverCtx` as `OnClose` leaves it: no timer, no message. -/
def AppSpawnConnection.onClose (x : AppSpawnConnection) : AppSpawnConnection :=
  { x with incompleteMsg := none, timer := false }

/-- Change the records of the children that run under `pid`. -/
def updateProc (f : Proc → Proc) (pid : Int) (procs : List Proc) : List Proc :=
  procs.map (fun p => if p.pid = pid ∧ p.reaped = false then f p else p)

def Proc.markHanded (n : NodeId) (p : Proc) : Proc := { p with handedTo := n :: p.handedTo }
def Proc.markKilled (p : Proc) : Proc := { p with killedByPrefork := true }
def Proc.markReaped (p : Proc) : Proc := { p with reaped := true }

/-- `waitpid` reported the child. -/
@[simps]
def Server.reap (s : Server) (pid : Int) : Server :=
  { s with procs := updateProc Proc.markReaped pid s.procs }

end Appspawn
