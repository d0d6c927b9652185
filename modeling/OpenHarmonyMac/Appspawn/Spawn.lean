import OpenHarmonyMac.Appspawn.Prefork

/-!
# The handlers of a spawn request

`ProcessSpawnReqMsg` takes a request up. After it four handlers compete for the context: the
child's pipe (`ProcessChildResponse`), the timer (`WaitChildTimeout`), the signal handler
(`HandleDiedPid`, `WaitChildDied`) and the close of the connection (`OnClose`).
-/

namespace Appspawn

variable (k : Codes)

/-! ## The request -/

/-- `AddChildWatcher` -/
def addChildWatcher (env : SpawnEnv) : Int :=
  if env.startWatcher = false then k.systemError
  else if (env.createTimer && env.startTimer) = false then k.systemError
  else 0

/-- The context of a request as `RunAppSpawnProcessMsg` leaves it. -/
def spawningCtx (r : Started) (client : AppSpawnClient) (message : AppSpawnMsgNode) :
    AppSpawningCtx :=
  { client, message, pid := r.childPid, state := .spawning, fd := r.fd }

/-- The server behind `RunAppSpawnProcessMsg`, which may have made three pipes. -/
@[simps]
def Server.spawned (s : Server) (r : Started) (property : AppSpawningCtx) : Server :=
  { s with
    content := r.content
    procs := r.procs
    kills := r.kills ++ s.kills
    nextId := s.nextId + 3
    appSpawnQueue := s.appSpawnQueue ++ [property] }

/-- `RunAppSpawnProcessMsg` for the message of a new context. -/
def started (env : SpawnEnv) (s : Server) (client : AppSpawnClient) (message : AppSpawnMsgNode) :
    Started :=
  runAppSpawnProcessMsg k env s.nextId s.content client message.msg message.id s.procs

/-- `ProcessSpawnReqMsg` from `RunAppSpawnProcessMsg` on, for the new context of `message`. -/
def startChild (env : SpawnEnv) (s : Server) (client : AppSpawnClient)
    (message : AppSpawnMsgNode) : Server :=
  let r := started k env s client message
  let property := spawningCtx r client message
  let s := s.spawned r property
  if r.ret ≠ 0 then s.answer property r.ret 0
  else if addChildWatcher k env ≠ 0 then (s.kill property.pid SIGKILL).answer property r.ret 0
  else s

theorem startChild_eq (env : SpawnEnv) (s : Server) (client : AppSpawnClient)
    (m : AppSpawnMsgNode) {r : Started} (hr : started k env s client m = r)
    {ctx : AppSpawningCtx} (hc : spawningCtx r client m = ctx) :
    startChild k env s client m =
      if r.ret ≠ 0 then (s.spawned r ctx).answer ctx r.ret 0
      else if addChildWatcher k env ≠ 0 then
        ((s.spawned r ctx).kill ctx.pid SIGKILL).answer ctx r.ret 0
      else s.spawned r ctx := by
  subst hr hc
  rfl

theorem startChild_content (env : SpawnEnv) (s : Server) (client : AppSpawnClient)
    (m : AppSpawnMsgNode) : (startChild k env s client m).content = (started k env s client m).content := by
  rw [startChild_eq k env s client m rfl rfl]
  split
  · simp
  · split <;> simp

theorem startChild_procs (env : SpawnEnv) (s : Server) (client : AppSpawnClient)
    (m : AppSpawnMsgNode) : (startChild k env s client m).procs = (started k env s client m).procs := by
  rw [startChild_eq k env s client m rfl rfl]
  split
  · simp
  · split <;> simp

/-- The message as `ProcessSpawnReqMsg` hands it to the context. -/
def spawnMessage (env : SpawnEnv) (c : ConnId) (message : AppSpawnMsgNode) : AppSpawnMsgNode :=
  { message with
    connection := c
    msg := if env.developerMode && env.supportRunHnp then message.msg.setFlag .developerMode
      else message.msg }

/-- `ProcessSpawnReqMsg` -/
def processSpawnReqMsg (env : SpawnEnv) (s : Server) (c : ConnId) (message : AppSpawnMsgNode) :
    Server :=
  let s := (s.use message.id).noteRequest c message.id
  if env.checkRet ≠ 0 then s.refuse c message env.checkRet
  else
    match env.ctx with
    | none => s.refuse c message k.systemError
    | some client => startChild k env s client (spawnMessage env c message)

/-! ## The child's pipe -/

/-- An `int` of four bytes, the lowest first. Missing bytes are zero. -/
def le32 (bytes : List UInt8) : Int :=
  (BitVec.ofNat 32 ((bytes.take 4).foldr (fun b n => b.toNat + 256 * n) 0)).toInt

/-- `result` of `ProcessChildFdCheck`: it is zero before the `read`, whose own result is not
looked at. `none` stands for a failed `read`, the empty list for end of file. -/
def readResult (bytes : Option (List UInt8)) : Int := le32 (bytes.getD [])

/-- `ProcessChildFdCheck` -/
def processChildFdCheck (s : Server) (bytes : Option (List UInt8)) (property : AppSpawningCtx) :
    Server × Int :=
  let s := s.use property.message.id
  let result := readResult bytes
  if result ≠ 0 then (s.answer property result property.pid, -1) else (s, 0)

/-- `ProcessChildResponse`. `added` tells whether `AddSpawnedProcess` made an entry. -/
def processChildResponse (s : Server) (bytes : Option (List UInt8)) (added : Bool)
    (property : AppSpawningCtx) : Server :=
  let r := processChildFdCheck s bytes property
  if r.2 ≠ 0 then r.1
  else (if added then r.1.addSpawnedProcess property else r.1).answer property 0 property.pid

/-- The answer of a child is handed on as it was read. -/
theorem processChildResponse_of_ne {s : Server} {bytes : Option (List UInt8)} {added : Bool}
    {ctx : AppSpawningCtx} (h : readResult bytes ≠ 0) :
    processChildResponse s bytes added ctx
      = (s.use ctx.message.id).answer ctx (readResult bytes) ctx.pid := by
  simp [processChildResponse, processChildFdCheck, h]

theorem processChildResponse_of_eq {s : Server} {bytes : Option (List UInt8)} {added : Bool}
    {ctx : AppSpawningCtx} (h : readResult bytes = 0) :
    processChildResponse s bytes added ctx
      = (if added then (s.use ctx.message.id).addSpawnedProcess ctx
          else s.use ctx.message.id).answer ctx 0 ctx.pid := by
  simp [processChildResponse, processChildFdCheck, h]

/-! ## The timer -/

/-- `WaitChildTimeout` -/
def waitChildTimeout (s : Server) (property : AppSpawningCtx) : Server :=
  let s := s.use property.message.id
  (if 0 < property.pid then s.kill property.pid SIGKILL else s).answer property k.spawnTimeout 0

/-! ## Signals -/

/-- `KillAndWaitStatus` and the removal of the entry, when the server of this name runs. -/
def stopServer (name : String) (s : Server) : Server :=
  match s.getSpawnedProcessByName name with
  | none => s
  | some appInfo => ((s.kill appInfo.pid SIGTERM).reap appInfo.pid).terminateSpawnedProcess appInfo

/-- The end of the reserved process in `StopAppSpawn`. -/
def stopReserved (s : Server) : Server :=
  if 0 < s.content.reservedPid then
    { s.kill s.content.reservedPid SIGKILL with content := { s.content with reservedPid := 0 } }
  else s

/-- `AppQueueDestroyProc` -/
def appQueueDestroyProc (s : Server) (appInfo : AppSpawnedProcess) : Server :=
  let s := s.terminateSpawnedProcess appInfo
  if 0 < appInfo.pid then s.kill appInfo.pid SIGKILL else s

/-- `StopAppSpawn` -/
def stopAppSpawn (s : Server) : Server :=
  let s := stopReserved (stopServer k.nativespawnServerName (stopServer k.nwebspawnServerName s))
  { s.appQueue.foldl appQueueDestroyProc s with loopStopped := true }

/-- The counting of consecutive crashes in `WaitChildDied`. -/
@[simps]
def countCrash (s : Server) (id : UInt32) : Server :=
  { s with
    crashTimes := if id = s.lastDiedAppId + 1 then s.crashTimes + 1 else 1
    lastDiedAppId := id }

/-- `MAX_CRASH_TIME` -/
def MAX_CRASH_TIME : UInt32 := 5

/-- `WaitChildDied` -/
def waitChildDied (s : Server) (pid : Int) : Server :=
  match s.getAppSpawningCtxByPid pid with
  | none => s
  | some property =>
    if property.state = .spawning then
      let s := (countCrash (s.use property.message.id) property.client.id).answer property
        k.childCrash 0
      if MAX_CRASH_TIME ≤ s.crashTimes then stopAppSpawn k s else s
    else s

/-- `waitpid` reports the child, and `HandleDiedPid` clears the reservation if it was that. -/
def collect (s : Server) (pid : Int) : Server :=
  if pid = s.content.reservedPid then
    { s.reap pid with content := { s.content with reservedPid := 0 } }
  else s.reap pid

/-- `HandleDiedPid` -/
def handleDiedPid (s : Server) (pid : Int) : Server :=
  let s := collect s pid
  match s.getSpawnedProcess pid with
  | none => waitChildDied k s pid
  | some appInfo =>
    let s' := s.terminateSpawnedProcess appInfo
    if appInfo.name = k.nwebspawnServerName then stopAppSpawn k s' else s'

/-- There is such a child, and no `waitpid` has reported it. -/
def Server.waitable (s : Server) (pid : Int) : Bool :=
  s.procs.any (fun p => p.pid == pid && !p.reaped)

/-- One round of the `waitpid` loop. -/
def reapChild (s : Server) (pid : Int) : Server := if s.waitable pid then handleDiedPid k s pid else s

inductive Signal
  /-- `SIGCHLD`, and the children that `waitpid` reports, in order. -/
  | sigchld (pids : List Int)
  | sigterm
  | other
deriving DecidableEq, Repr

/-- `ProcessSignal` -/
def processSignal (s : Server) : Signal → Server
  | .sigchld pids =>
    let s := pids.foldl (reapChild k) s
    if k.cjappOrNativeSpawn && s.appQueue.isEmpty then { s with loopStopped := true } else s
  | .sigterm => stopAppSpawn k s
  | .other => s

/-! ## The close of a connection -/

/-- `AppSpawningCtxOnClose` -/
def appSpawningCtxOnClose (c : ConnId) (s : Server) (ctx : AppSpawningCtx) : Server :=
  let s := s.use ctx.message.id
  if ctx.message.connection ≠ c then s
  else (if 0 < ctx.pid then s.kill ctx.pid SIGKILL else s).deleteAppSpawningCtx ctx

/-- `DeleteAppSpawnMsg(connection->receiverCtx.incompleteMsg)`, which does nothing for NULL. -/
def deleteIncompleteMsg (s : Server) (conn : AppSpawnConnection) : Server :=
  match conn.incompleteMsg with
  | none => s
  | some m => s.deleteAppSpawnMsg m.1

/-- `OnClose` -/
def onClose (s : Server) (c : ConnId) : Server :=
  match s.connections.find? (·.id == c) with
  | none => s
  | some conn =>
    let s := (deleteIncompleteMsg s conn).updateConnection c AppSpawnConnection.onClose
    s.appSpawnQueue.foldl (appSpawningCtxOnClose c) s

/-- `LE_CloseTask`: the close handler runs and the task leaves the loop. -/
def closeTask (s : Server) (c : ConnId) : Server :=
  let s := onClose s c
  { s with connections := s.connections.filter (·.id != c) }

end Appspawn
