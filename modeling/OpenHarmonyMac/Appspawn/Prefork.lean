import OpenHarmonyMac.Appspawn.Server

/-!
# Starting the child of a spawn request

`RunAppSpawnProcessMsg` and everything below it, in the parent. A request is served by a fork
(`AppSpawnProcessMsg`) or, in the prefork path, by the process forked in reserve for it.

The outcomes of the system calls are in `SpawnEnv`.
-/

namespace Appspawn

/-- What the environment answers while `ProcessSpawnReqMsg` runs. -/
structure SpawnEnv where
  /-- `CheckAppSpawnMsg` -/
  checkRet : Int := 0
  developerMode : Bool := false
  supportRunHnp : Bool := false
  /-- `CreateAppSpawningCtx`, `none` for NULL, with the client as the pre-fork hook leaves it. -/
  ctx : Option AppSpawnClient := none
  bootFinished : Bool := false
  /-- `pipe` of `InitForkContext`: `some errno` when it fails. -/
  forkPipe : Option { e : Int // e ≠ 0 } := none
  /-- `fork` or `clone` of `AppSpawnProcessMsg`, `none` when it fails. -/
  fork : Option Int := none
  /-- `GetMapMem` for the prefork buffer. -/
  mapMem : Bool := true
  /-- The result of the `fcntl` calls on the hand-over, 0 when `F_SETFD` is not tried. -/
  fcntlRet : Int := 0
  /-- `write(parentToChildFd[1], client)` takes the whole client. -/
  writeClient : Bool := true
  /-- `pipe(content->preforkFd)` -/
  preforkPipe : Bool := true
  /-- `pipe(content->parentToChildFd)` -/
  parentPipe : Bool := true
  /-- `fork` of `ProcessPreFork`, `none` when it fails. -/
  preforkFork : Option Int := none
  startWatcher : Bool := true
  createTimer : Bool := true
  startTimer : Bool := true
deriving DecidableEq

/-- `MAX_MEM_SIZE` -/
def MAX_MEM_SIZE : Nat := 4 * 1024

/-- What starting the child changes. -/
structure Started where
  content : AppSpawnContent
  procs : List Proc
  kills : List (Int × Nat)
  ret : Int
  /-- `property->pid` -/
  childPid : Int
  /-- `property->forkCtx.fd` -/
  fd : Option Pipe
deriving DecidableEq

variable (k : Codes) (env : SpawnEnv)

/-- `IsChildColdRun` -/
def isChildColdRun (client : AppSpawnClient) (msg : AppSpawnMsg) : Bool :=
  msg.checkFlagsSet .ubsanEnabled || msg.checkFlagsSet .asanEnabled
    || msg.checkFlagsSet .tsanEnabled || msg.checkFlagsSet .hwasanEnabled
    || client.flags &&& k.appColdStart != 0

/-- `IsSupportPrefork` -/
def isSupportPrefork (content : AppSpawnContent) (client : AppSpawnClient) (msg : AppSpawnMsg) :
    Bool :=
  content.enablePerfork && content.mode == .appSpawn && !isChildColdRun k client msg
    && !msg.checkFlagsSet .childProcess

/-- `memcpy_s(dest, destMax, src, count)` -/
def memcpyS (destMax count : Nat) : Int := if count ≤ destMax then 0 else k.memcpyError

/-- `WritePreforkMsg` into the mapped buffer. -/
def writePreforkMsg (msg : AppSpawnMsg) : Int :=
  let ret := memcpyS k MAX_MEM_SIZE k.sizeofAppSpawnMsg
  if ret ≠ 0 then ret
  else memcpyS k (MAX_MEM_SIZE - k.sizeofAppSpawnMsg) (msg.msgLen - k.sizeofAppSpawnMsg)

/-- `AppSpawnProcessMsg` in the parent: the return value, `*childPid` and the children.

The nweb server clones nothing when the message has no process type; `pid` is 0 then, and the
function returns 0. -/
def appSpawnProcessMsg (content : AppSpawnContent) (msg : AppSpawnMsg) (n : NodeId)
    (procs : List Proc) : Int × Int × List Proc :=
  if content.mode = .nwebSpawn ∧ msg.processType = none then (0, 0, procs)
  else
    match env.fork with
    | none => (k.forkFail, 0, procs)
    | some pid => (0, pid, procs ++ [{ pid, handedTo := [n] }])

/-- `ProcessPreFork` in the parent. The pipes it makes are `base` and `base + 1`. -/
def processPreFork (base : Nat) (content : AppSpawnContent) (procs : List Proc) :
    AppSpawnContent × List Proc :=
  if env.preforkPipe = false then (content, procs)
  else
    -- ClearPipeFd(content->parentToChildFd) comes before the second pipe
    let content := { content with preforkFd := some base, parentToChildFd := none }
    if env.parentPipe = false then ({ content with preforkFd := none }, procs)
    else
      let content := { content with parentToChildFd := some (base + 1) }
      match env.preforkFork with
      | none => ({ content with reservedPid := -1 }, procs)
      | some pid =>
        ({ content with reservedPid := pid }, procs ++ [{ pid, prefork := some (base, base + 1) }])

/-- `InitForkContext` and `AppSpawnProcessMsg`, the plain fork. The pipe is `base`. -/
def forkChild (base : Nat) (content : AppSpawnContent) (msg : AppSpawnMsg) (n : NodeId)
    (procs : List Proc) : Started :=
  match env.forkPipe with
  | some errno => { content, procs, kills := [], ret := errno.1, childPid := 0, fd := none }
  | none =>
    let r := appSpawnProcessMsg k env content msg n procs
    { content, procs := r.2.2, kills := [], ret := r.1, childPid := r.2.1, fd := some base }

/-- The reserved process is given the request: the branch `content->reservedPid > 0` of
`AppSpawnProcessMsgForPrefork` behind the mapping. -/
def handOver (content : AppSpawnContent) (n : NodeId) (procs : List Proc) : Started :=
  if content.parentToChildFd.isSome && env.writeClient then
    { content, kills := [], ret := env.fcntlRet, childPid := content.reservedPid,
      fd := content.preforkFd,
      procs := updateProc (Proc.markHanded n) content.reservedPid procs }
  else
    { content, kills := [(content.reservedPid, SIGKILL)], ret := -1, childPid := 0,
      fd := content.preforkFd,
      procs := updateProc Proc.markKilled content.reservedPid procs }

/-- `ProcessPreFork` behind either branch of `AppSpawnProcessMsgForPrefork`. -/
def Started.preFork (base : Nat) (r : Started) : Started :=
  let p := processPreFork env base r.content r.procs
  { r with content := p.1, procs := p.2 }

/-- `AppSpawnProcessMsgForPrefork` -/
def appSpawnProcessMsgForPrefork (base : Nat) (content : AppSpawnContent) (msg : AppSpawnMsg)
    (n : NodeId) (procs : List Proc) : Started :=
  if content.reservedPid ≤ 0 then
    match env.forkPipe with
    | some errno => { content, procs, kills := [], ret := errno.1, childPid := 0, fd := none }
    | none => (forkChild k env base content msg n procs).preFork env (base + 1)
  else if env.mapMem = false then
    { content := { content with propertyBuffer := false }, procs, kills := [], ret := -1,
      childPid := 0, fd := none }
  else if writePreforkMsg k msg ≠ 0 then
    { content := { content with propertyBuffer := false }, procs, kills := [],
      ret := writePreforkMsg k msg, childPid := 0, fd := none }
  else
    (handOver env { content with propertyBuffer := true } n procs).preFork env (base + 1)

/-- `RunAppSpawnProcessMsg` -/
def runAppSpawnProcessMsg (base : Nat) (content : AppSpawnContent) (client : AppSpawnClient)
    (msg : AppSpawnMsg) (n : NodeId) (procs : List Proc) : Started :=
  if env.bootFinished && isSupportPrefork k content client msg then
    appSpawnProcessMsgForPrefork k env base content msg n procs
  else forkChild k env base content msg n procs

end Appspawn
