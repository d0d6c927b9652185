import OpenHarmonyMac.Infra.CString
import OpenHarmonyMac.Infra.TimerLoop

/-!
# A service of init

Starting, stopping and reaping one service, and its start and restart timers
(`init_common_service.c`).

A job or a command that names the service again comes in through the same entry points, so here
it is a call among the others in `State.calls`.
-/

namespace InitService

open Infra

/-! ## Data -/

/-- `SERVICE_SUCCESS` and `SERVICE_FAILURE` -/
inductive ServiceRet
  | success
  | failure
deriving DecidableEq, Repr

inductive ServiceStatus
  | stopping
  | stopped
  | started
deriving DecidableEq, Repr

/-- The error numbers that the parent keeps in `lastErrno`. -/
inductive InitErrno
  | epath
  | efork
deriving DecidableEq, Repr

/-- The bits of `service->attribute` that the entry points read. -/
structure ServiceAttr where
  invalid : Bool := false
  once : Bool := false
  needRestart : Bool := false
  needStop : Bool := false
  critical : Bool := false
  period : Bool := false
  ondemand : Bool := false
  /-- Set by `EnableServiceTimer`, cleared by `DisableServiceTimer`. -/
  timerEnabled : Bool := false
deriving DecidableEq, Repr

structure Timespec where
  tvSec : Nat
  tvNsec : Nat := 0
deriving DecidableEq, Repr

/-- `service->serviceJobs.jobsName` -/
structure ServiceJobs where
  preStart : Option String := none
  onStop : Option String := none
  onRestart : Option String := none
deriving DecidableEq, Repr

/-- A command of `service->restartArg`. -/
structure CmdLine where
  cmdIndex : Nat
  cmdContent : String
deriving DecidableEq, Repr

/-- `Service`, with timer handles from `η`. -/
structure Service (η : Type) where
  name : String
  attr : ServiceAttr := {}
  pid : Int := -1
  lastErrno : Option InitErrno := none
  pathArgs : List String := []
  serviceJobs : ServiceJobs := {}
  fds : List Int := []
  restartArg : Option (List CmdLine) := none
  timer : Option η := none
  period : Nat := 0
  crashCnt : Int := 0
  firstCrashTime : UInt32 := 0
  crashTime : Int := 0
  crashCount : Int := 0

abbrev Pid := { pid : Nat // 0 < pid }

/-- The handlers of a service's timers. -/
inductive TimerProcess
  | serviceTimerStartProcess
  | serviceTimerReStartProcess
deriving DecidableEq, Repr

/-- What init calls on the way. -/
inductive Call
  | notifyServiceChange (status : ServiceStatus)
  | doJobNow (jobName : String)
  | serviceForkBeforeHook
  | serviceForkAfterHook (pid : Pid)
  | serviceReapHook (pid : Int)
  | fork (pid : Pid)
  | reportServiceStart (pid : Pid)
  | closeServiceSocket
  | closeServiceFile
  | close (fd : Int)
  | kill (pid : Int) (sig : Int)
  | checkServiceSocket
  | watchConsoleDevice
  | doCmdByIndex (cmd : CmdLine)
  | execReboot (value : String)
deriving DecidableEq, Repr

/-- What the entry points take from outside `init_common_service.c`. -/
structure Platform where
  timers : TimerLoop TimerProcess
  intervalTime : Timespec → Timespec → Nat
  getKillServiceSig : String → Int
  /-- Whether the service is the one that the SIGCHLD handler finds for a dead process. -/
  getServiceByPid : Service timers.Handle → Int → Bool
  getServiceByPid_pid : ∀ service pid, getServiceByPid service pid = true → service.pid = pid

/-- Init with one service, its event loop and the calls made so far. -/
structure State (pf : Platform) where
  service : Service pf.timers.Handle
  loop : pf.timers.Loop
  calls : List Call := []

/-- What the system answers while a service is started. -/
structure StartEnv where
  /-- `stat` finds the path. -/
  stat : Bool := true
  /-- `none` when `fork` fails. -/
  fork : Option Pid := none

/-- What the system answers while a timer is set. -/
structure TimerEnv where
  createTimer : Bool := true
  startTimer : Bool := true

/-- What the system answers while a service is reaped. -/
structure ReapEnv where
  curTime : Timespec := ⟨0, 0⟩
  timer : TimerEnv := {}
  start : StartEnv := {}
  watchConsoleDevice : Int := 0

namespace State

variable {pf : Platform} (m : State pf)

/-! ## Steps that every entry point is made of -/

@[simps]
def call (c : Call) : State pf := { m with calls := m.calls ++ [c] }

@[simps]
def setPid (pid : Int) : State pf := { m with service := { m.service with pid } }

@[simps]
def setAttr (attr : ServiceAttr) : State pf :=
  { m with service := { m.service with attr } }

/-- `DoJobNow` of a job that the service has. -/
def doJob (jobName : Option String) : State pf :=
  match jobName with
  | none => m
  | some job => m.call (.doJobNow job)

/-- `IsServiceWithTimerEnabled` -/
def isServiceWithTimerEnabled : Bool := m.service.attr.timerEnabled

/-- `IsOnDemandService` -/
def isOnDemandService : Bool := m.service.attr.ondemand

/-- The processes forked for the service. -/
def forks : List Pid := m.calls.filterMap fun
  | .fork pid => some pid
  | _ => none

/-! ## Starting -/

/-- `IsServiceInvalid`: what it does to the service. -/
def checkInvalid (env : StartEnv) : State pf :=
  if m.service.attr.invalid then m
  else
    let m := m.setAttr { m.service.attr with needRestart := false, needStop := false }
    if env.stat then m
    else
      { m with service := { m.service with
          attr := { m.service.attr with invalid := true }, lastErrno := some .epath } }

/-- `IsServiceInvalid`: what it answers. -/
def isServiceInvalid (env : StartEnv) : ServiceRet :=
  if m.service.attr.invalid then .failure
  else if env.stat then .success
  else .failure

/-- `ServiceStart` in the parent, from the fork on. -/
def forkService (env : StartEnv) : State pf × ServiceRet :=
  match env.fork with
  | none => ({ m with service := { m.service with lastErrno := some .efork } }, .failure)
  | some pid =>
    let m := m.call (.fork pid)
    let m := if m.isOnDemandService then m else m.call (.reportServiceStart pid)
    let m := m.setPid pid.1
    ((m.call (.notifyServiceChange .started)).call (.serviceForkAfterHook pid), .success)

/-- `pathArgs` may be NULL, and the path is its first argument. -/
def serviceStart (pathArgs : Option (List String)) (env : StartEnv) : State pf × ServiceRet :=
  if 0 < m.service.pid then (m, .success)
  else if pathArgs.getD [] = [] then (m, .failure)
  else
    let ret := m.isServiceInvalid env
    let m := m.checkInvalid env
    if ret ≠ .success then (m, .failure)
    else ((m.call .serviceForkBeforeHook).doJob m.service.serviceJobs.preStart).forkService env

/-! ## Timers -/

def serviceStopTimer : State pf :=
  if m.isServiceWithTimerEnabled then
    let loop := match m.service.timer with
      | some timer => pf.timers.stop m.loop timer
      | none => m.loop
    { m with
      loop
      service := { m.service with
        timer := none, attr := { m.service.attr with timerEnabled := false } } }
  else m

/-- `ServiceStartTimer` and `ServiceReStartTimer`, which differ in the handler they set. -/
def setTimer (process : TimerProcess) (timeout : Nat) (env : TimerEnv) : State pf :=
  let m := if m.isServiceWithTimerEnabled then m.serviceStopTimer else m
  if env.createTimer then
    let created := pf.timers.create m.loop process
    let m : State pf := { m with
      loop := created.1, service := { m.service with timer := some created.2 } }
    -- When the timer does not start, the handle stays in the service with the attribute clear.
    if env.startTimer then
      { m with
        loop := pf.timers.start m.loop created.2 timeout
        service := { m.service with
          attr := { m.service.attr with timerEnabled := true } } }
    else m
  else m

def serviceStartTimer (timeout : Nat) (env : TimerEnv) : State pf :=
  m.setTimer .serviceTimerStartProcess timeout env

def serviceReStartTimer (timeout : Nat) (env : TimerEnv) : State pf :=
  m.setTimer .serviceTimerReStartProcess timeout env

/-- The handler of the start timer. -/
def serviceTimerStartProcess (env : StartEnv) : State pf :=
  let m := m.serviceStopTimer
  (m.serviceStart (some m.service.pathArgs) env).1

/-- The handler of the restart timer. -/
def serviceTimerReStartProcess (env : StartEnv) : State pf :=
  let m := m.serviceStopTimer
  let m := m.doJob m.service.serviceJobs.onRestart
  (m.serviceStart (some m.service.pathArgs) env).1

/-! ## Stopping -/

/-- `CloseServiceFds` -/
def closeServiceFds : State pf :=
  { m with
    service := { m.service with fds := [] }
    calls := m.calls ++ (m.service.fds.filter (· ≠ -1)).map .close }

/-- `ServiceStop` for a service with a process. -/
def stopProcess (killed : Bool) : State pf × ServiceRet :=
  let m := (m.call .closeServiceSocket).call .closeServiceFile
  let m := if m.service.fds ≠ [] then m.closeServiceFds else m
  let m := if m.isServiceWithTimerEnabled then m.serviceStopTimer else m
  let m := m.call (.kill m.service.pid (pf.getKillServiceSig m.service.name))
  if killed then ((m.setPid (-1)).call (.notifyServiceChange .stopped), .success)
  else (m, .failure)

/-- `killed` says that `kill` succeeds. -/
def serviceStop (killed : Bool) : State pf × ServiceRet :=
  let m := m.call (.notifyServiceChange .stopping)
  let m := m.doJob m.service.serviceJobs.onStop
  let m := m.setAttr { m.service.attr with needRestart := false, needStop := true }
  -- This return comes before the timer is looked at.
  if m.service.pid ≤ 0 then (m, .success)
  else m.stopProcess killed

/-! ## Reaping -/

/-- `CalculateCrashTime`: the service with its crashes counted, and whether it may go on. -/
def calculateCrashTime (pf : Platform) (curTime : Timespec) (service : Service pf.timers.Handle)
    (crashTimeLimit crashCountLimit : Int) : Service pf.timers.Handle × Bool :=
  if 0 < crashTimeLimit ∧ 0 < crashCountLimit then
    if service.crashCnt = 0 then
      let service := { service with
        firstCrashTime := UInt32.ofNat curTime.tvSec, crashCnt := service.crashCnt + 1 }
      (service, service.crashCnt ≠ crashCountLimit)
    else if (toUInt32 crashTimeLimit).toNat <
        pf.intervalTime ⟨service.firstCrashTime.toNat, 0⟩ curTime then
      ({ service with firstCrashTime := UInt32.ofNat curTime.tvSec, crashCnt := 1 }, true)
    else
      let service := { service with crashCnt := service.crashCnt + 1 }
      (service, service.crashCnt < crashCountLimit)
  else (service, false)

/-- `CalculateCrashTime` with the limits of the service. -/
def countCrash (curTime : Timespec) : State pf :=
  { m with service :=
      (calculateCrashTime pf curTime m.service m.service.crashTime m.service.crashCount).1 }

/-- The answer of `CalculateCrashTime` with the limits of the service. -/
def mayGoOn (curTime : Timespec) : Bool :=
  (calculateCrashTime pf curTime m.service m.service.crashTime m.service.crashCount).2

def execRestartCmd : State pf :=
  match m.service.restartArg with
  | none => m
  | some cmds =>
    { m with service := { m.service with restartArg := none }
             calls := m.calls ++ cmds.map .doCmdByIndex }

def checkOndemandService (env : ReapEnv) : State pf :=
  let m := m.call .checkServiceSocket
  if m.service.name = "console" then
    let m := m.call .watchConsoleDevice
    if env.watchConsoleDevice < 0 then
      m.setAttr { m.service.attr with invalid := true }
    else m
  else m

/-- `DEF_CRASH_TIME`, in milliseconds. -/
def defCrashTime : Nat := 240000

/-- The end of `ServiceReap`: the service is started again. -/
def restartService (env : StartEnv) : State pf :=
  let m := m.execRestartCmd
  let m := m.doJob m.service.serviceJobs.onRestart
  let m := (m.serviceStart (some m.service.pathArgs) env).1
  m.setAttr { m.service.attr with needRestart := false }

/-- `ServiceReap` of a critical service that crashed too often. -/
def panicReboot (tmp : Int) : State pf :=
  (((m.setPid tmp).call (.serviceReapHook tmp)).setPid (-1)).call (.execReboot "panic")

/-- `ServiceReap` of a service that is not stopped, one-shot, periodic or on demand. -/
def reapCrashed (tmp : Int) (env : ReapEnv) : State pf :=
  if m.service.attr.critical then
    if m.mayGoOn env.curTime then (m.countCrash env.curTime).restartService env.start
    -- `ExecReboot` returns, and the service is started once more.
    else ((m.countCrash env.curTime).panicReboot tmp).restartService env.start
  else if m.service.attr.needRestart then m.restartService env.start
  else if m.mayGoOn env.curTime then (m.countCrash env.curTime).restartService env.start
  else
    let m := m.countCrash env.curTime
    let m : State pf := { m with service := { m.service with crashCnt := 0 } }
    m.serviceReStartTimer defCrashTime env.timer

/-- `ServiceReap` from the check for `SERVICE_ATTR_NEED_STOP` on. -/
def reapDecide (tmp : Int) (env : ReapEnv) : State pf :=
  if m.service.attr.needStop then
    { m with service := { m.service with
        attr := { m.service.attr with needStop := false }, crashCnt := 0 } }
  else if m.service.attr.once ∧ ¬ m.service.attr.needRestart then
    m.setAttr { m.service.attr with needStop := false }
  else if m.service.attr.period then m.serviceStartTimer m.service.period env.timer
  else if m.isOnDemandService then m.checkOndemandService env
  else m.reapCrashed tmp env

def serviceReap (env : ReapEnv) : State pf :=
  let tmp := m.service.pid
  let m := (m.call (.notifyServiceChange .stopped)).setPid (-1)
  if m.service.attr.invalid then m
  else if m.isServiceWithTimerEnabled then m
  else
    let m := if m.isOnDemandService then m else m.call .closeServiceSocket
    (m.call .closeServiceFile).reapDecide tmp env

end State

end InitService
