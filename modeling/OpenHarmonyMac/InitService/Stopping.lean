import OpenHarmonyMac.Infra.Transition
import OpenHarmonyMac.InitService.Service

/-!
# Stopped services

* `TimerInSync` — the armed timer is the one that the service knows, in every reachable state
* `stays_stopped_iff` — when a stopped service stays stopped: if its timer was not left armed
-/

namespace InitService

open Infra

variable {pf : Platform}

/-! ## The events of a service -/

inductive Event (pf : Platform)
  /-- `ServiceStart` requested from outside. -/
  | start (pathArgs : Option (List String)) (env : StartEnv)
  | stop (killed : Bool)
  /-- The service is marked for a restart at its next death. -/
  | markRestart (restartArg : Option (List CmdLine))
  /-- A process died. The SIGCHLD handler reaps the service that it finds for it. -/
  | childDied (pid : Pid) (env : ReapEnv)
  | timeout (timer : pf.timers.Handle) (env : StartEnv)

namespace State

/-- The handler of an expired timer. -/
def runTimer (m : State pf) (process : Option TimerProcess) (env : StartEnv) : State pf :=
  match process with
  | none => m
  | some .serviceTimerStartProcess => m.serviceTimerStartProcess env
  | some .serviceTimerReStartProcess => m.serviceTimerReStartProcess env

def handle (m : State pf) : Event pf → State pf
  | .start pathArgs env => (m.serviceStart pathArgs env).1
  | .stop killed => (m.serviceStop killed).1
  | .markRestart restartArg =>
    { m with service := { m.service with
        attr := { m.service.attr with needRestart := true }, restartArg } }
  | .childDied pid env => if pf.getServiceByPid m.service pid.1 then m.serviceReap env else m
  | .timeout timer env =>
    { m with loop := pf.timers.expire m.loop timer }.runTimer (pf.timers.handler m.loop timer) env

/-- A service with no process and no timer, any attributes, and nothing called yet. -/
structure IsInitial (m : State pf) : Prop where
  pid : m.service.pid ≤ 0
  timer : m.service.timer = none
  timerEnabled : m.service.attr.timerEnabled = false
  loop : m.loop = pf.timers.empty
  calls : m.calls = []

end State

/-- A timer expires only when it is armed. -/
def Event.Enabled (m : State pf) : Event pf → Prop
  | .timeout timer _ => pf.timers.armed m.loop timer = true
  | _ => True

instance (m : State pf) : ∀ e : Event pf, Decidable (e.Enabled m)
  | .start _ _ => inferInstanceAs (Decidable True)
  | .stop _ => inferInstanceAs (Decidable True)
  | .markRestart _ => inferInstanceAs (Decidable True)
  | .childDied _ _ => inferInstanceAs (Decidable True)
  | .timeout timer _ => inferInstanceAs (Decidable (pf.timers.armed _ timer = true))

/-- Init with one service. -/
def initService (pf : Platform) : System (State pf) (Event pf) where
  init := State.IsInitial
  enabled m e := e.Enabled m
  step := State.handle

/-- Not a `ServiceStart` from outside. -/
def Event.Inside : Event pf → Prop
  | .start _ _ => False
  | _ => True

/-- From `m` on, as long as no start is requested from outside, no process is started. -/
def StaysStopped (m : State pf) : Prop :=
  ∀ es t, (∀ e ∈ es, e.Inside) → (initService pf).Run m es t → t.forks = m.forks

/-! ## What the entry points leave alone -/

namespace State

variable {m : State pf}

/-- The timers are as they were: in the loop, and as the service knows them. -/
structure SameTimer (m m' : State pf) : Prop where
  loop : m'.loop = m.loop
  timer : m'.service.timer = m.service.timer
  timerEnabled : m'.service.attr.timerEnabled = m.service.attr.timerEnabled

namespace SameTimer

variable {m' m'' : State pf}

@[refl] theorem refl (m : State pf) : SameTimer m m := ⟨rfl, rfl, rfl⟩

theorem trans (h : SameTimer m m') (h' : SameTimer m' m'') : SameTimer m m'' :=
  ⟨h'.loop.trans h.loop, h'.timer.trans h.timer, h'.timerEnabled.trans h.timerEnabled⟩

end SameTimer

theorem forks_call (c : Call) (hc : ∀ pid, c ≠ .fork pid) : (m.call c).forks = m.forks := by
  unfold forks
  rw [call_calls, List.filterMap_append]
  cases c with
  | fork pid => exact absurd rfl (hc pid)
  | _ => simp

@[simp] theorem forks_setPid (pid : Int) : (m.setPid pid).forks = m.forks := rfl

@[simp] theorem forks_setAttr (attr : ServiceAttr) : (m.setAttr attr).forks = m.forks := rfl

theorem forks_fork (pid : Pid) : (m.call (.fork pid)).forks = m.forks ++ [pid] := by
  simp [forks]

@[simp] theorem forks_doJob (job : Option String) : (m.doJob job).forks = m.forks := by
  cases job with
  | none => rfl
  | some job => exact forks_call _ (by simp)

theorem sameTimer_doJob (m : State pf) (job : Option String) : SameTimer m (m.doJob job) := by
  cases job with
  | none => rfl
  | some job => exact ⟨rfl, rfl, rfl⟩

@[simp] theorem doJob_service (job : Option String) : (m.doJob job).service = m.service := by
  cases job <;> rfl

theorem sameTimer_checkInvalid (m : State pf) (env : StartEnv) :
    SameTimer m (m.checkInvalid env) := by
  unfold checkInvalid
  split
  · rfl
  · dsimp only
    split <;> exact ⟨rfl, rfl, rfl⟩

theorem sameTimer_forkService (m : State pf) (env : StartEnv) :
    SameTimer m (m.forkService env).1 := by
  unfold forkService
  cases env.fork with
  | none => exact ⟨rfl, rfl, rfl⟩
  | some pid =>
    dsimp only
    split <;> exact ⟨rfl, rfl, rfl⟩

/-- `ServiceStart` does not look at the timer. -/
theorem sameTimer_serviceStart (m : State pf) (pathArgs : Option (List String)) (env : StartEnv) :
    SameTimer m (m.serviceStart pathArgs env).1 := by
  unfold serviceStart
  split
  · rfl
  split
  · rfl
  dsimp only
  split
  · exact sameTimer_checkInvalid m env
  · have hc : SameTimer m ((m.checkInvalid env).call .serviceForkBeforeHook) :=
      (sameTimer_checkInvalid m env).trans ⟨rfl, rfl, rfl⟩
    exact (hc.trans (sameTimer_doJob _ _)).trans (sameTimer_forkService _ env)

/-! ## The timer that the service knows -/

/-- The armed timers are those that the service knows: none, or the one in `service->timer` when
the attribute says that it is enabled. -/
structure TimerInSync (m : State pf) : Prop where
  armed_iff : ∀ h, pf.timers.armed m.loop h = true ↔
    m.service.attr.timerEnabled = true ∧ m.service.timer = some h
  held : m.service.attr.timerEnabled = true → ∃ h, m.service.timer = some h

/-- No timer is armed. -/
def NoTimer (m : State pf) : Prop := ∀ h, pf.timers.armed m.loop h = false

theorem TimerInSync.congr {m' : State pf} (h : TimerInSync m) (hs : SameTimer m m') :
    TimerInSync m' where
  armed_iff h' := by
    rw [hs.loop, hs.timer, hs.timerEnabled]
    exact h.armed_iff h'
  held := by
    rw [hs.timer, hs.timerEnabled]
    exact h.held

theorem TimerInSync.noTimer_iff (h : TimerInSync m) :
    m.NoTimer ↔ m.service.attr.timerEnabled = false := by
  constructor
  · intro hn
    by_contra he
    obtain ⟨t, ht⟩ := h.held (by simpa using he)
    have ha := (h.armed_iff t).mpr ⟨by simpa using he, ht⟩
    rw [hn t] at ha
    cases ha
  · intro he t
    by_contra ha
    have hk := (h.armed_iff t).mp (by simpa using ha)
    rw [he] at hk
    cases hk.1

/-- A state without timers in which the service knows of none. -/
theorem TimerInSync.of_noTimer (hn : m.NoTimer) (he : m.service.attr.timerEnabled = false) :
    TimerInSync m where
  armed_iff h := by simp [hn h, he]
  held := by simp [he]

@[simp] theorem serviceStopTimer_timerEnabled :
    m.serviceStopTimer.service.attr.timerEnabled = false := by
  unfold serviceStopTimer isServiceWithTimerEnabled
  split
  · rfl
  · next h => exact Bool.not_eq_true _ ▸ h

/-- If only the timer that the service knows can be armed, none is after `ServiceStopTimer`. -/
theorem noTimer_serviceStopTimer (h : ∀ t, pf.timers.armed m.loop t = true →
    m.service.attr.timerEnabled = true ∧ m.service.timer = some t) :
    m.serviceStopTimer.NoTimer := by
  intro t
  by_contra ha
  unfold serviceStopTimer isServiceWithTimerEnabled at ha
  split at ha
  · cases hs : m.service.timer with
    | none =>
      rw [hs] at ha
      have hk := h t (by simpa using ha)
      rw [hs] at hk
      cases hk.2
    | some t' =>
      rw [hs] at ha
      obtain ⟨hne, hold⟩ := pf.timers.armed_of_armed_stop (by simpa using ha)
      have hk := h t hold
      rw [hs, Option.some.injEq] at hk
      exact hne hk.2.symm
  · next he => exact he (h t (by simpa using ha)).1

theorem TimerInSync.serviceStopTimer (h : TimerInSync m) : TimerInSync m.serviceStopTimer :=
  .of_noTimer (noTimer_serviceStopTimer fun t => (h.armed_iff t).mp) serviceStopTimer_timerEnabled

theorem setTimer_inSync (h : TimerInSync m) (process : TimerProcess) (timeout : Nat)
    (env : TimerEnv) : TimerInSync (m.setTimer process timeout env) := by
  unfold setTimer
  dsimp only
  generalize hm : (if m.isServiceWithTimerEnabled then m.serviceStopTimer else m) = m'
  -- The old timer is stopped first, so `m'` has no armed timer.
  have he : m'.service.attr.timerEnabled = false := by
    rw [← hm]
    split
    · exact serviceStopTimer_timerEnabled
    · next hn => exact Bool.not_eq_true _ ▸ hn
  have hs : TimerInSync m' := by
    rw [← hm]
    split
    · exact h.serviceStopTimer
    · exact h
  have hn : m'.NoTimer := hs.noTimer_iff.mpr he
  have hc : ∀ t, pf.timers.armed (pf.timers.create m'.loop process).1 t = false := fun t => by
    rw [pf.timers.armed_create, hn t]
  split
  · split
    · refine ⟨fun t => ?_, fun _ => ⟨_, rfl⟩⟩
      have hh : (pf.timers.handler (pf.timers.create m'.loop process).1
          (pf.timers.create m'.loop process).2).isSome := by
        rw [pf.timers.handler_create]
        rfl
      rw [pf.timers.armed_start_iff hc hh timeout]
      simp [eq_comm]
    · exact .of_noTimer hc he
  · exact hs

/-! ## Every event keeps the timer in sync -/

theorem sameTimer_restartService (m : State pf) (env : StartEnv) :
    SameTimer m (m.restartService env) := by
  have hr : SameTimer m m.execRestartCmd := by
    unfold execRestartCmd
    split <;> exact ⟨rfl, rfl, rfl⟩
  have hj := hr.trans (sameTimer_doJob m.execRestartCmd m.execRestartCmd.service.serviceJobs.onRestart)
  unfold restartService
  exact (hj.trans (sameTimer_serviceStart _ _ env)).trans ⟨rfl, rfl, rfl⟩

theorem calculateCrashTime_same (curTime : Timespec) (service : Service pf.timers.Handle)
    (limit count : Int) :
    (calculateCrashTime pf curTime service limit count).1.timer = service.timer ∧
      (calculateCrashTime pf curTime service limit count).1.attr = service.attr := by
  unfold calculateCrashTime
  split
  · split
    · exact ⟨rfl, rfl⟩
    · split <;> exact ⟨rfl, rfl⟩
  · exact ⟨rfl, rfl⟩

theorem sameTimer_countCrash (m : State pf) (curTime : Timespec) :
    SameTimer m (m.countCrash curTime) where
  loop := rfl
  timer := (calculateCrashTime_same curTime _ _ _).1
  timerEnabled := congrArg ServiceAttr.timerEnabled (calculateCrashTime_same curTime _ _ _).2

theorem TimerInSync.reapCrashed (h : TimerInSync m) (tmp : Int) (env : ReapEnv) :
    TimerInSync (m.reapCrashed tmp env) := by
  have hc := sameTimer_countCrash m env.curTime
  unfold State.reapCrashed
  split
  · split
    · exact h.congr (hc.trans (sameTimer_restartService _ _))
    · have hp : SameTimer m ((m.countCrash env.curTime).panicReboot tmp) :=
        hc.trans ⟨rfl, rfl, rfl⟩
      exact h.congr (hp.trans (sameTimer_restartService _ _))
  split
  · exact h.congr (sameTimer_restartService _ _)
  split
  · exact h.congr (hc.trans (sameTimer_restartService _ _))
  · have hz : SameTimer m { m.countCrash env.curTime with
        service := { (m.countCrash env.curTime).service with crashCnt := 0 } } :=
      hc.trans ⟨rfl, rfl, rfl⟩
    exact setTimer_inSync (h.congr hz) .serviceTimerReStartProcess defCrashTime env.timer

theorem TimerInSync.reapDecide (h : TimerInSync m) (tmp : Int) (env : ReapEnv) :
    TimerInSync (m.reapDecide tmp env) := by
  unfold State.reapDecide
  split
  · exact h.congr ⟨rfl, rfl, rfl⟩
  split
  · exact h.congr ⟨rfl, rfl, rfl⟩
  split
  · exact setTimer_inSync h _ _ _
  split
  · unfold checkOndemandService
    dsimp only
    split
    · split <;> exact h.congr ⟨rfl, rfl, rfl⟩
    · exact h.congr ⟨rfl, rfl, rfl⟩
  · exact h.reapCrashed tmp env

theorem TimerInSync.serviceReap (h : TimerInSync m) (env : ReapEnv) :
    TimerInSync (m.serviceReap env) := by
  unfold State.serviceReap
  dsimp only
  split
  · exact h.congr ⟨rfl, rfl, rfl⟩
  split
  · exact h.congr ⟨rfl, rfl, rfl⟩
  · refine TimerInSync.reapDecide ?_ _ env
    split <;> exact h.congr ⟨rfl, rfl, rfl⟩

/-- A handler of a timer stops the timer and starts the service. -/
theorem runTimer_eq (m : State pf) (process : TimerProcess) (env : StartEnv) :
    ∃ m', SameTimer m.serviceStopTimer m' ∧ m'.service = m.serviceStopTimer.service ∧
      m'.forks = m.serviceStopTimer.forks ∧
      m.runTimer (some process) env = (m'.serviceStart (some m'.service.pathArgs) env).1 := by
  cases process with
  | serviceTimerStartProcess => exact ⟨m.serviceStopTimer, .refl _, rfl, rfl, rfl⟩
  | serviceTimerReStartProcess =>
    exact ⟨_, sameTimer_doJob m.serviceStopTimer _, doJob_service _, forks_doJob _, rfl⟩

theorem TimerInSync.timeout (h : TimerInSync m) {timer : pf.timers.Handle}
    (ha : pf.timers.armed m.loop timer = true) (env : StartEnv) :
    TimerInSync (m.handle (.timeout timer env)) := by
  obtain ⟨process, hp⟩ := Option.isSome_iff_exists.mp (pf.timers.handler_of_armed _ _ ha)
  obtain ⟨m', hs, -, -, he⟩ :=
    runTimer_eq { m with loop := pf.timers.expire m.loop timer } process env
  rw [handle, hp, he]
  have hn : TimerInSync { m with loop := pf.timers.expire m.loop timer }.serviceStopTimer := by
    refine .of_noTimer (noTimer_serviceStopTimer fun t ht => ?_) serviceStopTimer_timerEnabled
    exact (h.armed_iff t).mp (pf.timers.armed_of_armed_expire ht).2
  exact (hn.congr hs).congr (sameTimer_serviceStart m' _ env)

/-! ## Stopping -/

/-- Same process, and the same answer to whether another can be started. -/
structure SameProcess (m m' : State pf) : Prop where
  pid : m'.service.pid = m.service.pid
  pathArgs : m'.service.pathArgs = m.service.pathArgs
  invalid : m'.service.attr.invalid = m.service.attr.invalid
  forks : m'.forks = m.forks

theorem SameProcess.trans {m' m'' : State pf} (h : SameProcess m m') (h' : SameProcess m' m'') :
    SameProcess m m'' :=
  ⟨h'.pid.trans h.pid, h'.pathArgs.trans h.pathArgs, h'.invalid.trans h.invalid,
    h'.forks.trans h.forks⟩

theorem sameProcess_serviceStopTimer (m : State pf) : SameProcess m m.serviceStopTimer := by
  unfold serviceStopTimer
  split <;> exact ⟨rfl, rfl, rfl, rfl⟩

/-- `ServiceStop` up to the check of the process. -/
def beginStop (m : State pf) : State pf :=
  let m := m.call (.notifyServiceChange .stopping)
  let m := m.doJob m.service.serviceJobs.onStop
  m.setAttr { m.service.attr with needRestart := false, needStop := true }

theorem serviceStop_eq (m : State pf) (killed : Bool) : m.serviceStop killed =
    if m.beginStop.service.pid ≤ 0 then (m.beginStop, .success)
    else m.beginStop.stopProcess killed := rfl

theorem sameProcess_beginStop (m : State pf) : SameProcess m m.beginStop where
  pid := by simp [beginStop]
  pathArgs := by simp [beginStop]
  invalid := by simp [beginStop]
  forks := by
    rw [beginStop, forks_setAttr, forks_doJob, forks_call _ (by simp)]

theorem sameTimer_beginStop (m : State pf) : SameTimer m m.beginStop := by
  have hn : SameTimer m (m.call (.notifyServiceChange .stopping)) := ⟨rfl, rfl, rfl⟩
  exact (hn.trans (sameTimer_doJob _ _)).trans ⟨rfl, rfl, rfl⟩

/-- Of a service without a process, `ServiceStop` does not stop the timer. -/
theorem serviceStop_of_no_process (hp : m.service.pid ≤ 0) (killed : Bool) :
    m.serviceStop killed = (m.beginStop, .success) := by
  rw [serviceStop_eq, if_pos ((sameProcess_beginStop m).pid.le.trans hp)]

/-- Of a service with a process, `ServiceStop` stops the timer, and if it succeeds the process. -/
theorem stopProcess_spec (h : TimerInSync m) (killed : Bool) :
    TimerInSync (m.stopProcess killed).1 ∧ (m.stopProcess killed).1.NoTimer ∧
      ((m.stopProcess killed).2 = .success → (m.stopProcess killed).1.service.pid = -1) := by
  unfold stopProcess
  dsimp only
  generalize hm : (if ((m.call _).call _).service.fds ≠ [] then _ else _) = m₁
  have h₁ : TimerInSync m₁ := by
    rw [← hm]
    split <;> exact h.congr ⟨rfl, rfl, rfl⟩
  generalize hm₂ : (if m₁.isServiceWithTimerEnabled then m₁.serviceStopTimer else m₁) = m₂
  have h₂ : TimerInSync m₂ ∧ m₂.service.attr.timerEnabled = false := by
    rw [← hm₂]
    split
    · exact ⟨h₁.serviceStopTimer, serviceStopTimer_timerEnabled⟩
    · next hn => exact ⟨h₁, Bool.not_eq_true _ ▸ hn⟩
  have hn : m₂.NoTimer := h₂.1.noTimer_iff.mpr h₂.2
  split
  · exact ⟨h₂.1.congr ⟨rfl, rfl, rfl⟩, hn, fun _ => rfl⟩
  · exact ⟨h₂.1.congr ⟨rfl, rfl, rfl⟩, hn, fun hf => by cases hf⟩

theorem TimerInSync.serviceStop (h : TimerInSync m) (killed : Bool) :
    TimerInSync (m.serviceStop killed).1 := by
  have hb := h.congr (sameTimer_beginStop m)
  rw [serviceStop_eq]
  split
  · exact hb
  · exact (stopProcess_spec hb killed).1

/-- **The step lemma.** -/
theorem TimerInSync.handle (h : TimerInSync m) {e : Event pf} (he : e.Enabled m) :
    TimerInSync (m.handle e) := by
  cases e with
  | start pathArgs env => exact h.congr (sameTimer_serviceStart m pathArgs env)
  | stop killed => exact h.serviceStop killed
  | markRestart restartArg => exact h.congr ⟨rfl, rfl, rfl⟩
  | childDied pid env =>
    rw [State.handle]
    split
    · exact h.serviceReap env
    · exact h
  | timeout timer env => exact h.timeout he env

theorem IsInitial.timerInSync (h : IsInitial m) : TimerInSync m :=
  .of_noTimer (fun t => by rw [h.loop, pf.timers.armed_empty]) h.timerEnabled

/-- **The run lemma.** -/
theorem timerInSync_of_reachable (h : (initService pf).Reachable m) : TimerInSync m :=
  h.invariant (fun _ => IsInitial.timerInSync) fun _ _ hm he => hm.handle he

end State

/-! ## Staying stopped -/

open State

variable {m : State pf}

/-- What `ServiceStart` says about the process: it forks one in the one case in which the service
has none, the path is there and the service is not invalid. -/
theorem serviceStart_forks (pathArgs : Option (List String)) (env : StartEnv) :
    (m.serviceStart pathArgs env).1.forks = m.forks ++
      if m.service.pid ≤ 0 ∧ pathArgs.getD [] ≠ [] ∧ m.isServiceInvalid env = .success then
        env.fork.toList
      else [] := by
  have hc : (m.checkInvalid env).forks = m.forks := by
    unfold checkInvalid
    split
    · rfl
    · dsimp only
      split <;> rfl
  unfold serviceStart
  by_cases hp : 0 < m.service.pid
  · rw [if_pos hp, if_neg (by omega), List.append_nil]
  rw [if_neg hp]
  by_cases ha : pathArgs.getD [] = []
  · rw [if_pos ha, if_neg (by simp [ha]), List.append_nil]
  rw [if_neg ha]
  dsimp only
  by_cases hi : m.isServiceInvalid env = .success
  · rw [if_neg (by simpa using hi), if_pos ⟨by omega, ha, hi⟩]
    unfold forkService
    cases env.fork with
    | none =>
      show (doJob _ _).forks = _
      rw [forks_doJob, forks_call _ (by simp), hc, Option.toList_none, List.append_nil]
    | some pid =>
      dsimp only
      rw [forks_call _ (by simp), forks_call _ (by simp), forks_setPid]
      have hf : ((((m.checkInvalid env).call .serviceForkBeforeHook).doJob
          (m.checkInvalid env).service.serviceJobs.preStart).call (.fork pid)).forks =
            m.forks ++ [pid] := by
        rw [forks_fork, forks_doJob, forks_call _ (by simp), hc]
      split
      · exact hf
      · rw [forks_call _ (by simp), hf]
        rfl
  · rw [if_pos hi, if_neg (by simp [hi]), List.append_nil, hc]

/-- The service has nothing to start, or is marked invalid. -/
def CannotStart (m : State pf) : Prop :=
  m.service.attr.invalid = true ∨ m.service.pathArgs = []

theorem serviceStart_of_cannotStart (h : CannotStart m) (env : StartEnv) :
    (m.serviceStart (some m.service.pathArgs) env).1 = m := by
  unfold serviceStart
  by_cases hp : 0 < m.service.pid
  · rw [if_pos hp]
  rw [if_neg hp]
  by_cases ha : m.service.pathArgs = []
  · rw [if_pos (by simpa using ha)]
  · have hi : m.service.attr.invalid = true := h.resolve_right ha
    rw [if_neg (by simpa using ha)]
    simp [isServiceInvalid, checkInvalid, hi]

/-- No process, and none can come: there is no timer, or it would start nothing. -/
structure Down (m : State pf) : Prop where
  pid : m.service.pid ≤ 0
  noStart : m.NoTimer ∨ CannotStart m

theorem CannotStart.congr {m' : State pf} (h : CannotStart m) (hp : SameProcess m m') :
    CannotStart m' := by
  unfold CannotStart
  rw [hp.invalid, hp.pathArgs]
  exact h

theorem Down.congr {m' : State pf} (h : Down m) (hp : SameProcess m m') (ht : m'.loop = m.loop) :
    Down m' where
  pid := hp.pid.le.trans h.pid
  noStart := h.noStart.imp (fun hn t => by rw [ht, hn t]) fun hc => hc.congr hp

/-- The handler of a timer of a service that cannot be started changes only the timer. -/
theorem CannotStart.runTimer (h : CannotStart m) (process : TimerProcess) (env : StartEnv) :
    SameProcess m (m.runTimer (some process) env) := by
  obtain ⟨m', -, hserv, hforks, he⟩ := runTimer_eq m process env
  have hp : SameProcess m m' :=
    (sameProcess_serviceStopTimer m).trans
      ⟨by rw [hserv], by rw [hserv], by rw [hserv], hforks⟩
  rw [he, serviceStart_of_cannotStart (h.congr hp)]
  exact hp

/-- A service that is down stays down in every step that is not a start from outside. -/
theorem Down.handle (h : Down m) {e : Event pf} (he : e.Enabled m) (hin : e.Inside) :
    Down (m.handle e) ∧ (m.handle e).forks = m.forks := by
  cases e with
  | start pathArgs env => exact hin.elim
  | stop killed =>
    rw [State.handle, serviceStop_of_no_process h.pid]
    have hp := sameProcess_beginStop m
    exact ⟨h.congr hp (sameTimer_beginStop m).loop, hp.forks⟩
  | markRestart restartArg => exact ⟨h.congr ⟨rfl, rfl, rfl, rfl⟩ rfl, rfl⟩
  | childDied pid env =>
    -- The process that died is not the service's: the service has none.
    have hn : pf.getServiceByPid m.service pid.1 ≠ true := fun hg => by
      have hpid := pf.getServiceByPid_pid _ _ hg
      have hpos := pid.2
      have hdown := h.pid
      omega
    rw [State.handle, if_neg hn]
    exact ⟨h, rfl⟩
  | timeout timer env =>
    rcases h.noStart with hn | hc
    · have ha : pf.timers.armed m.loop timer = true := he
      rw [hn timer] at ha
      cases ha
    · obtain ⟨process, hproc⟩ :=
        Option.isSome_iff_exists.mp (pf.timers.handler_of_armed _ _ he)
      have hc' : CannotStart { m with loop := pf.timers.expire m.loop timer } := hc
      have hl : SameProcess m { m with loop := pf.timers.expire m.loop timer } :=
        ⟨rfl, rfl, rfl, rfl⟩
      have hp : SameProcess m (m.handle (.timeout timer env)) := by
        rw [State.handle, hproc]
        exact hl.trans (hc'.runTimer process env)
      exact ⟨⟨hp.pid.le.trans h.pid, .inr (hc.congr hp)⟩, hp.forks⟩

theorem Down.staysStopped (h : Down m) : StaysStopped m := by
  intro es t hin hr
  have hI : Down t ∧ t.forks = m.forks := by
    induction hr with
    | nil m => exact ⟨h, rfl⟩
    | @cons m e es t he _ ih =>
      obtain ⟨hd, hf⟩ := h.handle he (hin e (List.mem_cons_self ..))
      obtain ⟨ht, hft⟩ := ih hd fun e' he' => hin e' (List.mem_cons_of_mem _ he')
      exact ⟨ht, hft.trans hf⟩
  exact hI.2

/-- The process with number 1. -/
def anyPid : Pid := ⟨1, Nat.one_pos⟩

/-- An armed timer starts the service, if the system lets it. -/
theorem not_staysStopped_of_armed (hp : m.service.pid ≤ 0) (hc : ¬ CannotStart m)
    {timer : pf.timers.Handle} (ha : pf.timers.armed m.loop timer = true) :
    ¬ StaysStopped m := by
  intro hs
  have hf := hs [.timeout timer { fork := some anyPid }] _ (by simp [Event.Inside])
    (System.Run.single ha)
  obtain ⟨process, hproc⟩ := Option.isSome_iff_exists.mp (pf.timers.handler_of_armed _ _ ha)
  obtain ⟨m', -, hserv, hforks, he⟩ :=
    runTimer_eq { m with loop := pf.timers.expire m.loop timer } process { fork := some anyPid }
  have hsame : SameProcess m m' := by
    have hst := sameProcess_serviceStopTimer { m with loop := pf.timers.expire m.loop timer }
    exact ⟨by rw [hserv, hst.pid], by rw [hserv, hst.pathArgs], by rw [hserv, hst.invalid],
      hforks.trans hst.forks⟩
  obtain ⟨hi, hargs⟩ := not_or.mp hc
  change (m.handle _).forks = _ at hf
  rw [State.handle, hproc, he, serviceStart_forks, if_pos, hsame.forks] at hf
  · simp at hf
  · refine ⟨hsame.pid.le.trans hp, by simpa [hsame.pathArgs] using hargs, ?_⟩
    simp [isServiceInvalid, hsame.invalid, hi]

/-- Before `ServiceStop`: the service has a process, or no timer is enabled, or nothing can be
started. -/
def TimerMeetsStop (m : State pf) : Prop :=
  0 < m.service.pid ∨ m.isServiceWithTimerEnabled = false ∨ CannotStart m

/-- **A stopped service stays stopped** just in case `ServiceStop` did not find it without a
process while its timer was enabled. -/
theorem stays_stopped_iff (h : (initService pf).Reachable m) {killed : Bool}
    (hs : (m.serviceStop killed).2 = .success) :
    StaysStopped (m.serviceStop killed).1 ↔ TimerMeetsStop m := by
  have hsync := timerInSync_of_reachable h
  have hbegin := hsync.congr (sameTimer_beginStop m)
  by_cases hp : m.service.pid ≤ 0
  · rw [serviceStop_of_no_process hp]
    have hproc := sameProcess_beginStop m
    constructor
    · intro hstay
      by_contra hmeets
      obtain ⟨-, hrest⟩ := not_or.mp hmeets
      obtain ⟨henabled, hcan⟩ := not_or.mp hrest
      obtain ⟨timer, htimer⟩ := hsync.held (by simpa [isServiceWithTimerEnabled] using henabled)
      have harmed : pf.timers.armed m.beginStop.loop timer = true := by
        rw [(sameTimer_beginStop m).loop]
        exact (hsync.armed_iff timer).mpr
          ⟨by simpa [isServiceWithTimerEnabled] using henabled, htimer⟩
      have hcan' : ¬ CannotStart m.beginStop := by
        unfold CannotStart
        rw [hproc.invalid, hproc.pathArgs]
        exact hcan
      exact not_staysStopped_of_armed (hproc.pid.le.trans hp) hcan' harmed hstay
    · intro hmeets
      refine Down.staysStopped ⟨hproc.pid.le.trans hp, ?_⟩
      rcases hmeets with hpos | henabled | hcannot
      · omega
      · refine .inl (hbegin.noTimer_iff.mpr ?_)
        rw [(sameTimer_beginStop m).timerEnabled]
        exact henabled
      · exact .inr (hcannot.congr hproc)
  · -- With a process, `ServiceStop` stops the timer, and it succeeds only if `kill` does.
    refine iff_of_true ?_ (.inl (by omega))
    have hnp : ¬ m.beginStop.service.pid ≤ 0 := by
      rw [(sameProcess_beginStop m).pid]
      exact hp
    rw [serviceStop_eq, if_neg hnp] at hs ⊢
    obtain ⟨-, hno, hpid⟩ := stopProcess_spec hbegin killed
    exact Down.staysStopped ⟨by rw [hpid hs]; decide, .inl hno⟩

/-! ## A service that crashes at once -/

/-- A platform with numbered timers. -/
def samplePlatform : Platform where
  timers := TimerLoop.slots TimerProcess
  intervalTime start stop := stop.tvSec - start.tvSec
  getKillServiceSig _ := 9
  getServiceByPid service pid := service.pid == pid
  getServiceByPid_pid _ _ h := by simpa using h

/-- A service that may crash once in 20 seconds, before it is started. -/
def sampleService : State samplePlatform where
  service := { name := "foundation", pathArgs := ["/system/bin/sa_main"], crashTime := 20,
               crashCount := 1 }
  loop := ([] : List (TimerSlot TimerProcess))

instance (m : State pf) (e : Event pf) : Decidable ((initService pf).enabled m e) :=
  inferInstanceAs (Decidable (e.Enabled m))

/-- The service after these events. -/
def sampleRun (es : List (Event samplePlatform)) : State samplePlatform :=
  es.foldl State.handle sampleService

theorem sampleRun_reachable (es : List (Event samplePlatform))
    (h : (initService samplePlatform).EnabledAll sampleService es) :
    (initService samplePlatform).Reachable (sampleRun es) :=
  ⟨sampleService, es, ⟨by decide, rfl, rfl, rfl, rfl⟩, System.Run.of_enabledAll h⟩

/-- The service is started as process 100 and dies. -/
def crashRun : List (Event samplePlatform) :=
  [.start (some ["/system/bin/sa_main"]) { fork := some ⟨100, by decide⟩ },
    .childDied ⟨100, by decide⟩ {}]

/-- The restart timer of the crashed service expires, and process 101 is stopped. -/
theorem stays_stopped_iff_run :
    StaysStopped ((sampleRun (crashRun ++
      [.timeout (0 : Nat) { fork := some ⟨101, by decide⟩ }])).serviceStop true).1 :=
  (stays_stopped_iff (sampleRun_reachable _ (by decide +kernel)) (by decide +kernel)).mpr
    (.inl (by decide +kernel))

/-- Stopped between the crash and the restart, the service is started again. -/
theorem restarted_after_stop : ∃ m, (initService samplePlatform).Reachable m ∧
    m = sampleRun crashRun ∧ (m.serviceStop true).2 = .success ∧
    ¬ StaysStopped (m.serviceStop true).1 := by
  refine ⟨_, sampleRun_reachable crashRun (by decide +kernel), rfl, by decide +kernel, ?_⟩
  intro h
  have hf := h [.timeout (0 : Nat) { fork := some ⟨101, by decide⟩ }] _ (by simp [Event.Inside])
    (System.Run.single (by decide +kernel))
  exact absurd hf (by decide +kernel)

end InitService
