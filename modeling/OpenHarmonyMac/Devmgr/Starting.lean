import OpenHarmonyMac.Devmgr.Service

/-!
# One process for each stopped host

`DevmgrServiceLoadDevice` checks `hostPid` under the lock and starts the process without it.

* `one_process_per_stop` — between two stops a host is started at most once, in every run in which
  a stopped host is only found by one call at a time, and can be stopped
* `two_loads_start_two_processes` — two calls that both find the host stopped
-/

namespace Devmgr

open Infra

variable {inst : Installer} {info : HostInfo} {s : Host} {c : Nat}

/-- The processes started since the host was last stopped. -/
def startsSinceStop : List InstallerCall → Nat
  | [] => 0
  | .stop :: _ => 0
  | .start none _ :: calls => startsSinceStop calls
  | .start (some _) _ :: calls => startsSinceStop calls + 1

/-- The call starts a process, and has not come to the end of that. -/
def CallPc.Starting : CallPc → Prop
  | .startDeviceHost | .storePid | .checkPid | .clearStopFlag | .poll | .stopTimedOut
  | .clearPid => True
  | _ => False

/-- The next step of the call starts, stores or forgets a process, or stops the host. -/
def CallPc.AtStake : CallPc → Prop
  | .startDeviceHost | .storePid | .clearPid | .stopHost => True
  | _ => False

namespace Host

/-- A call that finds the host stopped is the only one that starts it, and none is still to stop
it. And the installer can stop a host. -/
def Alone (inst : Installer) (s : Host) : HostEvent → Prop
  | .loadLocked _ _ => s.hostPid < 0 →
      (∀ c, ¬ (s.calls c).Starting) ∧ ∀ c, s.calls c ≠ .stopHost
  | .stopTimedOut _ => inst.stopDeviceHost = true
  | .stopHost _ => inst.stopDeviceHost = true
  | _ => True

/-- The call has not started a process, or has stopped it again. -/
def Unstarted (s : Host) (c : Nat) : Prop :=
  s.calls c = .startDeviceHost ∨ s.calls c = .clearPid ∨
    s.calls c = .storePid ∧ s.startedPid c = none

/-- A process that the client does not know is about to be stored or to be stopped. -/
def Pending (s : Host) : Prop :=
  ∃ c, s.calls c = .stopHost ∨ s.calls c = .storePid ∧ (s.startedPid c).isSome

/-- At most one process has been started since the last stop, by at most one call at a time, and
none if the client is stopped and nothing is pending. -/
structure OneStart (s : Host) : Prop where
  atMost : startsSinceStop s.installerCalls ≤ 1
  one : ∀ c c', (s.calls c).Starting → (s.calls c').Starting → c = c'
  unstarted : ∀ c, s.Unstarted c → startsSinceStop s.installerCalls = 0
  stopped : s.hostPid < 0 → startsSinceStop s.installerCalls = 0 ∨ s.Pending

theorem Unstarted.starting (h : s.Unstarted c) : (s.calls c).Starting := by
  rcases h with h | h | ⟨h, -⟩ <;> rw [h] <;> trivial

/-! ## The steps -/

variable {t : Host} {pc : CallPc}

/-- The call goes on at `pc`, and no other call is moved. -/
structure Moves (s t : Host) (c : Nat) (pc : CallPc) : Prop where
  calls : t.calls = Function.update s.calls c pc
  startedPid : ∀ c' ≠ c, t.startedPid c' = s.startedPid c'

theorem Moves.self (h : s.Moves t c pc) : t.calls c = pc := by
  rw [h.calls, Function.update_self]

theorem Moves.of_ne (h : s.Moves t c pc) {c' : Nat} (hc : c' ≠ c) : t.calls c' = s.calls c' := by
  rw [h.calls, Function.update_of_ne hc]

theorem moves_goto (s : Host) (c : Nat) (pc : CallPc) : s.Moves (s.goto c pc) c pc :=
  ⟨rfl, fun _ _ => rfl⟩

/-- A call may only begin to start the host if no other one does. -/
theorem Moves.one (hm : s.Moves t c pc) (h : s.OneStart)
    (hstart : pc.Starting → (s.calls c).Starting ∨ ∀ c', ¬ (s.calls c').Starting) :
    ∀ c₁ c₂, (t.calls c₁).Starting → (t.calls c₂).Starting → c₁ = c₂ := by
  -- Another call that starts the host did so before the step.
  have hother : ∀ c', c' ≠ c → (t.calls c').Starting → ¬ (t.calls c).Starting := by
    intro c' hc' hs' hs
    rw [hm.of_ne hc'] at hs'
    rw [hm.self] at hs
    rcases hstart hs with hc | hnone
    · exact hc' (h.one c' c hs' hc)
    · exact hnone c' hs'
  intro c₁ c₂ h₁ h₂
  by_cases hc₁ : c₁ = c
  · by_cases hc₂ : c₂ = c
    · rw [hc₁, hc₂]
    · exact absurd (hc₁ ▸ h₁) (hother c₂ hc₂ h₂)
  · by_cases hc₂ : c₂ = c
    · exact absurd (hc₂ ▸ h₂) (hother c₁ hc₁ h₁)
    · rw [hm.of_ne hc₁] at h₁
      rw [hm.of_ne hc₂] at h₂
      exact h.one c₁ c₂ h₁ h₂

/-- Something pending stays so, if it is not this call. -/
theorem Moves.pending (hm : s.Moves t c pc) (h : s.Pending) (hstop : s.calls c ≠ .stopHost)
    (hstore : s.calls c ≠ .storePid) : t.Pending := by
  obtain ⟨c', hc'⟩ := h
  have hne : c' ≠ c := by
    rintro rfl
    exact hc'.elim hstop fun hst => hstore hst.1
  refine ⟨c', ?_⟩
  rw [hm.of_ne hne, hm.startedPid c' hne]
  exact hc'

/-- Another call that has not started a process had not done so before. -/
theorem Moves.unstarted (hm : s.Moves t c pc) {c' : Nat} (hc : c' ≠ c) (h : t.Unstarted c') :
    s.Unstarted c' := by
  unfold Unstarted at h ⊢
  rwa [hm.of_ne hc, hm.startedPid c' hc] at h

/-- A step that neither starts nor stops a process. -/
theorem OneStart.keep (h : s.OneStart) (hm : s.Moves t c pc)
    (hlog : t.installerCalls = s.installerCalls)
    (hstart : pc.Starting → (s.calls c).Starting ∨ ∀ c', ¬ (s.calls c').Starting)
    (hself : t.Unstarted c → startsSinceStop s.installerCalls = 0)
    (hstopped : t.hostPid < 0 → startsSinceStop s.installerCalls = 0 ∨ t.Pending) : t.OneStart where
  atMost := hlog ▸ h.atMost
  one := hm.one h hstart
  unstarted c' hc' := by
    rw [hlog]
    by_cases hne : c' = c
    · exact hself (hne ▸ hc')
    · exact h.unstarted c' (hm.unstarted hne hc')
  stopped := hlog ▸ hstopped

/-- A step after which the host has not been started since it was stopped. -/
theorem OneStart.reset (h : s.OneStart) (hm : s.Moves t c pc)
    (hstart : pc.Starting → (s.calls c).Starting ∨ ∀ c', ¬ (s.calls c').Starting)
    (hzero : startsSinceStop t.installerCalls = 0) : t.OneStart where
  atMost := by omega
  one := hm.one h hstart
  unstarted _ _ := hzero
  stopped _ := .inl hzero

/-- A step of which the host sees nothing. -/
theorem OneStart.quiet (h : s.OneStart) (hm : s.Moves t c pc)
    (hlog : t.installerCalls = s.installerCalls) (hpid : t.hostPid = s.hostPid)
    (hstart : pc.Starting → (s.calls c).Starting) (hpc : ¬ pc.AtStake)
    (hc : ¬ (s.calls c).AtStake ∨ s.calls c = .startDeviceHost) : t.OneStart := by
  have hc' : s.calls c ≠ .stopHost ∧ s.calls c ≠ .storePid := by
    rcases hc with hc | hc
    · exact ⟨fun he => hc (he ▸ trivial), fun he => hc (he ▸ trivial)⟩
    · exact ⟨by simp [hc], by simp [hc]⟩
  refine h.keep hm hlog (fun hs => .inl (hstart hs)) ?_ ?_
  · intro hun
    rcases hun with hun | hun | ⟨hun, -⟩ <;> rw [hm.self] at hun <;> exact absurd (hun ▸ trivial) hpc
  · intro hneg
    rw [hpid] at hneg
    exact (h.stopped hneg).imp_right fun hp => hm.pending hp hc'.1 hc'.2

theorem oneStart_sendAddDevice (h : s.OneStart) (hc : ¬ (s.calls c).AtStake) (added : Bool) :
    (s.sendAddDevice c added).OneStart := by
  rcases sendAddDevice_cases s c added with ⟨-, hstep⟩ | ⟨service, -, -, hstep⟩
  · rw [hstep]
    exact h.quiet (moves_goto ..) rfl rfl (fun hs => hs.elim) id (.inl hc)
  · rw [hstep]
    exact h.quiet ⟨rfl, fun _ _ => rfl⟩ rfl rfl (fun hs => hs.elim) id (.inl hc)

/-- The one call that starts the host has started a process. -/
theorem OneStart.started (h : s.OneStart) (hpc : s.calls c = .startDeviceHost)
    (hm : s.Moves t c .storePid) {pid : Option Nat} {dynamic : Bool}
    (hlog : t.installerCalls = .start pid dynamic :: s.installerCalls)
    (hpid : t.startedPid c = pid) : t.OneStart := by
  have hzero : startsSinceStop s.installerCalls = 0 := h.unstarted c (.inl hpc)
  have hone := hm.one h fun _ => .inl (by rw [hpc]; trivial)
  have hself : (t.calls c).Starting := by rw [hm.self]; trivial
  cases pid with
  | none =>
    have hlog' : startsSinceStop t.installerCalls = 0 := by rw [hlog, startsSinceStop, hzero]
    exact h.reset hm (fun _ => .inl (by rw [hpc]; trivial)) hlog'
  | some pid =>
    refine ⟨by rw [hlog, startsSinceStop, hzero], hone, fun c' hc' => ?_, fun _ => ?_⟩
    · obtain rfl := hone c' c hc'.starting hself
      rcases hc' with hc' | hc' | ⟨-, hc'⟩
      · simp [hm.self] at hc'
      · simp [hm.self] at hc'
      · simp [hpid] at hc'
    · exact .inr ⟨c, .inr ⟨hm.self, by simp [hpid]⟩⟩

/-- A call from where nothing is at stake to its return. -/
theorem OneStart.return (h : s.OneStart) (hc : ¬ (s.calls c).AtStake ∨ s.calls c = .startDeviceHost)
    (ret : Ret) : (s.goto c (.returned ret)).OneStart :=
  h.quiet (moves_goto ..) rfl rfl (fun hs => hs.elim) id hc

theorem Free.not_atStake (h : s.Free c) : ¬ (s.calls c).AtStake := by
  rcases h with h | ⟨ret, h⟩ <;> rw [h] <;> exact id

/-! ## The functions of a call -/

/-- A call that finds the host stopped, and is alone with it, begins to start it. -/
theorem oneStart_loadLocked (h : s.OneStart) (hpc : s.calls c = .loadLocked)
    (halone : s.hostPid < 0 → (∀ c, ¬ (s.calls c).Starting) ∧ ∀ c, s.calls c ≠ .stopHost)
    (added : Bool) : (s.loadLocked c added).OneStart := by
  unfold loadLocked
  split
  · next hneg =>
    obtain ⟨hnone, hstop⟩ := halone hneg
    -- nothing is pending, so the stopped client has not been started
    have hzero : startsSinceStop s.installerCalls = 0 := by
      rcases h.stopped hneg with hz | ⟨c', hc' | ⟨hc', -⟩⟩
      · exact hz
      · exact absurd hc' (hstop c')
      · exact absurd (hc' ▸ trivial) (hnone c')
    exact h.reset (moves_goto ..) (fun _ => .inr hnone) hzero
  · exact oneStart_sendAddDevice h (by rw [hpc]; exact id) added

theorem oneStart_startDeviceHost (h : s.OneStart) (hpc : s.calls c = .startDeviceHost)
    (pid : Option Nat) : (s.startDeviceHost inst info c pid).OneStart := by
  unfold startDeviceHost
  split
  · exact h.return (.inr hpc) _
  · exact h.started hpc ⟨rfl, fun c' hc' => Function.update_of_ne hc' ..⟩ rfl
      (Function.update_self ..)

/-- A process that has been started becomes known, and a start that failed leaves the client stopped
with nothing started. -/
theorem oneStart_storePid (h : s.OneStart) (hpc : s.calls c = .storePid) :
    (s.storePid c).OneStart := by
  refine h.keep ⟨rfl, fun _ _ => rfl⟩ rfl (fun _ => .inl (by rw [hpc]; trivial)) ?_ ?_
  · rintro (hun | hun | ⟨hun, -⟩) <;> simp [storePid] at hun
  · intro hneg
    cases hst : s.startedPid c with
    | none => exact .inl (h.unstarted c (.inr (.inr ⟨hpc, hst⟩)))
    | some pid =>
      simp only [storePid, goto_hostPid, hst, Option.elim_some] at hneg
      exact absurd hneg (Int.not_lt.mpr (Int.natCast_nonneg pid))

theorem oneStart_checkPid (h : s.OneStart) (hpc : s.calls c = .checkPid) :
    (s.checkPid c).OneStart := by
  have hstake : ¬ (s.calls c).AtStake := by rw [hpc]; exact id
  unfold checkPid
  split
  · exact h.return (.inl hstake) _
  · exact h.quiet (moves_goto ..) rfl rfl (fun _ => by rw [hpc]; trivial) id (.inl hstake)

theorem oneStart_poll (h : s.OneStart) (hpc : s.calls c = .poll) : (s.poll c).OneStart := by
  have hstake : ¬ (s.calls c).AtStake := by rw [hpc]; exact id
  have hstarting : (s.calls c).Starting := by rw [hpc]; trivial
  rcases poll_cases s c with ⟨counts, hstep⟩ | ⟨pc, hpc', hstep⟩
  · rw [hstep]
    have hself := (Function.update_eq_self c s.calls).symm
    exact h.quiet ⟨hself, fun _ _ => rfl⟩ rfl rfl (fun hs => hs) hstake (.inl hstake)
  · rw [hstep]
    refine h.quiet (moves_goto ..) rfl rfl (fun _ => hstarting) ?_ (.inl hstake)
    rcases hpc' with rfl | rfl <;> exact id

theorem oneStart_stopTimedOut (h : s.OneStart) (hpc : s.calls c = .stopTimedOut)
    (hstop : inst.stopDeviceHost = true) : (s.stopTimedOut inst c).OneStart := by
  rw [stopTimedOut, if_pos hstop]
  exact h.reset ⟨rfl, fun _ _ => rfl⟩ (fun _ => .inl (by rw [hpc]; trivial)) rfl

/-- The client that is cleared is still to be stopped. -/
theorem oneStart_unloadLocked (h : s.OneStart) (hpc : s.calls c = .unloadLocked) (deleted : Bool) :
    (s.unloadLocked info c deleted).OneStart := by
  rcases unloadLocked_cases info s c deleted with ⟨ret, hstep⟩ | hstep
  · rw [hstep]
    exact h.return (.inl (by rw [hpc]; exact id)) _
  · rw [hstep]
    refine h.keep ⟨rfl, fun _ _ => rfl⟩ rfl (fun hs => hs.elim) ?_ ?_
    · rintro (hun | hun | ⟨hun, -⟩) <;> simp at hun
    · exact fun _ => .inr ⟨c, .inl (goto_calls_self ..)⟩

theorem oneStart_stopHost (h : s.OneStart) (hstop : inst.stopDeviceHost = true) :
    (s.stopHost inst c).OneStart := by
  rw [stopHost, if_neg (by simp [hstop])]
  exact h.reset ⟨rfl, fun _ _ => rfl⟩ (fun hs => hs.elim) rfl

/-! ## The functions of a host -/

theorem oneStart_attachDeviceHost (h : s.OneStart) (hc : ¬ (s.calls c).AtStake)
    (service : Option DevHostService) : (s.attachDeviceHost c service).OneStart := by
  cases service with
  | none => exact h.return (.inl hc) _
  | some service => exact h.quiet ⟨rfl, fun _ _ => rfl⟩ rfl rfl (fun hs => hs.elim) id (.inl hc)

theorem oneStart_attachDevice (h : s.OneStart) (hc : ¬ (s.calls c).AtStake) (token : Option Nat)
    (allocated : Bool) : (s.attachDevice c token allocated).OneStart := by
  cases token with
  | none => exact h.return (.inl hc) _
  | some devid =>
    cases allocated with
    | false => exact h.return (.inl hc) _
    | true => exact h.quiet ⟨rfl, fun _ _ => rfl⟩ rfl rfl (fun hs => hs.elim) id (.inl hc)

theorem oneStart_detachDevice (h : s.OneStart) (hc : ¬ (s.calls c).AtStake) (devid : Nat) :
    (s.detachDevice c devid).OneStart := by
  unfold detachDevice
  split
  · exact h.quiet ⟨rfl, fun _ _ => rfl⟩ rfl rfl (fun hs => hs.elim) id (.inl hc)
  · exact h.return (.inl hc) _

/-- **Every step that meets the condition keeps the invariant.** -/
theorem oneStart_step {e : HostEvent} (h : s.OneStart) (he : s.Enabled e) (hok : s.Alone inst e) :
    (s.step inst info e).OneStart := by
  cases e with
  | loadDevice c device =>
    exact h.quiet ⟨rfl, fun _ _ => rfl⟩ rfl rfl (fun hs => hs.elim) id (.inl (Free.not_atStake he))
  | unloadDevice c device =>
    exact h.quiet ⟨rfl, fun _ _ => rfl⟩ rfl rfl (fun hs => hs.elim) id (.inl (Free.not_atStake he))
  | loadLocked c added => exact oneStart_loadLocked h he hok added
  | startDeviceHost c pid => exact oneStart_startDeviceHost h he pid
  | storePid c => exact oneStart_storePid h he
  | checkPid c => exact oneStart_checkPid h he
  | clearStopFlag c =>
    have hpc : s.calls c = .clearStopFlag := he
    exact h.quiet ⟨rfl, fun _ _ => rfl⟩ rfl rfl (fun _ => by rw [hpc]; trivial) id
      (.inl (by rw [hpc]; exact id))
  | poll c => exact oneStart_poll h he
  | stopTimedOut c => exact oneStart_stopTimedOut h he hok
  | clearPid c =>
    have hpc : s.calls c = .clearPid := he
    exact h.reset ⟨rfl, fun _ _ => rfl⟩ (fun hs => hs.elim) (h.unstarted c (.inr (.inl hpc)))
  | addDevice c added =>
    have hpc : s.calls c = .addDevice := he
    exact oneStart_sendAddDevice h (by rw [hpc]; exact id) added
  | unloadLocked c deleted => exact oneStart_unloadLocked h he deleted
  | stopHost c => exact oneStart_stopHost h hok
  | setStopFlag c =>
    have hpc : s.calls c = .setStopFlag := he
    exact h.quiet ⟨rfl, fun _ _ => rfl⟩ rfl rfl (fun hs => hs.elim) id (.inl (by rw [hpc]; exact id))
  | attachDeviceHost c service => exact oneStart_attachDeviceHost h (Free.not_atStake he) service
  | installDriver c installed =>
    have hpc : s.calls c = .installDriver := he
    exact h.return (.inl (by rw [hpc]; exact id)) _
  | attachDevice c token allocated =>
    exact oneStart_attachDevice h (Free.not_atStake he) token allocated
  | detachDevice c devid => exact oneStart_detachDevice h (Free.not_atStake he) devid

theorem oneStart_init (h : s.Init) : s.OneStart := by
  rcases h with rfl | ⟨pid, dynamic, rfl⟩
  · exact ⟨by decide, fun _ _ hs => hs.elim, fun _ _ => rfl, fun _ => .inl rfl⟩
  · refine ⟨Nat.le_refl 1, fun _ _ hs => hs.elim, fun c hc => ?_, fun hneg => ?_⟩
    · exact hc.starting.elim
    · exact absurd hneg (Int.not_lt.mpr (Int.natCast_nonneg pid))

theorem oneStart_run {es : List HostEvent}
    (hr : ((hostClient inst info).restrict (Alone inst)).Run s es t) : s.OneStart → t.OneStart := by
  refine hr.invariant ?_
  rintro u e hu ⟨he, hok⟩
  exact oneStart_step hu he hok

end Host

/-- **Between two stops of a host at most one process is started for it**, in every run of the
manager in which each call that finds a host stopped is alone with it, and hosts can be stopped. -/
theorem one_process_per_stop {hosts : List HostInfo} {f g : Nat → Host}
    {es : List (Nat × HostEvent)} (hi : (devmgr inst hosts).init f)
    (hr : ((devmgr inst hosts).restrict fun f e => (f e.1).Alone inst e.2).Run f es g)
    (hostId : Nat) : startsSinceStop (g hostId).installerCalls ≤ 1 := by
  have hhost := devmgr_component (Host.Alone inst) hr hostId
  exact (Host.oneStart_run hhost (Host.oneStart_init (hi hostId))).atMost

/-! ## Two calls that load devices -/

/-- The host after these events, from the start of the system. -/
def sampleRun (es : List HostEvent) : Host :=
  es.foldl (Host.step {} (hostInfo sampleHosts 1)) {}

/-- The sensor is loaded, and nothing else. -/
def loadsSensor : List HostEvent :=
  [.loadDevice 0 ⟨"sensor", 1, .disable⟩, .loadLocked 0 true, .startDeviceHost 0 (some 100)]

theorem found_loadsSensor : ∀ e ∈ loadsSensor, Found sampleHosts (1, e) := by
  intro e he
  simp only [loadsSensor, List.mem_cons, List.not_mem_nil, or_false] at he
  rcases he with rfl | rfl | rfl
  · exact found_sensor 0
  all_goals trivial

theorem one_process_per_stop_run :
    (sampleRun loadsSensor).serving = {100} ∧
      startsSinceStop (sampleRun loadsSensor).installerCalls ≤ 1 := by
  have hcalls : ∀ c, (sampleRun [.loadDevice 0 ⟨"sensor", 1, .disable⟩]).calls c =
      if c = 0 then .loadLocked else .idle := by
    intro c
    by_cases hc : c = 0
    · rw [hc]
      rfl
    · rw [if_neg hc]
      exact Function.update_of_ne hc ..
  have halone : (sampleRun [.loadDevice 0 ⟨"sensor", 1, .disable⟩]).Alone {}
      (.loadLocked 0 true) := by
    refine fun _ => ⟨fun c => ?_, fun c => ?_⟩ <;> rw [hcalls c] <;> split
    · exact id
    · exact id
    · simp
    · simp
  have hhost : ((hostClient {} (hostInfo sampleHosts 1)).restrict (Host.Alone {})).Run {}
      loadsSensor (sampleRun loadsSensor) :=
    .cons ⟨by decide, trivial⟩ (.cons ⟨by decide, halone⟩ (.cons ⟨by decide, trivial⟩ (.nil _)))
  exact ⟨by decide, one_process_per_stop init_sample
    (sample_lift _ hhost found_loadsSensor) 1⟩

/-- Two calls find the host stopped before either of them has started it. -/
def twoLoads : List HostEvent :=
  [.loadDevice 0 ⟨"sensor", 1, .disable⟩, .loadDevice 1 ⟨"vibrator", 2, .disable⟩,
    .loadLocked 0 true, .loadLocked 1 true, .startDeviceHost 0 (some 100),
    .startDeviceHost 1 (some 101)]

theorem two_loads_start_two_processes : ∃ g,
    (devmgr {} sampleHosts).init (fun _ => {}) ∧
    (devmgr {} sampleHosts).Run (fun _ => {}) (twoLoads.map fun e => (1, e)) g ∧
    startsSinceStop (g 1).installerCalls = 2 := by
  have hfound : ∀ e ∈ twoLoads, Found sampleHosts (1, e) := by
    intro e he
    simp only [twoLoads, List.mem_cons, List.not_mem_nil, or_false] at he
    rcases he with rfl | rfl | rfl | rfl | rfl | rfl
    · exact found_sensor 0
    · exact found_vibrator 1
    all_goals trivial
  have hrun : (hostClient {} (hostInfo sampleHosts 1)).Run {} twoLoads (sampleRun twoLoads) :=
    System.Run.of_enabledAll (by decide)
  have hall := @System.Run.restrict_of_forall _ _ _ _ _ _ (fun _ => True) hrun fun _ _ => trivial
  refine ⟨_, init_sample, (sample_lift _ hall hfound).of_restrict, ?_⟩
  rw [Function.update_self]
  decide

end Devmgr
