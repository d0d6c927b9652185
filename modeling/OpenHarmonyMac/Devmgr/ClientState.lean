import OpenHarmonyMac.Devmgr.Service

/-!
# The state of a host client

A client that is not running is to have no service and no devices. The attach of a host and the
calls that fail half way are where this goes wrong.

* `client_state_kept` — the state is kept in every run in which only running hosts attach, a host is
  stopped without a service, and what a call has begun does not fail
* `late_attach` — the attach of a host after its start has timed out
-/

namespace Devmgr

open Infra

variable {inst : Installer} {info : HostInfo} {s t : Host} {c : Nat}

/-- The call that an event belongs to. -/
def HostEvent.call : HostEvent → Nat
  | .loadDevice c _ | .unloadDevice c _ | .loadLocked c _ | .startDeviceHost c _ | .storePid c
  | .checkPid c | .clearStopFlag c | .poll c | .stopTimedOut c | .clearPid c | .addDevice c _
  | .unloadLocked c _ | .stopHost c | .setStopFlag c | .attachDeviceHost c _
  | .installDriver c _ | .attachDevice c _ _ | .detachDevice c _ => c

/-- The call has written to the client, and the last it wrote was not the stopped state. -/
def CallPc.Dirty : CallPc → Prop
  | .checkPid | .clearStopFlag | .poll | .stopTimedOut | .clearPid | .addDevice
  | .installDriver => True
  | _ => False

namespace Host

/-- The client is not running, and it has no service and no devices. -/
structure Stopped (s : Host) : Prop where
  hostPid : s.hostPid < 0
  hostService : s.hostService = none
  devices : s.devices = []

/-- A client that is not running is stopped. -/
def ClientInv (s : Host) : Prop := s.hostPid < 0 → s.Stopped

/-- The client, and the processes that serve it, are the same. -/
structure SameClient (s t : Host) : Prop where
  hostPid : t.hostPid = s.hostPid
  hostService : t.hostService = s.hostService
  devices : t.devices = s.devices
  serving : t.serving = s.serving

/-- What a step is to keep. A client that is not running is stopped; a call that fails has not
changed the client or leaves it stopped; and a device is only sent to a process that has been
neither stopped nor given up. -/
structure Kept (inst : Installer) (info : HostInfo) (s : Host) (e : HostEvent) : Prop where
  state : (s.step inst info e).ClientInv
  failure : ∀ ret, (s.step inst info e).calls e.call = .returned ret → ret ≠ .success →
    (¬ (s.calls e.call).Dirty ∧ s.SameClient (s.step inst info e)) ∨
      (s.step inst info e).Stopped
  sent : ∀ pid device, (s.step inst info e).addDeviceCalls = (pid, device) :: s.addDeviceCalls →
    pid ∈ s.serving

/-- A host attaches while it is running and has not been given up, and its drivers are installed;
a device attaches while its host is running; a start only fails, and only times out, for a client
without service and devices; a host is only stopped without a service; and the device for which a
host has been started is added, unless the host has been stopped again. -/
def Orderly (inst : Installer) (s : Host) : HostEvent → Prop
  | .attachDeviceHost _ (some service) => 0 ≤ s.hostPid ∧ service.pid ∈ s.serving
  | .installDriver _ installed => installed = true ∨ s.hostPid < 0
  | .attachDevice _ (some _) allocated => allocated = true → 0 ≤ s.hostPid
  | .storePid c => s.startedPid c = none → s.hostService = none ∧ s.devices = []
  | .stopTimedOut _ => inst.stopDeviceHost = true → s.hostService = none
  | .clearPid _ => s.hostService = none ∧ s.devices = []
  | .stopHost _ => inst.stopDeviceHost = true → s.hostService = none
  | .addDevice _ added =>
    (added = true ∧ ∃ service ∈ s.hostService, service.addDevice = true) ∨ s.hostPid < 0
  | _ => True

/-- The invariant: a client that is not running is stopped, and a service is that of a process that
has been neither stopped nor given up. -/
structure Sound (s : Host) : Prop where
  state : s.ClientInv
  served : ∀ service ∈ s.hostService, service.pid ∈ s.serving

/-! ## The steps -/

theorem sameClient_goto (s : Host) (c : Nat) (pc : CallPc) : s.SameClient (s.goto c pc) :=
  ⟨rfl, rfl, rfl, rfl⟩

theorem SameClient.stopped (h : s.SameClient t) (hs : s.Stopped) : t.Stopped :=
  ⟨h.hostPid ▸ hs.hostPid, h.hostService ▸ hs.hostService, h.devices ▸ hs.devices⟩

theorem SameClient.sound (h : s.SameClient t) (hs : s.Sound) : t.Sound where
  state hneg := h.stopped (hs.state (h.hostPid ▸ hneg))
  served := by
    rw [h.hostService, h.serving]
    exact hs.served

/-- The step keeps the client and the invariant. -/
def Keeps (inst : Installer) (info : HostInfo) (s : Host) (e : HostEvent) : Prop :=
  s.Kept inst info e ∧ (s.step inst info e).Sound

/-- A step that neither writes to the client nor sends a device. A call that has written to it does
not fail there, unless the client is stopped. -/
theorem Sound.quiet (hs : s.Sound) {e : HostEvent} (h : s.step inst info e = t)
    (hsame : s.SameClient t) (hsent : t.addDeviceCalls = s.addDeviceCalls)
    (hfail : (s.calls e.call).Dirty → ∀ ret, t.calls e.call = .returned ret → ret ≠ .success →
      s.hostPid < 0) : s.Keeps inst info e := by
  subst h
  refine ⟨⟨(hsame.sound hs).state, fun ret hret hne => ?_, fun pid device hd => ?_⟩, hsame.sound hs⟩
  · by_cases hdirty : (s.calls e.call).Dirty
    · exact .inr (hsame.stopped (hs.state (hfail hdirty ret hret hne)))
    · exact .inl ⟨hdirty, hsame⟩
  · rw [hsent] at hd
    exact absurd hd.symm (List.cons_ne_self _ _)

/-- The same of a step that only moves the call. -/
theorem Sound.goto (hs : s.Sound) {e : HostEvent} {pc : CallPc}
    (h : s.step inst info e = s.goto e.call pc)
    (hfail : (s.calls e.call).Dirty → ∀ ret, pc = .returned ret → ret ≠ .success →
      s.hostPid < 0) : s.Keeps inst info e := by
  refine hs.quiet h (sameClient_goto ..) rfl fun hdirty ret hret => hfail hdirty ret ?_
  rw [← hret, goto_calls_self]

/-- A step that leaves a sound client and does not fail. -/
theorem Sound.write {e : HostEvent} {pc : CallPc} (h : s.step inst info e = t) (ht : t.Sound)
    (hsent : t.addDeviceCalls = s.addDeviceCalls) (hpc : t.calls e.call = pc)
    (hret : ∀ ret, pc = .returned ret → ret = .success) : s.Keeps inst info e := by
  subst h
  refine ⟨⟨ht.state, fun ret h hne => absurd (hret ret (hpc.symm.trans h)) hne,
    fun pid device hd => ?_⟩, ht⟩
  rw [hsent] at hd
  exact absurd hd.symm (List.cons_ne_self _ _)

theorem Free.not_dirty (h : s.Free c) : ¬ (s.calls c).Dirty := by
  rcases h with h | ⟨ret, h⟩ <;> rw [h] <;> exact id

theorem sound_stopped (hpid : t.hostPid = -1) (hservice : t.hostService = none)
    (hdevices : t.devices = []) : t.Sound where
  state _ := ⟨by rw [hpid]; decide, hservice, hdevices⟩
  served := by simp [hservice]

/-- Without a service, a client stays sound whatever processes are stopped. -/
theorem Sound.stopServing (hs : s.Sound) (hservice : s.hostService = none) (c : Nat) (pc : CallPc)
    (calls : List InstallerCall) :
    ({ s with serving := ∅, installerCalls := calls }.goto c pc).Sound where
  state hneg := ⟨hneg, hservice, (hs.state hneg).devices⟩
  served := by simp [hservice]

/-! ## The functions of a call -/

/-- A device is only sent to the service of a process that serves the client. -/
theorem Sound.send (hs : s.Sound) {e : HostEvent} {added : Bool}
    (h : s.step inst info e = s.sendAddDevice e.call added)
    (hfail : (s.calls e.call).Dirty →
      (added = true ∧ ∃ service ∈ s.hostService, service.addDevice = true) ∨ s.hostPid < 0) :
    s.Keeps inst info e := by
  rcases sendAddDevice_cases s e.call added with ⟨hnone, hstep⟩ | ⟨service, hservice, -, hstep⟩
  · -- a call that has started the host finds a service, unless the client is stopped
    refine hs.goto (h.trans hstep) fun hdirty _ _ _ => (hfail hdirty).resolve_left ?_
    rintro ⟨-, service, hservice, hadd⟩
    rw [hnone service hservice] at hadd
    cases hadd
  · have hsame : s.SameClient (s.step inst info e) := by
      rw [h, hstep]
      exact ⟨rfl, rfl, rfl, rfl⟩
    refine ⟨⟨(hsame.sound hs).state, fun ret hret hne => ?_, fun pid device hd => ?_⟩,
      hsame.sound hs⟩
    · by_cases hdirty : (s.calls e.call).Dirty
      · refine .inr (hsame.stopped (hs.state ((hfail hdirty).resolve_left ?_)))
        rintro ⟨rfl, -⟩
        rw [h, hstep, goto_calls_self] at hret
        exact hne (CallPc.returned.inj hret).symm
      · exact .inl ⟨hdirty, hsame⟩
    · rw [h, hstep] at hd
      obtain rfl : service.pid = pid := congrArg Prod.fst (List.cons.inj hd).1
      exact hs.served service hservice

theorem keeps_loadLocked (hs : s.Sound) (hpc : s.calls c = .loadLocked) (added : Bool) :
    s.Keeps inst info (.loadLocked c added) := by
  have hclean : ¬ (s.calls c).Dirty := by rw [hpc]; exact id
  by_cases hneg : s.hostPid < 0
  · exact hs.goto (if_pos hneg) fun hd => absurd hd hclean
  · exact hs.send (if_neg hneg) fun hd => absurd hd hclean

theorem keeps_startDeviceHost (hs : s.Sound) (hpc : s.calls c = .startDeviceHost)
    (pid : Option Nat) : s.Keeps inst info (.startDeviceHost c pid) := by
  have hclean : ¬ (s.calls c).Dirty := by rw [hpc]; exact id
  by_cases hinst : (!inst.startDeviceHost) = true
  · exact hs.goto (if_pos hinst) fun hd => absurd hd hclean
  · refine Sound.write (if_neg hinst) ?_ rfl (goto_calls_self ..) nofun
    -- only a process has been added to those that serve the client
    refine ⟨fun hneg => ?_, fun service hservice => ?_⟩
    · have hst := hs.state hneg
      exact ⟨hneg, hst.hostService, hst.devices⟩
    · have hmem := hs.served service hservice
      cases pid with
      | none => exact hmem
      | some pid => exact Finset.mem_insert_of_mem hmem

/-- A start that fails is stored as the pid, so the client has to be without service and devices. -/
theorem keeps_storePid (hs : s.Sound)
    (hempty : s.startedPid c = none → s.hostService = none ∧ s.devices = []) :
    s.Keeps inst info (.storePid c) := by
  refine Sound.write rfl ?_ rfl (goto_calls_self ..) nofun
  cases hst : s.startedPid c with
  | none =>
    obtain ⟨hservice, hdevices⟩ := hempty hst
    refine sound_stopped ?_ hservice hdevices
    simp [step, storePid, hst]
  | some pid =>
    refine ⟨fun hneg => ?_, fun service hservice => ?_⟩
    · simp only [step, storePid, hst, Option.elim_some, goto_hostPid] at hneg
      exact absurd hneg (Int.not_lt.mpr (Int.natCast_nonneg pid))
    · simp only [step, storePid, hst, Option.elim_some, goto_serving]
      exact hs.served service hservice

theorem keeps_checkPid (hs : s.Sound) : s.Keeps inst info (.checkPid c) := by
  by_cases hfail : s.hostPid = -1
  · exact hs.goto (if_pos hfail) fun _ _ _ _ => by omega
  · exact hs.goto (if_neg hfail) nofun

theorem keeps_poll (hs : s.Sound) (hpc : s.calls c = .poll) : s.Keeps inst info (.poll c) := by
  rcases poll_cases s c with ⟨counts, hstep⟩ | ⟨pc, hpc', hstep⟩
  · refine hs.quiet hstep ⟨rfl, rfl, rfl, rfl⟩ rfl fun _ ret hret => ?_
    rw [show s.calls c = .returned ret from hret] at hpc
    cases hpc
  · refine hs.goto hstep fun _ ret hret => ?_
    rcases hpc' with rfl | rfl <;> cases hret

theorem keeps_stopTimedOut (hs : s.Sound)
    (hservice : inst.stopDeviceHost = true → s.hostService = none) :
    s.Keeps inst info (.stopTimedOut c) := by
  by_cases hstop : inst.stopDeviceHost = true
  · exact Sound.write (if_pos hstop) (hs.stopServing (hservice hstop) ..) rfl
      (goto_calls_self ..) nofun
  · exact hs.goto (if_neg hstop) nofun

/-- The call fails here, and leaves the client stopped. -/
theorem keeps_clearPid (hservice : s.hostService = none) (hdevices : s.devices = []) :
    s.Keeps inst info (.clearPid c) := by
  have hneg : (s.clearPid c).hostPid < 0 := show (-1 : Int) < 0 from by decide
  have hst : (s.clearPid c).Stopped := ⟨hneg, hservice, hdevices⟩
  refine ⟨⟨fun _ => hst, fun _ _ _ => .inr hst, fun pid device hd => ?_⟩,
    sound_stopped rfl hservice hdevices⟩
  exact absurd hd.symm (List.cons_ne_self _ _)

theorem keeps_unloadLocked (hs : s.Sound) (hpc : s.calls c = .unloadLocked) (deleted : Bool) :
    s.Keeps inst info (.unloadLocked c deleted) := by
  have hclean : ¬ (s.calls c).Dirty := by rw [hpc]; exact id
  rcases unloadLocked_cases info s c deleted with ⟨ret, hstep⟩ | hstep
  · exact hs.goto hstep fun hd => absurd hd hclean
  · exact Sound.write hstep (sound_stopped rfl rfl rfl) rfl (goto_calls_self ..) nofun

theorem keeps_stopHost (hs : s.Sound) (hpc : s.calls c = .stopHost)
    (hservice : inst.stopDeviceHost = true → s.hostService = none) :
    s.Keeps inst info (.stopHost c) := by
  have hclean : ¬ (s.calls c).Dirty := by rw [hpc]; exact id
  by_cases hstop : (!inst.stopDeviceHost) = true
  · exact hs.goto (if_pos hstop) fun hd => absurd hd hclean
  · have hnone : s.hostService = none := hservice (by simpa using hstop)
    exact Sound.write (if_neg hstop) (hs.stopServing hnone ..) rfl (goto_calls_self ..) nofun

/-! ## The functions of a host -/

/-- The service of a host that attaches is that of a process which serves the client. -/
theorem keeps_attachDeviceHost {service : DevHostService} (hrunning : 0 ≤ s.hostPid)
    (hserving : service.pid ∈ s.serving) :
    s.Keeps inst info (.attachDeviceHost c (some service)) := by
  refine Sound.write rfl ⟨fun hneg => absurd hneg (Int.not_lt.mpr hrunning), ?_⟩ rfl
    (goto_calls_self ..) nofun
  rintro _ ⟨⟩
  exact hserving

theorem keeps_installDriver (hs : s.Sound) {installed : Bool}
    (hok : installed = true ∨ s.hostPid < 0) : s.Keeps inst info (.installDriver c installed) := by
  refine hs.goto rfl fun _ ret hret hne => hok.resolve_left ?_
  rintro rfl
  exact hne (CallPc.returned.inj hret).symm

theorem keeps_attachDevice (hs : s.Sound) (hclean : ¬ (s.calls c).Dirty) {token : Option Nat}
    {allocated : Bool} (hrunning : token.isSome → allocated = true → 0 ≤ s.hostPid) :
    s.Keeps inst info (.attachDevice c token allocated) := by
  cases token with
  | none => exact hs.goto rfl fun hd => absurd hd hclean
  | some devid =>
    cases allocated with
    | false => exact hs.goto rfl fun hd => absurd hd hclean
    | true =>
      refine Sound.write rfl ⟨fun hneg => ?_, hs.served⟩ rfl (goto_calls_self ..)
        fun _ h => (CallPc.returned.inj h).symm
      exact absurd hneg (Int.not_lt.mpr (hrunning rfl rfl))

/-- A device that is taken out of the list belongs to a client that is running. -/
theorem keeps_detachDevice (hs : s.Sound) (hclean : ¬ (s.calls c).Dirty) (devid : Nat) :
    s.Keeps inst info (.detachDevice c devid) := by
  by_cases hmem : devid ∈ s.devices
  · refine Sound.write (if_pos hmem) ⟨fun hneg => ?_, hs.served⟩ rfl (goto_calls_self ..)
      fun _ h => (CallPc.returned.inj h).symm
    have hst := hs.state hneg
    simp [hst.devices] at hmem
  · exact hs.goto (if_neg hmem) fun hd => absurd hd hclean

/-- **A step that meets the condition keeps the client.** -/
theorem kept_step {e : HostEvent} (hs : s.Sound) (he : s.Enabled e) (hok : s.Orderly inst e) :
    s.Keeps inst info e := by
  cases e with
  | loadDevice c device =>
    exact hs.quiet rfl ⟨rfl, rfl, rfl, rfl⟩ rfl fun hd => absurd hd (Free.not_dirty he)
  | unloadDevice c device =>
    exact hs.quiet rfl ⟨rfl, rfl, rfl, rfl⟩ rfl fun hd => absurd hd (Free.not_dirty he)
  | loadLocked c added => exact keeps_loadLocked hs he added
  | startDeviceHost c pid => exact keeps_startDeviceHost hs he pid
  | storePid c => exact keeps_storePid hs hok
  | checkPid c => exact keeps_checkPid hs
  | clearStopFlag c =>
    refine hs.quiet rfl ⟨rfl, rfl, rfl, rfl⟩ rfl fun _ ret hret => ?_
    have hpc : (s.clearStopFlag c).calls c = .poll := goto_calls_self ..
    cases hpc.symm.trans hret
  | poll c => exact keeps_poll hs he
  | stopTimedOut c => exact keeps_stopTimedOut hs hok
  | clearPid c => exact keeps_clearPid hok.1 hok.2
  | addDevice c added => exact hs.send rfl fun _ => hok
  | unloadLocked c deleted => exact keeps_unloadLocked hs he deleted
  | stopHost c => exact keeps_stopHost hs he hok
  | setStopFlag c =>
    have hpc : s.calls c = .setStopFlag := he
    have hclean : ¬ (s.calls c).Dirty := by rw [hpc]; exact id
    exact hs.quiet rfl ⟨rfl, rfl, rfl, rfl⟩ rfl fun hd => absurd hd hclean
  | attachDeviceHost c service =>
    cases service with
    | none => exact hs.goto rfl fun hd => absurd hd (Free.not_dirty he)
    | some service => exact keeps_attachDeviceHost hok.1 hok.2
  | installDriver c installed => exact keeps_installDriver hs hok
  | attachDevice c token allocated =>
    refine keeps_attachDevice hs (Free.not_dirty he) fun htoken => ?_
    cases token with
    | none => cases htoken
    | some devid => exact hok
  | detachDevice c devid => exact keeps_detachDevice hs (Free.not_dirty he) devid

theorem sound_init (h : s.Init) : s.Sound := by
  rcases h with rfl | ⟨pid, dynamic, rfl⟩
  · exact ⟨fun _ => ⟨by decide, rfl, rfl⟩, by simp⟩
  · exact ⟨fun hneg => absurd hneg (Int.not_lt.mpr (Int.natCast_nonneg pid)), by simp⟩

end Host

/-- **Every client that is not running is stopped, a call that fails leaves its client unchanged or
stopped, and no device is sent to a process that has been stopped or given up**, in every run of
the manager whose steps are orderly. -/
theorem client_state_kept {hosts : List HostInfo} {f g : Nat → Host}
    {es : List (Nat × HostEvent)} (hi : (devmgr inst hosts).init f)
    (hr : ((devmgr inst hosts).restrict fun f e => (f e.1).Orderly inst e.2).Run f es g) :
    ((devmgr inst hosts).restrict fun f e =>
        (f e.1).Kept inst (hostInfo hosts e.1) e.2).Run f es g ∧
      ∀ hostId, (g hostId).ClientInv := by
  have hinit : ∀ hostId, (f hostId).Sound := fun hostId => Host.sound_init (hi hostId)
  refine ⟨?_, fun hostId => ?_⟩
  · refine (System.Run.restrict_of_invariant (I := fun f => ∀ hostId, (f hostId).Sound) ?_ hr
      hinit).mono rfl fun f e he => ⟨he.1.1, he.2⟩
    rintro f e hf ⟨⟨he, -⟩, hok⟩
    obtain ⟨hkept, hsound⟩ := @Host.kept_step _ (hostInfo hosts e.1) _ _ (hf e.1) he hok
    refine ⟨hkept, fun hostId => ?_⟩
    by_cases hid : hostId = e.1
    · subst hid
      have hself : (devmgr inst hosts).step f e e.1 = _ := Function.update_self ..
      exact hself ▸ hsound
    · have hne : (devmgr inst hosts).step f e hostId = f hostId := Function.update_of_ne hid ..
      exact hne ▸ hf hostId
  · have hhost := devmgr_component (Host.Orderly inst) hr hostId
    refine (hhost.invariant (I := Host.Sound) ?_ (hinit hostId)).state
    rintro s e hs ⟨he, hok⟩
    exact (Host.kept_step hs he hok).2

/-! ## A host that attaches too late -/

namespace Host

/-- A loop that waits in vain comes to the end of its counter. -/
theorem poll_run (inst : Installer) (info : HostInfo) {c : Nat} :
    ∀ (n : Nat) (s : Host), s.calls c = .poll → s.hostService = none → s.waitCount c = n →
      (hostClient inst info).Run s (List.replicate n (.poll c))
        { s with waitCount := Function.update s.waitCount c 0 } := by
  intro n
  induction n with
  | zero =>
    intro s _ _ hn
    have hself : { s with waitCount := Function.update s.waitCount c 0 } = s := by
      rw [← hn, Function.update_eq_self]
    rw [hself]
    exact .nil s
  | succ n ih =>
    intro s hpc hservice hn
    have hstep : (hostClient inst info).step s (.poll c) =
        { s with waitCount := Function.update s.waitCount c n } := by
      simp [hostClient, step, poll, hservice, hn]
    refine .cons hpc ?_
    rw [hstep]
    have hrest := ih { s with waitCount := Function.update s.waitCount c n } hpc hservice
      (Function.update_self ..)
    simpa only [Function.update_idem] using hrest

end Host

/-- A call starts the host of the sensor, and waits for it. -/
def startsSensor : List HostEvent :=
  [.loadDevice 0 ⟨"sensor", 1, .disable⟩, .loadLocked 0 true, .startDeviceHost 0 (some 100),
    .storePid 0, .checkPid 0, .clearStopFlag 0]

/-- The whole wait for the host. -/
def waits : List HostEvent := List.replicate waitHostSleepCnt (.poll 0)

/-- The host is given up, and attaches. -/
def attachesLate : List HostEvent :=
  [.poll 0, .stopTimedOut 0, .clearPid 0, .attachDeviceHost 1 (some { pid := 100 })]

/-- The sensor is loaded after its host has attached in time. -/
def attachesInTime : List HostEvent :=
  [.attachDeviceHost 1 (some { pid := 100 }), .installDriver 1 true, .poll 0, .addDevice 0 true]

/-- The host after these events. -/
def runHost (s : Host) (es : List HostEvent) : Host :=
  es.foldl (Host.step {} (hostInfo sampleHosts 1)) s

/-- The host after the whole wait. -/
def waited : Host :=
  { runHost {} startsSensor with
    waitCount := Function.update (runHost {} startsSensor).waitCount 0 0 }

/-- Only the first of these events needs a device that is found. -/
theorem found_startsSensor {es : List HostEvent}
    (hes : ∀ e ∈ es, (∀ c d, e ≠ .loadDevice c d) ∧ ∀ c d, e ≠ .unloadDevice c d) :
    ∀ e ∈ startsSensor ++ es, Found sampleHosts (1, e) := by
  intro e he
  rcases List.mem_append.mp he with he | he
  · simp only [startsSensor, List.mem_cons, List.not_mem_nil, or_false] at he
    rcases he with rfl | rfl | rfl | rfl | rfl | rfl
    · exact found_sensor 0
    all_goals trivial
  · obtain ⟨hload, hunload⟩ := hes e he
    cases e with
    | loadDevice c d => exact absurd rfl (hload c d)
    | unloadDevice c d => exact absurd rfl (hunload c d)
    | _ => trivial

theorem client_state_kept_run : ∃ g, ((devmgr {} sampleHosts).restrict fun f e =>
      (f e.1).Kept {} (hostInfo sampleHosts e.1) e.2).Run (fun _ => {})
        ((startsSensor ++ attachesInTime).map fun e => (1, e)) g ∧
    (g 1).addDeviceCalls = [(100, some ⟨"sensor", 1, .disable⟩)] := by
  have hstore : (runHost {} (startsSensor.take 3)).Orderly {} (.storePid 0) :=
    fun h => absurd h (by decide)
  have hattach : (runHost {} startsSensor).Orderly {} (.attachDeviceHost 1 (some { pid := 100 })) :=
    ⟨by decide, by decide⟩
  have hhost : ((hostClient {} (hostInfo sampleHosts 1)).restrict (Host.Orderly {})).Run {}
      (startsSensor ++ attachesInTime) (runHost {} (startsSensor ++ attachesInTime)) := by
    refine .cons ⟨by decide, trivial⟩ (.cons ⟨by decide, trivial⟩ (.cons ⟨by decide, trivial⟩
      (.cons ⟨by decide, hstore⟩ (.cons ⟨by decide, trivial⟩ (.cons ⟨by decide, trivial⟩
      (.cons ⟨by decide, hattach⟩ (.cons ⟨by decide, .inl rfl⟩ (.cons ⟨by decide, trivial⟩
      (.cons ⟨by decide, .inl ⟨rfl, _, rfl, rfl⟩⟩ (.nil _))))))))))
  have hfound := @found_startsSensor attachesInTime (by simp [attachesInTime])
  refine ⟨_, (client_state_kept init_sample (sample_lift _ hhost hfound)).1, ?_⟩
  rw [Function.update_self]
  decide

/-- After the whole wait the host is given up, and then it attaches: the client is not running, and
has a service. -/
theorem late_attach : ∃ g, (devmgr {} sampleHosts).init (fun _ => {}) ∧
    (devmgr {} sampleHosts).Run (fun _ => {}) ((startsSensor ++
      (waits ++ attachesLate)).map fun e => (1, e)) g ∧
    (g 1).hostPid = -1 ∧ (g 1).hostService = some { pid := 100 } ∧ ¬ (g 1).ClientInv := by
  have hstart : (hostClient {} (hostInfo sampleHosts 1)).Run {} startsSensor
      (runHost {} startsSensor) := System.Run.of_enabledAll (by decide)
  have hpoll : (hostClient {} (hostInfo sampleHosts 1)).Run (runHost {} startsSensor) waits
      waited := Host.poll_run {} _ _ _ (by decide) (by decide) (by decide)
  have hlate : (hostClient {} (hostInfo sampleHosts 1)).Run waited attachesLate
      (runHost waited attachesLate) := System.Run.of_enabledAll (by decide)
  have hrun := hstart.append (hpoll.append hlate)
  have hall := @System.Run.restrict_of_forall _ _ _ _ _ _ (fun _ => True) hrun fun _ _ => trivial
  have hrest : ∀ e ∈ waits ++ attachesLate,
      (∀ c d, e ≠ .loadDevice c d) ∧ ∀ c d, e ≠ .unloadDevice c d := by
    intro e he
    rcases List.mem_append.mp he with he | he
    · rw [List.eq_of_mem_replicate he]
      simp
    · simp only [attachesLate, List.mem_cons, List.not_mem_nil, or_false] at he
      rcases he with rfl | rfl | rfl | rfl <;> simp
  have hpid : (runHost waited attachesLate).hostPid = -1 := by decide
  have hservice : (runHost waited attachesLate).hostService = some { pid := 100 } := by decide
  refine ⟨_, init_sample, (sample_lift _ hall (found_startsSensor hrest)).of_restrict, ?_⟩
  rw [Function.update_self]
  refine ⟨hpid, hservice, fun hinv => ?_⟩
  have hst := (hinv (by rw [hpid]; decide)).hostService
  rw [hservice] at hst
  cases hst

end Devmgr
