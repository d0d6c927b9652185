import OpenHarmonyMac.Devmgr.ClientState
import OpenHarmonyMac.Devmgr.Starting

/-!
# The wait for a host that has been started

`DevmgrServiceStartHostProcess` polls the client until its host has attached, and gives the host up
at the end of a counter. The attach comes from another thread, at any time.

* `startLaw_iff` — when a host is given up only if it has not attached, and then leaves nothing
-/

namespace Devmgr

open Infra

/-! ## Runs of the function -/

/-- What can happen while the call starts its host: its own steps, and the attach of the process
that it has started. -/
def Host.Meanwhile (c : Nat) (s : Host) : HostEvent → Prop
  | .startDeviceHost c' _ | .storePid c' | .checkPid c' | .clearStopFlag c' | .poll c'
  | .stopTimedOut c' | .clearPid c' => c' = c
  | .attachDeviceHost c' hostService => c' ≠ c ∧ ∀ service ∈ hostService,
      s.calls c ≠ .startDeviceHost ∧ s.startedPid c = some service.pid
  | .installDriver c' _ => c' ≠ c
  | _ => False

/-- `DevmgrServiceStartHostProcess` with `sync` set, called by `c`. It comes to its end where `c`
is no longer `Starting`: with `HDF_SUCCESS` where `c` goes on to `addDevice`. -/
def startHostProcess (inst : Installer) (info : HostInfo) (c : Nat) : System Host HostEvent :=
  (hostClient inst info).restrict fun s e => (s.calls c).Starting ∧ s.Meanwhile c e

/-! ## What it is to do -/

/-- The host has attached. -/
def Attached (es : List HostEvent) : Prop :=
  ∃ c service, .attachDeviceHost c (some service) ∈ es

/-- The events of a call until it gives its host up, all of them if it does not. -/
def untilGivenUp (c : Nat) (es : List HostEvent) : List HostEvent :=
  es.takeWhile (· ≠ .stopTimedOut c)

/-- The call has started this process. -/
def StartedPid (inst : Installer) (c : Nat) (es : List HostEvent) (pid : Nat) : Prop :=
  inst.startDeviceHost = true ∧ .startDeviceHost c (some pid) ∈ es

/-- What the call of `c` comes to, when `es` have led to its end. -/
structure StartLaw (inst : Installer) (c : Nat) (es : List HostEvent) (t : Host) : Prop where
  timeout : t.calls c = .returned .errTimeout ∨ .stopTimedOut c ∈ es →
    ¬ Attached (untilGivenUp c es)
  success : Attached (untilGivenUp c es) → t.calls c = .addDevice
  failure : ∀ ret, t.calls c = .returned ret →
    t.hostPid < 0 ∧ ∀ service ∈ t.hostService, ¬ StartedPid inst c es service.pid

/-- The host attaches before the last poll of the counter, or not during the call. -/
def InTime (c : Nat) (es : List HostEvent) : Prop :=
  ∀ before c' service after, es = before ++ .attachDeviceHost c' (some service) :: after →
    before.count (.poll c) < waitHostSleepCnt

section Events

variable {c : Nat} {es : List HostEvent} {e : HostEvent}

theorem attached_snoc :
    Attached (es ++ [e]) ↔ Attached es ∨ ∃ c service, e = .attachDeviceHost c (some service) := by
  constructor
  · rintro ⟨c', service, hmem⟩
    rcases List.mem_append.mp hmem with hmem | hmem
    · exact .inl ⟨c', service, hmem⟩
    · exact .inr ⟨c', service, (List.mem_singleton.mp hmem).symm⟩
  · rintro (⟨c', service, hmem⟩ | ⟨c', service, rfl⟩)
    · exact ⟨c', service, List.mem_append_left _ hmem⟩
    · exact ⟨c', service, List.mem_append_right _ List.mem_cons_self⟩

theorem Attached.of_untilGivenUp (h : Attached (untilGivenUp c es)) : Attached es := by
  obtain ⟨c', service, hmem⟩ := h
  exact ⟨c', service, (List.takeWhile_subset _) hmem⟩

theorem inTime_of_count (h : es.count (.poll c) < waitHostSleepCnt) : InTime c es := by
  rintro before c' service after rfl
  rw [List.count_append] at h
  omega

theorem inTime_of_not_attached (h : ¬ Attached es) : InTime c es := by
  rintro before c' service after rfl
  exact absurd ⟨c', service, List.mem_append_right _ List.mem_cons_self⟩ h

theorem InTime.of_snoc (h : InTime c (es ++ [e])) : InTime c es := by
  rintro before c' service after rfl
  exact h before c' service (after ++ [e]) (by simp)

/-- No attach is late that was not so before. -/
theorem InTime.snoc (h : InTime c es) (he : ∀ c' service, e ≠ .attachDeviceHost c' (some service)) :
    InTime c (es ++ [e]) := by
  intro before c' service after heq
  rcases List.eq_nil_or_concat after with rfl | ⟨after, e', rfl⟩
  · exact absurd (List.append_inj_right' heq rfl) (by simpa using he c' service)
  · rw [List.concat_eq_append, ← List.cons_append, ← List.append_assoc] at heq
    exact h before c' service after (List.append_inj_left' heq rfl)

end Events

/-! ## Where a call is -/

/-- The call `c` has started its process. -/
structure Started (inst : Installer) (c : Nat) (s : Host) (es : List HostEvent) : Prop where
  startedPid : ∀ pid, StartedPid inst c es pid ↔ s.startedPid c = some pid
  attached : Attached es → s.hostService.isSome ∧ (s.startedPid c).isSome

/-- The service, if there is one, is that of the process of `c`, which attached too late. -/
def AttachedLate (c : Nat) (s : Host) (es : List HostEvent) : Prop :=
  ∀ service ∈ s.hostService, ¬ InTime c es ∧ s.startedPid c = some service.pid

/-- What holds of the client and the events so far, at each step of the call. -/
def Underway (inst : Installer) (c : Nat) (s : Host) (es : List HostEvent) : Prop :=
  match s.calls c with
  | .startDeviceHost => es.count (.poll c) = 0 ∧ .stopTimedOut c ∉ es ∧ s.hostPid < 0 ∧
      ¬ Attached es ∧ ∀ pid, ¬ StartedPid inst c es pid
  | .storePid | .clearStopFlag => es.count (.poll c) = 0 ∧ .stopTimedOut c ∉ es ∧
      Started inst c s es
  | .checkPid => es.count (.poll c) = 0 ∧ .stopTimedOut c ∉ es ∧ Started inst c s es ∧
      s.hostPid = (s.startedPid c).elim (-1) Int.ofNat
  | .poll => es.count (.poll c) + s.waitCount c = waitHostSleepCnt ∧ .stopTimedOut c ∉ es ∧
      Started inst c s es ∧ (s.waitCount c = 0 → AttachedLate c s es)
  | .stopTimedOut | .clearPid => waitHostSleepCnt ≤ es.count (.poll c) ∧ Started inst c s es ∧
      AttachedLate c s es
  | .addDevice => .stopTimedOut c ∉ es ∧ InTime c es
  | .returned .errTimeout => s.hostPid < 0 ∧ Started inst c s es ∧ AttachedLate c s es
  | .returned .failure => InTime c es ∧ .stopTimedOut c ∉ es ∧ s.hostPid < 0 ∧ ¬ Attached es ∧
      ∀ pid, ¬ StartedPid inst c es pid
  | _ => False

variable {inst : Installer} {info : HostInfo} {c : Nat} {s t : Host} {es : List HostEvent}
  {e : HostEvent}

/-- An event that neither starts the process nor attaches it. -/
def HostEvent.Quiet (c : Nat) (e : HostEvent) : Prop :=
  (∀ c' service, e ≠ .attachDeviceHost c' (some service)) ∧ ∀ pid, e ≠ .startDeviceHost c pid

theorem HostEvent.Quiet.attached (he : e.Quiet c) : Attached (es ++ [e]) ↔ Attached es := by
  rw [attached_snoc, or_iff_left]
  rintro ⟨c', service, heq⟩
  exact he.1 c' service heq

theorem HostEvent.Quiet.startedPid (he : e.Quiet c) {pid : Nat} :
    StartedPid inst c (es ++ [e]) pid ↔ StartedPid inst c es pid := by
  unfold StartedPid
  rw [List.mem_append, List.mem_singleton, or_iff_left fun heq => he.2 _ heq.symm]

theorem Started.snoc (h : Started inst c s es) (he : e.Quiet c)
    (hservice : t.hostService = s.hostService) (hpid : t.startedPid c = s.startedPid c) :
    Started inst c t (es ++ [e]) where
  startedPid pid := by rw [hpid, he.startedPid, h.startedPid]
  attached ha := by
    rw [hservice, hpid]
    exact h.attached (he.attached.mp ha)

theorem AttachedLate.snoc (h : AttachedLate c s es) (hservice : t.hostService = s.hostService)
    (hpid : t.startedPid c = s.startedPid c) : AttachedLate c t (es ++ [e]) := by
  intro service hmem
  rw [hservice] at hmem
  rw [hpid]
  exact ⟨fun hin => (h service hmem).1 hin.of_snoc, (h service hmem).2⟩

/-! ## The steps of the call -/

theorem underway_startDeviceHost (h : Underway inst c s es) (hpc : s.calls c = .startDeviceHost)
    (pid : Option Nat) :
    Underway inst c (s.startDeviceHost inst info c pid) (es ++ [.startDeviceHost c pid]) := by
  rw [Underway, hpc] at h
  obtain ⟨hcount, hstop, hneg, hattached, hstart⟩ := h
  have hcount' : (es ++ [HostEvent.startDeviceHost c pid]).count (.poll c) = 0 := by simp [hcount]
  have hstop' : HostEvent.stopTimedOut c ∉ es ++ [.startDeviceHost c pid] := by simp [hstop]
  have hattached' : ¬ Attached (es ++ [.startDeviceHost c pid]) := by
    simp [attached_snoc, hattached]
  by_cases hinst : inst.startDeviceHost = true
  · have hmem : ∀ pid, HostEvent.startDeviceHost c (some pid) ∉ es :=
      fun pid hmem => hstart pid ⟨hinst, hmem⟩
    rw [Host.startDeviceHost, hinst, Underway, Bool.not_true, if_neg Bool.false_ne_true,
      Host.goto_calls_self]
    refine ⟨hcount', hstop', fun pid' => ?_, fun ha => absurd ha hattached'⟩
    simp [StartedPid, hinst, hmem, Host.goto, eq_comm]
  · rw [Host.startDeviceHost, Underway, if_pos (by simpa using hinst), Host.goto_calls_self]
    exact ⟨inTime_of_count (by rw [hcount']; decide), hstop', hneg, hattached',
      fun pid' hpid' => hinst hpid'.1⟩

theorem underway_storePid (h : Underway inst c s es) (hpc : s.calls c = .storePid) :
    Underway inst c (s.storePid c) (es ++ [.storePid c]) := by
  rw [Underway, hpc] at h
  obtain ⟨hcount, hstop, hstarted⟩ := h
  rw [Host.storePid, Underway, Host.goto_calls_self]
  exact ⟨by simp [hcount], by simp [hstop], hstarted.snoc ⟨by simp, by simp⟩ rfl rfl, rfl⟩

/-- The call fails here if no process has been started. -/
theorem underway_checkPid (h : Underway inst c s es) (hpc : s.calls c = .checkPid) :
    Underway inst c (s.checkPid c) (es ++ [.checkPid c]) := by
  rw [Underway, hpc] at h
  obtain ⟨hcount, hstop, hstarted, hpid⟩ := h
  have hcount' : (es ++ [HostEvent.checkPid c]).count (.poll c) = 0 := by simp [hcount]
  have hstop' : HostEvent.stopTimedOut c ∉ es ++ [.checkPid c] := by simp [hstop]
  have hquiet : (HostEvent.checkPid c).Quiet c := ⟨by simp, by simp⟩
  by_cases hfail : s.hostPid = -1
  · have hnone : s.startedPid c = none := by
      cases hs : s.startedPid c with
      | none => rfl
      | some pid =>
        rw [hs, hfail] at hpid
        cases hpid
    rw [Host.checkPid, if_pos hfail, Underway, Host.goto_calls_self]
    have hneg : s.hostPid < 0 := by rw [hfail]; decide
    refine ⟨inTime_of_count (by rw [hcount']; decide), hstop', hneg, fun ha => ?_,
      fun pid hpid => ?_⟩
    · have hsome := (hstarted.attached (hquiet.attached.mp ha)).2
      rw [hnone] at hsome
      cases hsome
    · have hsome := (hstarted.startedPid pid).mp (hquiet.startedPid.mp hpid)
      rw [hnone] at hsome
      cases hsome
  · rw [Host.checkPid, if_neg hfail, Underway, Host.goto_calls_self]
    exact ⟨hcount', hstop', hstarted.snoc hquiet rfl rfl⟩

theorem underway_clearStopFlag (h : Underway inst c s es) (hpc : s.calls c = .clearStopFlag) :
    Underway inst c (s.clearStopFlag c) (es ++ [.clearStopFlag c]) := by
  rw [Underway, hpc] at h
  obtain ⟨hcount, hstop, hstarted⟩ := h
  have hwait : (s.clearStopFlag c).waitCount c = waitHostSleepCnt := Function.update_self ..
  rw [Underway, Host.clearStopFlag, Host.goto_calls_self]
  refine ⟨?_, by simp [hstop], hstarted.snoc ⟨by simp, by simp⟩ rfl rfl, ?_⟩
  · rw [← Host.clearStopFlag, hwait]
    simp [hcount]
  · intro hzero
    exact absurd (hwait.symm.trans hzero) (by decide)

/-- The counter alone decides: behind the last poll the host is given up in any case. -/
theorem underway_poll (h : Underway inst c s es) (hpc : s.calls c = .poll) :
    Underway inst c (s.poll c) (es ++ [.poll c]) := by
  rw [Underway, hpc] at h
  obtain ⟨hcount, hstop, hstarted, hlate⟩ := h
  have hcount' : (es ++ [HostEvent.poll c]).count (.poll c) = es.count (.poll c) + 1 := by simp
  have hstop' : HostEvent.stopTimedOut c ∉ es ++ [.poll c] := by simp [hstop]
  have hquiet : (HostEvent.poll c).Quiet c := ⟨by simp, by simp⟩
  by_cases hzero : s.waitCount c = 0
  · rw [Host.poll, if_neg (by simp [hzero]), if_pos hzero, Underway, Host.goto_calls_self]
    exact ⟨by omega, hstarted.snoc hquiet rfl rfl, (hlate hzero).snoc rfl rfl⟩
  · have hin : InTime c (es ++ [.poll c]) := (inTime_of_count (by omega)).snoc hquiet.1
    by_cases hnone : s.hostService = none
    · have hstep : s.poll c =
          { s with waitCount := Function.update s.waitCount c (s.waitCount c - 1) } := by
        simp [Host.poll, hnone, Nat.pos_of_ne_zero hzero]
      rw [hstep, Underway, hpc]
      refine ⟨?_, hstop', hstarted.snoc hquiet rfl rfl, fun _ service hmem => ?_⟩
      · simp only [hcount', Function.update_self]
        omega
      · rw [hnone] at hmem
        cases hmem
    · rw [Host.poll, if_neg (by simp [hnone]), if_neg hzero, Underway, Host.goto_calls_self]
      exact ⟨hstop', hin⟩

theorem underway_stopTimedOut (h : Underway inst c s es) (hpc : s.calls c = .stopTimedOut) :
    Underway inst c (s.stopTimedOut inst c) (es ++ [.stopTimedOut c]) := by
  rw [Underway, hpc] at h
  obtain ⟨hcount, hstarted, hlate⟩ := h
  have hcount' : waitHostSleepCnt ≤ (es ++ [HostEvent.stopTimedOut c]).count (.poll c) := by
    simpa using hcount
  have hquiet : (HostEvent.stopTimedOut c).Quiet c := ⟨by simp, by simp⟩
  by_cases hinst : inst.stopDeviceHost = true
  · rw [Host.stopTimedOut, if_pos hinst, Underway, Host.goto_calls_self]
    exact ⟨hcount', hstarted.snoc hquiet rfl rfl, hlate.snoc rfl rfl⟩
  · rw [Host.stopTimedOut, if_neg hinst, Underway, Host.goto_calls_self]
    exact ⟨hcount', hstarted.snoc hquiet rfl rfl, hlate.snoc rfl rfl⟩

theorem underway_clearPid (h : Underway inst c s es) (hpc : s.calls c = .clearPid) :
    Underway inst c (s.clearPid c) (es ++ [.clearPid c]) := by
  rw [Underway, hpc] at h
  obtain ⟨-, hstarted, hlate⟩ := h
  rw [Host.clearPid, Underway, Host.goto_calls_self]
  exact ⟨(by decide : (-1 : Int) < 0), hstarted.snoc ⟨by simp, by simp⟩ rfl rfl,
    hlate.snoc rfl rfl⟩

/-! ## The steps of other calls -/

/-- A step of another call, which writes at most the service. -/
theorem Underway.other (h : Underway inst c s es) (hstarting : (s.calls c).Starting)
    (hpoll : e ≠ .poll c) (hstop : e ≠ .stopTimedOut c) (hcalls : t.calls c = s.calls c)
    (hhostPid : t.hostPid = s.hostPid) (hpid : t.startedPid c = s.startedPid c)
    (hwait : t.waitCount c = s.waitCount c)
    (hquiet : s.calls c = .startDeviceHost → e.Quiet c)
    (hstarted : s.calls c ≠ .startDeviceHost → Started inst c s es → Started inst c t (es ++ [e]))
    (hlate : s.calls c ≠ .startDeviceHost → waitHostSleepCnt ≤ es.count (.poll c) →
      AttachedLate c s es → AttachedLate c t (es ++ [e])) :
    Underway inst c t (es ++ [e]) := by
  have hcount : (es ++ [e]).count (.poll c) = es.count (.poll c) := by
    rw [List.count_append, List.count_singleton, if_neg (by simpa using hpoll), Nat.add_zero]
  have hnot : .stopTimedOut c ∉ es → .stopTimedOut c ∉ es ++ [e] := fun hes hmem =>
    (List.mem_append.mp hmem).elim hes fun hmem => hstop (List.mem_singleton.mp hmem).symm
  unfold Underway at h ⊢
  rw [hcalls]
  cases hpc : s.calls c with
  | startDeviceHost =>
    rw [hpc] at h
    obtain ⟨hzero, hes, hneg, hattached, hstart⟩ := h
    have hquiet := hquiet hpc
    exact ⟨by rw [hcount, hzero], hnot hes, by rw [hhostPid]; exact hneg,
      fun ha => hattached (hquiet.attached.mp ha),
      fun pid hpid => hstart pid (hquiet.startedPid.mp hpid)⟩
  | storePid | clearStopFlag =>
    rw [hpc] at h
    obtain ⟨hzero, hes, hs⟩ := h
    exact ⟨by rw [hcount, hzero], hnot hes, hstarted (by simp [hpc]) hs⟩
  | checkPid =>
    rw [hpc] at h
    obtain ⟨hzero, hes, hs, heq⟩ := h
    exact ⟨by rw [hcount, hzero], hnot hes, hstarted (by simp [hpc]) hs,
      by rw [hhostPid, hpid, heq]⟩
  | poll =>
    rw [hpc] at h
    obtain ⟨hsum, hes, hs, hl⟩ := h
    refine ⟨by rw [hcount, hwait, hsum], hnot hes, hstarted (by simp [hpc]) hs, fun hzero => ?_⟩
    rw [hwait] at hzero
    exact hlate (by simp [hpc]) (by omega) (hl hzero)
  | stopTimedOut | clearPid =>
    rw [hpc] at h
    obtain ⟨hle, hs, hl⟩ := h
    exact ⟨by rw [hcount]; exact hle, hstarted (by simp [hpc]) hs, hlate (by simp [hpc]) hle hl⟩
  | idle | loadLocked | addDevice | unloadLocked | stopHost | setStopFlag | installDriver
  | returned =>
    rw [hpc] at hstarting
    exact hstarting.elim

theorem not_inTime_attach {c' : Nat} {service : DevHostService}
    (h : waitHostSleepCnt ≤ es.count (.poll c)) :
    ¬ InTime c (es ++ [.attachDeviceHost c' (some service)]) := by
  intro hin
  exact absurd (hin es c' service [] rfl) (by omega)

/-- A step of another call that leaves the service alone. -/
theorem Underway.quiet (h : Underway inst c s es) (hstarting : (s.calls c).Starting)
    (hpoll : e ≠ .poll c) (hstop : e ≠ .stopTimedOut c) (hquiet : e.Quiet c) {c' : Nat}
    {pc : CallPc} (hc : c' ≠ c) : Underway inst c (s.goto c' pc) (es ++ [e]) :=
  h.other hstarting hpoll hstop (Function.update_of_ne hc.symm ..) rfl rfl rfl (fun _ => hquiet)
    (fun _ hs => hs.snoc hquiet rfl rfl) fun _ _ hl => hl.snoc rfl rfl

theorem underway_attachDeviceHost (h : Underway inst c s es) (hstarting : (s.calls c).Starting)
    {c' : Nat} (hc : c' ≠ c) {service : DevHostService} (hpc : s.calls c ≠ .startDeviceHost)
    (hpid : s.startedPid c = some service.pid) :
    Underway inst c (s.attachDeviceHost c' (some service))
      (es ++ [.attachDeviceHost c' (some service)]) := by
  refine h.other hstarting (by simp) (by simp) (Function.update_of_ne hc.symm ..) rfl rfl rfl
    (fun habs => absurd habs hpc) (fun _ hs => ⟨fun pid => ?_, fun _ => ⟨rfl, ?_⟩⟩)
    fun _ hle _ service' hmem => ?_
  · refine Iff.trans ?_ (hs.startedPid pid)
    simp [StartedPid]
  · show (s.startedPid c).isSome
    rw [hpid]
    rfl
  · obtain rfl : service = service' := Option.some.inj hmem
    exact ⟨not_inTime_attach hle, hpid⟩

theorem underway_step (h : Underway inst c s es) (he : (startHostProcess inst info c).enabled s e) :
    Underway inst c ((startHostProcess inst info c).step s e) (es ++ [e]) := by
  obtain ⟨henabled, hstarting, hmeanwhile⟩ := he
  cases e with
  | startDeviceHost c' pid =>
    obtain rfl : c' = c := hmeanwhile
    exact underway_startDeviceHost h henabled pid
  | storePid c' =>
    obtain rfl : c' = c := hmeanwhile
    exact underway_storePid h henabled
  | checkPid c' =>
    obtain rfl : c' = c := hmeanwhile
    exact underway_checkPid h henabled
  | clearStopFlag c' =>
    obtain rfl : c' = c := hmeanwhile
    exact underway_clearStopFlag h henabled
  | poll c' =>
    obtain rfl : c' = c := hmeanwhile
    exact underway_poll h henabled
  | stopTimedOut c' =>
    obtain rfl : c' = c := hmeanwhile
    exact underway_stopTimedOut h henabled
  | clearPid c' =>
    obtain rfl : c' = c := hmeanwhile
    exact underway_clearPid h henabled
  | attachDeviceHost c' hostService =>
    cases hostService with
    | none => exact h.quiet hstarting (by simp) (by simp) ⟨by simp, by simp⟩ hmeanwhile.1
    | some service =>
      obtain ⟨hpc, hpid⟩ := hmeanwhile.2 service rfl
      exact underway_attachDeviceHost h hstarting hmeanwhile.1 hpc hpid
  | installDriver c' installed =>
    exact h.quiet hstarting (by simp) (by simp) ⟨by simp, by simp⟩ hmeanwhile
  | loadDevice | unloadDevice | loadLocked | addDevice | unloadLocked | stopHost | setStopFlag
  | attachDevice | detachDevice => exact hmeanwhile.elim

/-! ## The law -/

theorem underway_nil (hpc : s.calls c = .startDeviceHost) (hneg : s.hostPid < 0) :
    Underway inst c s [] := by
  rw [Underway, hpc]
  refine ⟨rfl, by simp, hneg, ?_, ?_⟩
  · rintro ⟨c', service, hmem⟩
    cases hmem
  · rintro pid ⟨-, hmem⟩
    cases hmem

/-- The wait ends with a host that has attached. -/
theorem startLaw_of_addDevice (h : Underway inst c t es) (hpc : t.calls c = .addDevice) :
    StartLaw inst c es t ↔ InTime c es := by
  rw [Underway, hpc] at h
  obtain ⟨hstop, hin⟩ := h
  refine iff_of_true ⟨?_, fun _ => hpc, fun ret hret => ?_⟩ hin
  · rintro (habs | habs)
    · rw [hpc] at habs
      cases habs
    · exact absurd habs hstop
  · rw [hpc] at hret
    cases hret

/-- No host has been started. -/
theorem startLaw_of_failure (h : Underway inst c t es) (hpc : t.calls c = .returned .failure) :
    StartLaw inst c es t ↔ InTime c es := by
  rw [Underway, hpc] at h
  obtain ⟨hin, hstop, hneg, hattached, hstart⟩ := h
  have hnot : ¬ Attached (untilGivenUp c es) := fun ha => hattached ha.of_untilGivenUp
  exact iff_of_true ⟨fun _ => hnot, fun ha => absurd ha hnot,
    fun _ _ => ⟨hneg, fun service _ => hstart service.pid⟩⟩ hin

/-- The host is given up: a host that attached late has left its service. -/
theorem startLaw_of_errTimeout (h : Underway inst c t es)
    (hpc : t.calls c = .returned .errTimeout) : StartLaw inst c es t ↔ InTime c es := by
  rw [Underway, hpc] at h
  obtain ⟨hneg, hstarted, hlate⟩ := h
  constructor
  · intro hlaw
    by_contra hin
    have hattached : Attached es := by
      by_contra hnot
      exact hin (inTime_of_not_attached hnot)
    obtain ⟨service, hservice⟩ := Option.isSome_iff_exists.mp (hstarted.attached hattached).1
    have hpid : StartedPid inst c es service.pid :=
      (hstarted.startedPid _).mpr (hlate service hservice).2
    exact (hlaw.failure _ hpc).2 service hservice hpid
  · intro hin
    have hnone : t.hostService = none :=
      Option.eq_none_iff_forall_not_mem.mpr fun service hmem => (hlate service hmem).1 hin
    have hnot : ¬ Attached (untilGivenUp c es) := by
      intro ha
      have hsome := (hstarted.attached ha.of_untilGivenUp).1
      rw [hnone] at hsome
      cases hsome
    refine ⟨fun _ => hnot, fun ha => absurd ha hnot, fun _ _ => ⟨hneg, ?_⟩⟩
    rw [hnone]
    simp

/-- **When the wait for a host ends as it should.** Just in case the host attaches before the last
poll of the counter, or not while the call is under way. -/
theorem startLaw_iff (hpc : s.calls c = .startDeviceHost) (hneg : s.hostPid < 0)
    (hr : (startHostProcess inst info c).Run s es t) (hend : ¬ (t.calls c).Starting) :
    StartLaw inst c es t ↔ InTime c es := by
  have hunderway : Underway inst c t es :=
    hr.invariant_events (fun s es e h he => underway_step h he) (underway_nil hpc hneg)
  cases hpc' : t.calls c with
  | addDevice => exact startLaw_of_addDevice hunderway hpc'
  | returned ret =>
    cases ret with
    | failure => exact startLaw_of_failure hunderway hpc'
    | errTimeout => exact startLaw_of_errTimeout hunderway hpc'
    | success | errInvalidParam | errNoDevice | errNoRange =>
      rw [Underway, hpc'] at hunderway
      exact hunderway.elim
  | idle | loadLocked | unloadLocked | stopHost | setStopFlag | installDriver =>
    rw [Underway, hpc'] at hunderway
    exact hunderway.elim
  | startDeviceHost | storePid | checkPid | clearStopFlag | poll | stopTimedOut | clearPid =>
    rw [hpc'] at hend
    exact absurd trivial hend

/-- The client of the sensor when its host is to be started. -/
def stoppedSensor : Host := runHost {} (startsSensor.take 2)

/-- The host attaches before the first poll. -/
theorem startLaw_iff_run :
    StartLaw {} 0 (startsSensor.drop 2 ++ attachesInTime.take 3)
      (runHost {} (startsSensor ++ attachesInTime.take 3)) := by
  have hrun : (startHostProcess {} (hostInfo sampleHosts 1) 0).Run stoppedSensor
      (startsSensor.drop 2 ++ attachesInTime.take 3)
      (runHost {} (startsSensor ++ attachesInTime.take 3)) := by
    refine .cons ⟨rfl, trivial, rfl⟩ (.cons ⟨rfl, trivial, rfl⟩ (.cons ⟨rfl, trivial, rfl⟩
      (.cons ⟨rfl, trivial, rfl⟩ (.cons ⟨.inl rfl, trivial, by decide, ?_⟩
      (.cons ⟨rfl, trivial, Nat.one_ne_zero⟩ (.cons ⟨rfl, trivial, rfl⟩ (.nil _)))))))
    rintro service ⟨⟩
    exact ⟨by decide, rfl⟩
  have hend : ¬ ((runHost {} (startsSensor ++ attachesInTime.take 3)).calls 0).Starting := id
  refine (startLaw_iff (by decide) (by decide) hrun hend).mpr (inTime_of_count ?_)
  decide

/-- The host attaches in the last sleep of the wait. -/
def attachesInLastSleep : List HostEvent :=
  [.attachDeviceHost 1 (some { pid := 100 }), .poll 0, .stopTimedOut 0, .clearPid 0]

/-- The wait is part of the function. -/
theorem startHostProcess_waits :
    (startHostProcess {} (hostInfo sampleHosts 1) 0).Run (runHost {} startsSensor) waits waited := by
  have hpoll : (hostClient {} (hostInfo sampleHosts 1)).Run (runHost {} startsSensor) waits
      waited := Host.poll_run {} _ _ _ (by decide) (by decide) (by decide)
  have hall : ∀ e ∈ waits, e = .poll 0 := fun e he => List.eq_of_mem_replicate he
  refine (hpoll.restrict_of_forall hall).mono rfl ?_
  rintro s e ⟨he, rfl⟩
  have hpc : s.calls 0 = .poll := he
  exact ⟨he, by rw [hpc]; trivial, rfl⟩

/-- The host that has attached is stopped, and its client keeps the service. -/
theorem attached_host_given_up : ∃ s es t,
    s.calls 0 = .startDeviceHost ∧ s.hostPid < 0 ∧
    (startHostProcess {} (hostInfo sampleHosts 1) 0).Run s es t ∧ ¬ (t.calls 0).Starting ∧
    ¬ StartLaw {} 0 es t := by
  have hstart : (startHostProcess {} (hostInfo sampleHosts 1) 0).Run stoppedSensor
      (startsSensor.drop 2) (runHost {} startsSensor) :=
    .cons ⟨rfl, trivial, rfl⟩ (.cons ⟨rfl, trivial, rfl⟩ (.cons ⟨rfl, trivial, rfl⟩
      (.cons ⟨rfl, trivial, rfl⟩ (.nil _))))
  have hgiveUp : (startHostProcess {} (hostInfo sampleHosts 1) 0).Run waited attachesInLastSleep
      (runHost waited attachesInLastSleep) := by
    refine .cons ⟨.inl rfl, trivial, by decide, ?_⟩ (.cons ⟨rfl, trivial, rfl⟩
      (.cons ⟨rfl, trivial, rfl⟩ (.cons ⟨rfl, trivial, rfl⟩ (.nil _))))
    rintro service ⟨⟩
    exact ⟨by decide, rfl⟩
  refine ⟨stoppedSensor, startsSensor.drop 2 ++ (waits ++ attachesInLastSleep),
    runHost waited attachesInLastSleep, by decide, by decide,
    hstart.append (startHostProcess_waits.append hgiveUp), id, fun hlaw => ?_⟩
  obtain ⟨-, hservice⟩ := hlaw.failure .errTimeout (by decide)
  exact hservice { pid := 100 } (by decide) ⟨rfl, List.mem_cons_self⟩

end Devmgr
