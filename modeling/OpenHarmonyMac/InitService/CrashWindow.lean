import Mathlib.Data.List.Induction
import OpenHarmonyMac.InitService.Stopping

/-!
# Counting the crashes of a service

A service that crashes too often is not started again at once. Its crashes are counted in windows: a
window starts at the first crash after a reset, or at the first crash that comes too late for the
window before.

* `Window` — the count as it is meant
* `Tracks` — how two fields of the service stand for it
* `calculateCrashTime_false_iff` — where `CalculateCrashTime` notices that the limit is reached
* `serviceReap_crashes` — the crashes and resets of `ServiceReap`
-/

namespace InitService

open Infra

/-! ## Windows -/

/-- A window: when it started, in seconds, and the crashes in it. -/
structure Window where
  start : Nat
  crashes : Nat
deriving DecidableEq, Repr

/-- The time is more than `limit` seconds behind the start. -/
def Window.Expired (limit : Int) (w : Window) (t : Nat) : Prop := limit < (t : Int) - w.start

instance (limit : Int) (w : Window) (t : Nat) : Decidable (w.Expired limit t) :=
  inferInstanceAs (Decidable (_ < _))

/-- The window of a crash at `t`, `none` standing for no crash since the last reset. -/
def Window.crash (limit : Int) (t : Nat) : Option Window → Window
  | none => { start := t, crashes := 1 }
  | some w =>
    if w.Expired limit t then { start := t, crashes := 1 } else { w with crashes := w.crashes + 1 }

/-- What happens to the count of a service. -/
inductive CrashEvent
  | crash (curTime : Timespec)
  | reset
deriving DecidableEq

/-- The last window of a history. -/
def windowAfter (limit : Int) (es : List CrashEvent) : Option Window :=
  es.foldl (fun w e => match e with
    | .crash curTime => some (Window.crash limit curTime.tvSec w)
    | .reset => none) none

/-- The times of the crashes, in seconds. -/
def crashTimes (es : List CrashEvent) : List Nat := es.filterMap fun
  | .crash curTime => some curTime.tvSec
  | .reset => none

/-- No crash is earlier than one before it. -/
def InOrder (es : List CrashEvent) : Prop := (crashTimes es).Pairwise (· ≤ ·)

instance (es : List CrashEvent) : Decidable (InOrder es) :=
  inferInstanceAs (Decidable ((crashTimes es).Pairwise _))

/-! ## The fields of the service -/

section Count

variable (pf : Platform) (limit count : Int)

/-- `CalculateCrashTime` at a crash, and the reset of the count by `ServiceReap`. -/
def countEvent (service : Service pf.timers.Handle) : CrashEvent → Service pf.timers.Handle
  | .crash curTime => (State.calculateCrashTime pf curTime service limit count).1
  | .reset => { service with crashCnt := 0 }

def countAll (service : Service pf.timers.Handle) (es : List CrashEvent) :
    Service pf.timers.Handle :=
  es.foldl (countEvent pf limit count) service

end Count

/-- What is relied on of `IntervalTime`: the difference in seconds. -/
def Platform.CountsSeconds (pf : Platform) : Prop :=
  ∀ start stop : Timespec, start.tvNsec = 0 → start.tvSec ≤ stop.tvSec →
    pf.intervalTime start stop = stop.tvSec - start.tvSec

variable {pf : Platform} {limit count : Int} {service : Service pf.timers.Handle} {now : Nat}
  {w : Option Window}

/-- The service stands for the window `w`, and no crash was later than `now`. `firstCrashTime` has
32 bits: of a window that starts later than that it is too early by more than any limit. -/
def Tracks (service : Service pf.timers.Handle) (now : Nat) : Option Window → Prop
  | none => service.crashCnt = 0
  | some w => w.start ≤ now ∧ 0 < service.crashCnt ∧
    if w.start < 2 ^ 32 then service.firstCrashTime.toNat = w.start ∧ service.crashCnt = w.crashes
    else service.firstCrashTime.toNat + 2 ^ 32 ≤ now

theorem Tracks.mono {now' : Nat} (h : Tracks service now w) (hle : now ≤ now') :
    Tracks service now' w := by
  cases w with
  | none => exact h
  | some w =>
    obtain ⟨hstart, hpos, hfields⟩ := h
    refine ⟨hstart.trans hle, hpos, ?_⟩
    split
    · next hlt => rwa [if_pos hlt] at hfields
    · next hge =>
      rw [if_neg hge] at hfields
      exact hfields.trans hle

/-- The service at the start of a window. -/
theorem tracks_start {t : Nat} (hfirst : service.firstCrashTime = UInt32.ofNat t)
    (hcnt : service.crashCnt = 1) : Tracks service t (some { start := t, crashes := 1 }) := by
  have hnat : service.firstCrashTime.toNat = t % 2 ^ 32 := by
    rw [hfirst]
    exact UInt32.toNat_ofNat'
  refine ⟨Nat.le_refl _, by omega, ?_⟩
  dsimp only
  split
  · next hlt => exact ⟨by rw [hnat, Nat.mod_eq_of_lt hlt], by simp [hcnt]⟩
  · next hge =>
    have := Nat.mod_add_div t (2 ^ 32)
    have : 1 ≤ t / 2 ^ 32 := by omega
    omega

/-! ## One crash -/

section Crash

variable {curTime : Timespec}

theorem calculateCrashTime_first (hl : 0 < limit) (hc : 0 < count) (h : service.crashCnt = 0) :
    State.calculateCrashTime pf curTime service limit count =
      ({ service with firstCrashTime := UInt32.ofNat curTime.tvSec, crashCnt := 1 },
        decide ((1 : Int) ≠ count)) := by
  simp [State.calculateCrashTime, hl, hc, h]

/-- A crash in an expired window starts a new one, and the limit is not looked at. -/
theorem calculateCrashTime_expired (hl : 0 < limit) (hc : 0 < count) (h : service.crashCnt ≠ 0)
    (hex : (toUInt32 limit).toNat < pf.intervalTime ⟨service.firstCrashTime.toNat, 0⟩ curTime) :
    State.calculateCrashTime pf curTime service limit count =
      ({ service with firstCrashTime := UInt32.ofNat curTime.tvSec, crashCnt := 1 }, true) := by
  simp [State.calculateCrashTime, hl, hc, h, hex]

theorem calculateCrashTime_inside (hl : 0 < limit) (hc : 0 < count) (h : service.crashCnt ≠ 0)
    (hex : ¬ (toUInt32 limit).toNat < pf.intervalTime ⟨service.firstCrashTime.toNat, 0⟩ curTime) :
    State.calculateCrashTime pf curTime service limit count =
      ({ service with crashCnt := service.crashCnt + 1 },
        decide (service.crashCnt + 1 < count)) := by
  simp [State.calculateCrashTime, hl, hc, h, hex]

/-- The comparison of `IntervalTime` with the limit. -/
theorem interval_gt_iff (hpf : pf.CountsSeconds) (hl : 0 < limit) (hl' : limit < 2 ^ 31)
    {first : UInt32} (hle : first.toNat ≤ curTime.tvSec) :
    (toUInt32 limit).toNat < pf.intervalTime ⟨first.toNat, 0⟩ curTime ↔
      limit < (curTime.tvSec : Int) - first.toNat := by
  rw [hpf ⟨first.toNat, 0⟩ curTime rfl hle, toUInt32]
  have hmod : limit % 2 ^ 32 = limit := Int.emod_eq_of_lt (by omega) (by omega)
  rw [hmod, UInt32.toNat_ofNat_of_lt' (by rw [UInt32.size]; omega)]
  dsimp only
  omega

/-- The answer of `CalculateCrashTime` depends on the limit only for the first crash since a reset
and inside of a window that started within the range of `firstCrashTime`. -/
def Noticed (limit : Int) (t : Nat) : Option Window → Prop
  | none => True
  | some w => ¬ w.Expired limit t ∧ w.start < 2 ^ 32

instance (limit : Int) (t : Nat) : ∀ w, Decidable (Noticed limit t w)
  | none => inferInstanceAs (Decidable True)
  | some w => inferInstanceAs (Decidable (¬ w.Expired limit t ∧ w.start < 2 ^ 32))

/-- A crash in a window that started within the range of `firstCrashTime`. -/
theorem Tracks.crash_inRange {w : Window} (hpf : pf.CountsSeconds) (hl : 0 < limit)
    (hl' : limit < 2 ^ 31) (hc : 0 < count) (h : Tracks service now (some w))
    (hle : now ≤ curTime.tvSec) (hrange : w.start < 2 ^ 32) :
    Tracks (State.calculateCrashTime pf curTime service limit count).1 curTime.tvSec
        (some (Window.crash limit curTime.tvSec (some w))) ∧
      ((State.calculateCrashTime pf curTime service limit count).2 = false ↔
        count ≤ (Window.crash limit curTime.tvSec (some w)).crashes ∧
          Noticed limit curTime.tvSec (some w)) := by
  obtain ⟨hstart, hpos, hfields⟩ := h
  have hne : service.crashCnt ≠ 0 := by omega
  rw [if_pos hrange] at hfields
  obtain ⟨hfirst, hcnt⟩ := hfields
  have hiff := interval_gt_iff hpf hl hl' (hfirst.le.trans (hstart.trans hle))
  rw [hfirst] at hiff
  by_cases hex : w.Expired limit curTime.tvSec
  · rw [calculateCrashTime_expired hl hc hne (by rw [hfirst]; exact hiff.mpr hex), Window.crash,
      if_pos hex]
    exact ⟨tracks_start rfl rfl, by simp [Noticed, hex]⟩
  · rw [calculateCrashTime_inside hl hc hne (by rw [hfirst]; exact fun hn => hex (hiff.mp hn)),
      Window.crash, if_neg hex]
    refine ⟨⟨hstart.trans hle, ?_, ?_⟩, ?_⟩
    · show 0 < service.crashCnt + 1
      omega
    · rw [if_pos hrange]
      exact ⟨hfirst, by simp [hcnt]⟩
    · simp only [Noticed, hex, hrange, hcnt, not_false_eq_true, and_self, and_true,
        decide_eq_false_iff_not, not_lt, Nat.cast_add, Nat.cast_one]

/-- A window that started out of range counts as expired, whatever the limit is. -/
theorem Tracks.crash_outOfRange {w : Window} (hpf : pf.CountsSeconds) (hl : 0 < limit)
    (hl' : limit < 2 ^ 31) (hc : 0 < count) (h : Tracks service now (some w))
    (hle : now ≤ curTime.tvSec) (hrange : ¬ w.start < 2 ^ 32) :
    Tracks (State.calculateCrashTime pf curTime service limit count).1 curTime.tvSec
        (some (Window.crash limit curTime.tvSec (some w))) ∧
      (State.calculateCrashTime pf curTime service limit count).2 = true := by
  obtain ⟨hstart, hpos, hfields⟩ := h
  rw [if_neg hrange] at hfields
  have hiff := interval_gt_iff hpf hl hl'
    (show service.firstCrashTime.toNat ≤ curTime.tvSec by omega)
  rw [calculateCrashTime_expired hl hc (by omega) (hiff.mpr (by omega)), Window.crash]
  refine ⟨?_, rfl⟩
  by_cases hex : w.Expired limit curTime.tvSec
  · rw [if_pos hex]
    exact tracks_start rfl rfl
  · rw [if_neg hex]
    refine ⟨hstart.trans hle, Int.one_pos, ?_⟩
    have hnat : (UInt32.ofNat curTime.tvSec).toNat = curTime.tvSec % 2 ^ 32 :=
      UInt32.toNat_ofNat'
    dsimp only
    rw [if_neg hrange, hnat]
    omega

/-- **What `CalculateCrashTime` does at a crash**: the fields stand for the new window, and the
answer is no when the limit is reached and noticed. -/
theorem Tracks.crash (hpf : pf.CountsSeconds) (hl : 0 < limit) (hl' : limit < 2 ^ 31)
    (hc : 0 < count) (h : Tracks service now w) (hle : now ≤ curTime.tvSec) :
    Tracks (State.calculateCrashTime pf curTime service limit count).1 curTime.tvSec
        (some (Window.crash limit curTime.tvSec w)) ∧
      ((State.calculateCrashTime pf curTime service limit count).2 = false ↔
        count ≤ (Window.crash limit curTime.tvSec w).crashes ∧ Noticed limit curTime.tvSec w) := by
  cases w with
  | none =>
    rw [calculateCrashTime_first hl hc h]
    refine ⟨tracks_start rfl rfl, ?_⟩
    simp only [Window.crash, Noticed, decide_eq_false_iff_not, not_not, and_true, Nat.cast_one]
    omega
  | some w =>
    by_cases hrange : w.start < 2 ^ 32
    · exact h.crash_inRange hpf hl hl' hc hle hrange
    · obtain ⟨htracks, hyes⟩ := h.crash_outOfRange hpf hl hl' hc hle hrange
      refine ⟨htracks, iff_of_false ?_ fun hnoticed => hrange hnoticed.2.2⟩
      rw [hyes]
      exact Bool.noConfusion

end Crash

/-! ## Histories -/

theorem windowAfter_append (es : List CrashEvent) (e : CrashEvent) :
    windowAfter limit (es ++ [e]) = match e with
      | .crash curTime => some (Window.crash limit curTime.tvSec (windowAfter limit es))
      | .reset => none := by
  rw [windowAfter, List.foldl_append]
  rfl

theorem countAll_append (es : List CrashEvent) (e : CrashEvent) :
    countAll pf limit count service (es ++ [e]) =
      countEvent pf limit count (countAll pf limit count service es) e := by
  rw [countAll, List.foldl_append]
  rfl

/-- **The fields stand for the last window of every history.** -/
theorem tracks_countAll (hpf : pf.CountsSeconds) (hl : 0 < limit) (hl' : limit < 2 ^ 31)
    (hc : 0 < count) (h0 : service.crashCnt = 0) {es : List CrashEvent} (hes : InOrder es)
    (hnow : ∀ t ∈ crashTimes es, t ≤ now) :
    Tracks (countAll pf limit count service es) now (windowAfter limit es) := by
  -- by induction on the history, the last event first
  induction es using List.reverseRecOn generalizing now with
  | nil => exact h0
  | append_singleton es e ih =>
    rw [windowAfter_append, countAll_append]
    cases e with
    | reset => rfl
    | crash curTime =>
      have htimes : crashTimes (es ++ [.crash curTime]) = crashTimes es ++ [curTime.tvSec] := by
        simp [crashTimes]
      rw [InOrder, htimes, List.pairwise_append] at hes
      rw [htimes] at hnow
      have hbefore : Tracks (countAll pf limit count service es) curTime.tvSec
          (windowAfter limit es) := ih hes.1 fun t ht => hes.2.2 t ht _ (by simp)
      exact (hbefore.crash hpf hl hl' hc (Nat.le_refl _)).1.mono (hnow _ (by simp))

/-- **A crash is answered with no just in case it brings its window up to the limit**, when the
limit is noticed there, and never else. -/
theorem calculateCrashTime_false_iff (hpf : pf.CountsSeconds) (hl : 0 < limit)
    (hl' : limit < 2 ^ 31) (hc : 0 < count) (h0 : service.crashCnt = 0) {es : List CrashEvent}
    {curTime : Timespec} (hes : InOrder (es ++ [.crash curTime])) :
    ((State.calculateCrashTime pf curTime (countAll pf limit count service es) limit count).2 = false ↔
        count ≤ (Window.crash limit curTime.tvSec (windowAfter limit es)).crashes) ↔
      (count ≤ (Window.crash limit curTime.tvSec (windowAfter limit es)).crashes →
        Noticed limit curTime.tvSec (windowAfter limit es)) := by
  have htimes : crashTimes (es ++ [.crash curTime]) = crashTimes es ++ [curTime.tvSec] := by
    simp [crashTimes]
  rw [InOrder, htimes, List.pairwise_append] at hes
  have htracks : Tracks (countAll pf limit count service es) curTime.tvSec
      (windowAfter limit es) :=
    tracks_countAll hpf hl hl' hc h0 hes.1 fun t ht => hes.2.2 t ht _ (by simp)
  rw [(htracks.crash hpf hl hl' hc (Nat.le_refl curTime.tvSec)).2]
  exact and_iff_left_iff_imp

theorem samplePlatform_countsSeconds : samplePlatform.CountsSeconds := fun _ _ _ _ => rfl

/-- Two crashes within 20 seconds, a third one later, and a fourth one after that: with a limit of
two the second and the fourth are answered with no. -/
theorem calculateCrashTime_false_iff_run :
    (State.calculateCrashTime samplePlatform ⟨45, 0⟩
      (countAll samplePlatform 20 2 sampleService.service
        [.crash ⟨1, 0⟩, .crash ⟨21, 0⟩, .reset, .crash ⟨23, 0⟩, .crash ⟨44, 0⟩]) 20 2).2 = false :=
  ((calculateCrashTime_false_iff samplePlatform_countsSeconds (by decide) (by decide) (by decide) rfl
    (by decide)).mpr fun _ => by decide).mpr (by decide)

/-- **With a limit of one crash, a crash that starts a new window is answered with yes.** -/
theorem expired_crash_not_noticed : ∃ es, InOrder (es ++ [.crash ⟨21, 0⟩]) ∧
    ¬ ((State.calculateCrashTime samplePlatform ⟨21, 0⟩
        (countAll samplePlatform 20 1 sampleService.service es) 20 1).2 = false ↔
      (1 : Int) ≤ (Window.crash 20 21 (windowAfter 20 es)).crashes) :=
  ⟨[.crash ⟨0, 0⟩], by decide, by decide⟩

/-! ## Reaping -/

/-- The count is the one of the service `service`. -/
structure SameCount (service : Service pf.timers.Handle) (m : State pf) : Prop where
  crashCnt : m.service.crashCnt = service.crashCnt
  firstCrashTime : m.service.firstCrashTime = service.firstCrashTime

variable {m m' : State pf}

theorem SameCount.trans (h : SameCount service m) (h' : SameCount m.service m') :
    SameCount service m' :=
  ⟨h'.crashCnt.trans h.crashCnt, h'.firstCrashTime.trans h.firstCrashTime⟩

theorem sameCount_doJob (m : State pf) (job : Option String) :
    SameCount m.service (m.doJob job) := by
  cases job <;> exact ⟨rfl, rfl⟩

theorem sameCount_checkInvalid (m : State pf) (env : StartEnv) :
    SameCount m.service (m.checkInvalid env) := by
  unfold State.checkInvalid
  split
  · exact ⟨rfl, rfl⟩
  · dsimp only
    split <;> exact ⟨rfl, rfl⟩

theorem sameCount_forkService (m : State pf) (env : StartEnv) :
    SameCount m.service (m.forkService env).1 := by
  unfold State.forkService
  cases env.fork with
  | none => exact ⟨rfl, rfl⟩
  | some pid =>
    dsimp only
    split <;> exact ⟨rfl, rfl⟩

theorem sameCount_serviceStart (m : State pf) (pathArgs : Option (List String)) (env : StartEnv) :
    SameCount m.service (m.serviceStart pathArgs env).1 := by
  unfold State.serviceStart
  split
  · exact ⟨rfl, rfl⟩
  split
  · exact ⟨rfl, rfl⟩
  dsimp only
  split
  · exact sameCount_checkInvalid m env
  · have hcall : SameCount m.service ((m.checkInvalid env).call .serviceForkBeforeHook) :=
      (sameCount_checkInvalid m env).trans ⟨rfl, rfl⟩
    exact (hcall.trans (sameCount_doJob _ _)).trans (sameCount_forkService _ env)

theorem sameCount_serviceStopTimer (m : State pf) : SameCount m.service m.serviceStopTimer := by
  unfold State.serviceStopTimer
  split <;> exact ⟨rfl, rfl⟩

theorem sameCount_setTimer (m : State pf) (process : TimerProcess) (timeout : Nat)
    (env : TimerEnv) : SameCount m.service (m.setTimer process timeout env) := by
  unfold State.setTimer
  dsimp only
  generalize hm : (if m.isServiceWithTimerEnabled then m.serviceStopTimer else m) = m'
  have hs : SameCount m.service m' := by
    rw [← hm]
    split
    · exact sameCount_serviceStopTimer m
    · exact ⟨rfl, rfl⟩
  split
  · split <;> exact hs.trans ⟨rfl, rfl⟩
  · exact hs

theorem sameCount_restartService (m : State pf) (env : StartEnv) :
    SameCount m.service (m.restartService env) := by
  have hr : SameCount m.service m.execRestartCmd := by
    unfold State.execRestartCmd
    split <;> exact ⟨rfl, rfl⟩
  unfold State.restartService
  exact ((hr.trans (sameCount_doJob _ _)).trans (sameCount_serviceStart _ _ env)).trans ⟨rfl, rfl⟩

theorem sameCount_checkOndemandService (m : State pf) (env : ReapEnv) :
    SameCount m.service (m.checkOndemandService env) := by
  unfold State.checkOndemandService
  dsimp only
  split
  · split <;> exact ⟨rfl, rfl⟩
  · exact ⟨rfl, rfl⟩

/-- What one call of `ServiceReap` may do to the count. -/
def reapHistories (curTime : Timespec) : List (List CrashEvent) :=
  [[], [.reset], [.crash curTime], [.crash curTime, .reset]]

/-- The count after a history with the limits of the service. -/
def counted (m : State pf) (es : List CrashEvent) : Service pf.timers.Handle :=
  countAll pf m.service.crashTime m.service.crashCount m.service es

theorem reapCrashed_crashes (m : State pf) (tmp : Int) (env : ReapEnv) :
    ∃ es ∈ reapHistories env.curTime, SameCount (counted m es) (m.reapCrashed tmp env) := by
  have hcount : SameCount (counted m [.crash env.curTime]) (m.countCrash env.curTime) := ⟨rfl, rfl⟩
  unfold State.reapCrashed
  split
  · refine ⟨[.crash env.curTime], by simp [reapHistories], ?_⟩
    split
    · exact hcount.trans (sameCount_restartService _ _)
    · have hpanic : SameCount (counted m [.crash env.curTime])
          ((m.countCrash env.curTime).panicReboot tmp) := hcount.trans ⟨rfl, rfl⟩
      exact hpanic.trans (sameCount_restartService _ _)
  split
  · exact ⟨[], by simp [reapHistories], sameCount_restartService m env.start⟩
  split
  · exact ⟨[.crash env.curTime], by simp [reapHistories],
      hcount.trans (sameCount_restartService _ _)⟩
  · -- The crash that was answered with no is forgotten with those before it.
    refine ⟨[.crash env.curTime, .reset], by simp [reapHistories], ?_⟩
    have hreset : SameCount (counted m [.crash env.curTime, .reset])
        { m.countCrash env.curTime with
          service := { (m.countCrash env.curTime).service with crashCnt := 0 } } := ⟨rfl, rfl⟩
    exact hreset.trans (sameCount_setTimer _ _ _ _)

theorem reapDecide_crashes (m : State pf) (tmp : Int) (env : ReapEnv) :
    ∃ es ∈ reapHistories env.curTime, SameCount (counted m es) (m.reapDecide tmp env) := by
  unfold State.reapDecide
  split
  · exact ⟨[.reset], by simp [reapHistories], ⟨rfl, rfl⟩⟩
  split
  · exact ⟨[], by simp [reapHistories], ⟨rfl, rfl⟩⟩
  split
  · exact ⟨[], by simp [reapHistories], sameCount_setTimer m _ _ _⟩
  split
  · exact ⟨[], by simp [reapHistories], sameCount_checkOndemandService m env⟩
  · exact reapCrashed_crashes m tmp env

theorem countEvent_pid (pid : Int) (e : CrashEvent) :
    countEvent pf limit count { service with pid } e =
      { countEvent pf limit count service e with pid } := by
  cases e with
  | reset => rfl
  | crash curTime =>
    unfold countEvent State.calculateCrashTime
    dsimp only
    split_ifs <;> rfl

/-- The count does not depend on the process. -/
theorem countAll_pid (pid : Int) (es : List CrashEvent) :
    countAll pf limit count { service with pid } es =
      { countAll pf limit count service es with pid } := by
  induction es generalizing service with
  | nil => rfl
  | cons e es ih =>
    rw [countAll, List.foldl_cons, countEvent_pid]
    exact ih

/-- **`ServiceReap` counts the crash once, resets the count, does both or neither.** -/
theorem serviceReap_crashes (m : State pf) (env : ReapEnv) :
    ∃ es ∈ reapHistories env.curTime, SameCount (counted m es) (m.serviceReap env) := by
  have hpid : ∀ m' : State pf, m'.service = { m.service with pid := -1 } →
      ∃ es ∈ reapHistories env.curTime,
        SameCount (counted m es) (m'.reapDecide m.service.pid env) := by
    intro m' hm'
    obtain ⟨es, hes, hcount⟩ := reapDecide_crashes m' m.service.pid env
    refine ⟨es, hes, ?_⟩
    unfold counted at hcount
    rw [hm', countAll_pid] at hcount
    exact ⟨hcount.crashCnt, hcount.firstCrashTime⟩
  unfold State.serviceReap
  dsimp only
  split
  · exact ⟨[], by simp [reapHistories], ⟨rfl, rfl⟩⟩
  split
  · exact ⟨[], by simp [reapHistories], ⟨rfl, rfl⟩⟩
  · refine hpid _ ?_
    split <;> rfl

end InitService
