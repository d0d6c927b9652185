import OpenHarmonyMac.InitService.Stopping

/-!
# The timer of a service

A service has one handle for its start and restart timers and an attribute that says whether that
timer runs. Creating a timer and starting it may fail, each on its own.

* `State.TimersKept` — the attribute tells the truth, and the service knows every timer that exists
* `timers_kept_iff` — the runs that keep it
-/

namespace InitService

open Infra

variable {pf : Platform}

/-! ## The calls on a timer -/

inductive TimerEvent (pf : Platform)
  | serviceStartTimer (timeout : Nat) (env : TimerEnv)
  | serviceReStartTimer (timeout : Nat) (env : TimerEnv)
  | serviceStopTimer
  /-- The time of an armed timer is over, and its handler runs. -/
  | expire (timer : pf.timers.Handle) (env : StartEnv)

def State.handleTimer (m : State pf) : TimerEvent pf → State pf
  | .serviceStartTimer timeout env => m.serviceStartTimer timeout env
  | .serviceReStartTimer timeout env => m.serviceReStartTimer timeout env
  | .serviceStopTimer => m.serviceStopTimer
  | .expire timer env => m.handle (.timeout timer env)

def TimerEvent.Enabled (m : State pf) : TimerEvent pf → Prop
  | .expire timer _ => pf.timers.armed m.loop timer = true
  | _ => True

instance (m : State pf) : ∀ e : TimerEvent pf, Decidable (e.Enabled m)
  | .serviceStartTimer _ _ => inferInstanceAs (Decidable True)
  | .serviceReStartTimer _ _ => inferInstanceAs (Decidable True)
  | .serviceStopTimer => inferInstanceAs (Decidable True)
  | .expire timer _ => inferInstanceAs (Decidable (pf.timers.armed _ timer = true))

/-- One service with the loop of its timers, none of which exists at first. -/
def timerSystem (pf : Platform) : System (State pf) (TimerEvent pf) where
  init m := m.service.timer = none ∧ m.service.attr.timerEnabled = false ∧
    ∀ h, ¬ pf.timers.Exists m.loop h
  enabled m e := e.Enabled m
  step := State.handleTimer

instance (m : State pf) (e : TimerEvent pf) : Decidable ((timerSystem pf).enabled m e) :=
  inferInstanceAs (Decidable (e.Enabled m))

/-! ## What is kept -/

/-- The attribute is set just in case the service holds the handle of an armed timer. There is at
most one timer, and the service holds the handle of each timer that exists. -/
structure State.TimersKept (m : State pf) : Prop where
  enabled_iff : m.service.attr.timerEnabled = true ↔
    ∃ h, m.service.timer = some h ∧ pf.timers.armed m.loop h = true
  atMostOne : ∀ h h', pf.timers.Exists m.loop h → pf.timers.Exists m.loop h' → h = h'
  held : ∀ h, pf.timers.Exists m.loop h → m.service.timer = some h

/-- A timer that is not running is still in the service: an earlier one that did not start. -/
def State.HoldsIdleTimer (m : State pf) : Prop :=
  m.service.attr.timerEnabled = false ∧ m.service.timer ≠ none

instance (m : State pf) : Decidable m.HoldsIdleTimer := inferInstanceAs (Decidable (_ ∧ ¬ _))

/-- The event makes a timer, where `LE_CreateTimer` does. -/
def TimerEvent.Creates : TimerEvent pf → Prop
  | .serviceStartTimer _ env | .serviceReStartTimer _ env => env.createTimer = true
  | _ => False

/-- No timer is made while an idle one is in the service. -/
def TimerEvent.Spares (m : State pf) (e : TimerEvent pf) : Prop :=
  e.Creates → ¬ m.HoldsIdleTimer

namespace State

variable {m m' : State pf}

/-- What every sequence of calls keeps, whatever fails: the armed timer is the one that the service
knows, and its handle is never one of a timer that is gone. -/
structure TimerHeld (m : State pf) : Prop where
  inSync : TimerInSync m
  held : ∀ h, m.service.timer = some h → pf.timers.Exists m.loop h

theorem TimerInSync.enabled_iff (h : TimerInSync m) : m.service.attr.timerEnabled = true ↔
    ∃ t, m.service.timer = some t ∧ pf.timers.armed m.loop t = true := by
  constructor
  · intro he
    obtain ⟨t, ht⟩ := h.held he
    exact ⟨t, ht, (h.armed_iff t).mpr ⟨he, ht⟩⟩
  · rintro ⟨t, -, ha⟩
    exact ((h.armed_iff t).mp ha).1

/-- What remains of `TimersKept` is that the service knows the timers. -/
theorem TimerHeld.timersKept_iff (h : TimerHeld m) :
    TimersKept m ↔ ∀ t, pf.timers.Exists m.loop t → m.service.timer = some t := by
  constructor
  · exact fun hk => hk.held
  · intro hk
    refine ⟨h.inSync.enabled_iff, ?_, hk⟩
    intro t t' ht ht'
    exact Option.some.inj ((hk t ht).symm.trans (hk t' ht'))

/-! ## Stopping -/

/-- After `ServiceStopTimer` of a running timer the service holds none. -/
theorem serviceStopTimer_timer (he : m.service.attr.timerEnabled = true) :
    m.serviceStopTimer.service.timer = none := by
  unfold serviceStopTimer isServiceWithTimerEnabled
  rw [if_pos he]

theorem serviceStopTimer_of_disabled (he : m.service.attr.timerEnabled = false) :
    m.serviceStopTimer = m := by
  unfold serviceStopTimer isServiceWithTimerEnabled
  rw [if_neg (by simp [he])]

theorem serviceStopTimer_loop {timer : pf.timers.Handle}
    (he : m.service.attr.timerEnabled = true) (ht : m.service.timer = some timer) :
    m.serviceStopTimer.loop = pf.timers.stop m.loop timer := by
  unfold serviceStopTimer isServiceWithTimerEnabled
  rw [if_pos he, ht]

theorem TimerHeld.serviceStopTimer (h : TimerHeld m) : TimerHeld m.serviceStopTimer := by
  cases he : m.service.attr.timerEnabled with
  | false =>
    rw [serviceStopTimer_of_disabled he]
    exact h
  | true =>
    refine ⟨h.inSync.serviceStopTimer, ?_⟩
    intro t ht
    rw [serviceStopTimer_timer he] at ht
    cases ht

/-- The timers that remain are those that the service does not know. -/
theorem TimerHeld.exists_serviceStopTimer (hf : pf.timers.Framed) (h : TimerHeld m)
    (he : m.service.attr.timerEnabled = true) {t : pf.timers.Handle} :
    pf.timers.Exists m.serviceStopTimer.loop t ↔
      pf.timers.Exists m.loop t ∧ m.service.timer ≠ some t := by
  obtain ⟨timer, ht⟩ := h.inSync.held he
  rw [serviceStopTimer_loop he ht, hf.exists_stop_iff, ht, and_comm]
  simp [eq_comm]

theorem TimersKept.serviceStopTimer (hf : pf.timers.Framed) (h : TimerHeld m) (hk : TimersKept m) :
    TimersKept m.serviceStopTimer := by
  cases he : m.service.attr.timerEnabled with
  | false =>
    rw [serviceStopTimer_of_disabled he]
    exact hk
  | true =>
    rw [h.serviceStopTimer.timersKept_iff]
    intro t ht
    rw [h.exists_serviceStopTimer hf he] at ht
    exact absurd (hk.held t ht.1) ht.2

/-! ## Starting -/

/-- The timer is stopped first, if it runs. -/
theorem setTimer_eq (process : TimerProcess) (timeout : Nat) (env : TimerEnv) :
    m.setTimer process timeout env = m.serviceStopTimer.setTimer process timeout env := by
  cases he : m.service.attr.timerEnabled with
  | false => rw [serviceStopTimer_of_disabled he]
  | true => simp [setTimer, isServiceWithTimerEnabled, he]

/-- When no timer is made, nothing else happens. -/
theorem setTimer_of_not_created (he : m.service.attr.timerEnabled = false) {env : TimerEnv}
    (hc : env.createTimer = false) (process : TimerProcess) (timeout : Nat) :
    m.setTimer process timeout env = m := by
  simp [setTimer, isServiceWithTimerEnabled, he, hc]

/-- When a timer is made, the service gets its handle, and there is one timer more. -/
theorem setTimer_of_created (hf : pf.timers.Framed) (he : m.service.attr.timerEnabled = false)
    {env : TimerEnv} (hc : env.createTimer = true) (process : TimerProcess) (timeout : Nat) :
    (m.setTimer process timeout env).service.timer = some (pf.timers.create m.loop process).2 ∧
      ∀ t, pf.timers.Exists (m.setTimer process timeout env).loop t ↔
        t = (pf.timers.create m.loop process).2 ∨ pf.timers.Exists m.loop t := by
  simp only [setTimer, isServiceWithTimerEnabled, he, hc, Bool.false_eq_true, if_false, if_true]
  split
  · refine ⟨rfl, fun t => ?_⟩
    rw [hf.start, hf.exists_create_iff]
  · exact ⟨rfl, fun t => hf.exists_create_iff process⟩

theorem TimerHeld.setTimer (hf : pf.timers.Framed) (h : TimerHeld m) (process : TimerProcess)
    (timeout : Nat) (env : TimerEnv) : TimerHeld (m.setTimer process timeout env) := by
  refine ⟨setTimer_inSync h.inSync process timeout env, ?_⟩
  rw [setTimer_eq]
  have hstop := h.serviceStopTimer
  have he : m.serviceStopTimer.service.attr.timerEnabled = false := serviceStopTimer_timerEnabled
  intro t ht
  cases hc : env.createTimer with
  | false =>
    rw [setTimer_of_not_created he hc] at ht ⊢
    exact hstop.held t ht
  | true =>
    obtain ⟨hnew, hex⟩ := setTimer_of_created hf he hc process timeout
    exact (hex t).mpr (.inl (Option.some.inj (ht.symm.trans hnew)))

/-- **A start keeps the books just in case no timer of the service is idle**, or none is made. -/
theorem TimerHeld.timersKept_setTimer_iff (hf : pf.timers.Framed) (h : TimerHeld m)
    (hk : TimersKept m) (process : TimerProcess) (timeout : Nat) (env : TimerEnv) :
    TimersKept (m.setTimer process timeout env) ↔ (env.createTimer = true → ¬ m.HoldsIdleTimer) := by
  rw [(h.setTimer hf process timeout env).timersKept_iff, setTimer_eq]
  have hks := hk.serviceStopTimer hf h
  have he : m.serviceStopTimer.service.attr.timerEnabled = false := serviceStopTimer_timerEnabled
  cases hc : env.createTimer with
  | false =>
    rw [setTimer_of_not_created he hc]
    simpa using hks.held
  | true =>
    obtain ⟨hnew, hex⟩ := setTimer_of_created hf he hc process timeout
    rw [hnew]
    simp only [forall_const]
    -- The handle in the service is the new one, so every older timer is forgotten.
    have hold : m.serviceStopTimer.service.timer = none ↔ ¬ m.HoldsIdleTimer := by
      unfold HoldsIdleTimer
      cases hm : m.service.attr.timerEnabled with
      | false => simp [serviceStopTimer_of_disabled hm]
      | true => simp [serviceStopTimer_timer hm]
    rw [← hold]
    constructor
    · intro hall
      by_contra hne
      obtain ⟨t, ht⟩ := Option.ne_none_iff_exists'.mp hne
      have hext := h.serviceStopTimer.held t ht
      have heq := Option.some.inj (hall t ((hex t).mpr (.inr hext)))
      exact hf.create_fresh m.serviceStopTimer.loop process (heq ▸ hext)
    · intro hnone t ht
      rcases (hex t).mp ht with rfl | hext
      · rfl
      · have := hks.held t hext
        rw [hnone] at this
        cases this

/-! ## Expiring -/

/-- The handler of the armed timer stops it, and no other exists when the books are right. -/
theorem TimerHeld.expire (hf : pf.timers.Framed) (h : TimerHeld m) {timer : pf.timers.Handle}
    (ha : pf.timers.armed m.loop timer = true) (env : StartEnv) :
    TimerHeld (m.handle (.timeout timer env)) ∧
      (TimersKept m → TimersKept (m.handle (.timeout timer env))) := by
  obtain ⟨process, hp⟩ := Option.isSome_iff_exists.mp (pf.timers.handler_of_armed _ _ ha)
  obtain ⟨henabled, htimer⟩ := (h.inSync.armed_iff timer).mp ha
  obtain ⟨m', hs, -, -, he⟩ :=
    runTimer_eq { m with loop := pf.timers.expire m.loop timer } process env
  have hsync := h.inSync.timeout ha env
  rw [handle, hp, he] at hsync ⊢
  have hsame := hs.trans (sameTimer_serviceStart m' (some m'.service.pathArgs) env)
  -- The handler begins with `ServiceStopTimer`, and nothing behind it touches a timer.
  have hnone := hsame.timer.trans (serviceStopTimer_timer henabled)
  have hheld : TimerHeld (m'.serviceStart (some m'.service.pathArgs) env).1 := by
    refine ⟨hsync, fun t ht => ?_⟩
    rw [hnone] at ht
    cases ht
  refine ⟨hheld, fun hk => ?_⟩
  have hloop : { m with loop := pf.timers.expire m.loop timer }.serviceStopTimer.loop =
      pf.timers.stop (pf.timers.expire m.loop timer) timer :=
    serviceStopTimer_loop henabled htimer
  rw [hheld.timersKept_iff, hsame.loop, hloop]
  intro t ht
  rw [hf.exists_stop_iff, and_congr_right_iff.mpr (hf.expire_ne _ _ _)] at ht
  have hknown := (hk.held t ht.2).symm.trans htimer
  exact absurd (Option.some.inj hknown) ht.1

/-! ## Runs -/

theorem TimerHeld.handleTimer (hf : pf.timers.Framed) (h : TimerHeld m) (e : TimerEvent pf)
    (he : e.Enabled m) : TimerHeld (m.handleTimer e) := by
  cases e with
  | serviceStartTimer timeout env => exact h.setTimer hf _ timeout env
  | serviceReStartTimer timeout env => exact h.setTimer hf _ timeout env
  | serviceStopTimer => exact h.serviceStopTimer
  | expire timer env => exact (h.expire hf he env).1

/-- A step keeps the books just in case it makes no timer while an idle one is in the service. -/
theorem TimerHeld.timersKept_handleTimer_iff (hf : pf.timers.Framed) (h : TimerHeld m)
    (hk : TimersKept m) (e : TimerEvent pf) (he : e.Enabled m) :
    TimersKept (m.handleTimer e) ↔ e.Spares m := by
  cases e with
  | serviceStartTimer timeout env => exact h.timersKept_setTimer_iff hf hk _ timeout env
  | serviceReStartTimer timeout env => exact h.timersKept_setTimer_iff hf hk _ timeout env
  | serviceStopTimer => exact iff_of_true (hk.serviceStopTimer hf h) (fun hc => hc.elim)
  | expire timer env => exact iff_of_true ((h.expire hf he env).2 hk) (fun hc => hc.elim)

theorem timerHeld_of_init (hinit : (timerSystem pf).init m) : TimerHeld m := by
  obtain ⟨htimer, henabled, hnone⟩ := hinit
  refine ⟨.of_noTimer (fun t => ?_) henabled, fun t ht => ?_⟩
  · by_contra ha
    exact hnone t (pf.timers.exists_of_armed (Bool.not_eq_false _ ▸ ha))
  · rw [htimer] at ht
    cases ht

theorem timersKept_of_init (hinit : (timerSystem pf).init m) : TimersKept m :=
  (timerHeld_of_init hinit).timersKept_iff.mpr fun t ht => absurd ht (hinit.2.2 t)

end State

/-- **The timers of a service are kept just in case every start that makes a timer finds no idle one
in the service.** -/
theorem timers_kept_iff (hf : pf.timers.Framed) {m m' : State pf} {es : List (TimerEvent pf)}
    (hinit : (timerSystem pf).init m) (hrun : (timerSystem pf).Run m es m') :
    (timerSystem pf).Throughout State.TimersKept m es ↔
      ((timerSystem pf).restrict fun m e => e.Spares m).Run m es m' :=
  hrun.throughout_iff_of_invariant (fun _ e h he => h.handleTimer hf e he)
    (fun _ e h hk he => h.timersKept_handleTimer_iff hf hk e he)
    (State.timerHeld_of_init hinit) (State.timersKept_of_init hinit)

/-! ## A timer that does not start -/

/-- A timer is made and not started, and the next start makes another. -/
def failedStart : List (TimerEvent samplePlatform) :=
  [.serviceStartTimer 1000 { startTimer := false }, .serviceStartTimer 1000 {}]

theorem sampleService_init : (timerSystem samplePlatform).init sampleService := by
  refine ⟨rfl, rfl, fun h hex => ?_⟩
  cases hex

/-- After a start, a restart and the expiry of its timer the books are right. -/
theorem timers_kept_iff_run : (timerSystem samplePlatform).Throughout State.TimersKept sampleService
    [.serviceStartTimer 1000 {}, .serviceReStartTimer 1000 {}, .expire (1 : Nat) {}] := by
  refine (timers_kept_iff (TimerLoop.slots_framed _) sampleService_init
    (System.Run.of_enabledAll (by decide +kernel))).mpr ?_
  refine .cons ⟨trivial, fun _ => by decide⟩ (.cons ⟨trivial, fun _ => by decide⟩ (.cons ?_ (.nil _)))
  exact ⟨by decide, fun hc => hc.elim⟩

/-- **The timer that did not start is forgotten** when another one is made. -/
theorem timer_forgotten : ∃ m : State samplePlatform,
    (timerSystem samplePlatform).Run sampleService failedStart m ∧ ¬ m.TimersKept := by
  refine ⟨_, System.Run.of_enabledAll (by decide +kernel), fun hk => ?_⟩
  -- The service holds the second timer, and the first one exists too.
  have hheld := hk.held (0 : Nat) rfl
  exact absurd (Option.some.inj hheld) (by decide : ¬ (1 : Nat) = 0)

end InitService
