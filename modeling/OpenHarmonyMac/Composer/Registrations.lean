import OpenHarmonyMac.Composer.Callbacks

/-!
# The six registrations

Each of six operations gives the service a callback and the VDI a handler, which calls what the
service has stored when an event comes. Only the handler of a vblank is given the callback itself.

* `Registration` — the operations, `Notice` — the events
* `effective_iff` — failed registrations have no effect, and events go to the callback of the last
  successful one, just in case no operation that stores its callback first is refused a new one
* `refused_hotPlug_replaces` — a hot plug callback that the VDI refuses replaces the stored one
-/

namespace Composer

open Infra

variable {p : Platform} {s : DisplayComposerService}

/-! ## The handlers -/

namespace DisplayComposerService

variable (s : DisplayComposerService)

/-- A handler that only calls what the service has stored. -/
def callStored (cb : Option Callback) : Outcome := .ok ({ called := cb }, s)

def onSeamlessChange : Outcome := s.callStored s.seamlessChangeCb

def onMode : Outcome := s.callStored s.modeCb

def onRefresh : Outcome := s.callStored s.refreshCb

def onVBlankIdleCallback : Outcome := s.callStored s.vBlankIdleCb

/-- The function was found in the library. -/
def HasLoaded (f : VdiFn) : Prop := ∃ a ∈ s.vdiAdapter, a f = .loaded

end DisplayComposerService

/-- An event of the VDI: the call of one of the handlers that it was given. -/
inductive Notice
  | onHotPlug (outputId : DevId) (connected : Bool) (ret : Code)
  | onVBlank (devId : DevId)
  | onSeamlessChange
  | onMode
  | onRefresh
  | onVBlankIdleCallback
  deriving DecidableEq, Repr

namespace Notice

/-- The handler of an event. -/
def serve (s : DisplayComposerService) : Notice → Outcome
  | .onHotPlug outputId connected ret => s.onHotPlug outputId connected ret
  | .onVBlank devId => s.onVBlank devId
  | .onSeamlessChange => s.onSeamlessChange
  | .onMode => s.onMode
  | .onRefresh => s.onRefresh
  | .onVBlankIdleCallback => s.onVBlankIdleCallback

/-- The callback that an event goes to. -/
def called (n : Notice) (s : DisplayComposerService) : Option Callback :=
  match n.serve s with
  | .ok (reply, _) => reply.called
  | .error _ => none

end Notice

/-! ## The operations -/

/-- A registration, with what the VDI answers. -/
inductive Registration
  | regHotPlugCallback (cb : Option Callback) (ret : Code)
  | regDisplayVBlankCallback (devId : DevId) (cb : Option Callback) (ret : Code)
  | regSeamlessChangeCallback (cb : Option Callback) (ret : Code)
  | setDisplayModeAsync (cb : Option Callback) (ret : Code)
  | regRefreshCallback (cb : Option Callback) (ret : Code)
  | regDisplayVBlankIdleCallback (cb : Option Callback) (ret : Code)
  deriving DecidableEq, Repr

namespace Registration

/-- The operation of the service. -/
def event : Registration → Event
  | .regHotPlugCallback cb ret => .regHotPlugCallback cb ret
  | .regDisplayVBlankCallback devId cb ret => .regDisplayVBlankCallback devId cb ret
  | .regSeamlessChangeCallback cb ret => .regSeamlessChangeCallback cb ret
  | .setDisplayModeAsync cb ret => .setDisplayModeAsync cb ret
  | .regRefreshCallback cb ret => .regRefreshCallback cb ret
  | .regDisplayVBlankIdleCallback cb ret => .regDisplayVBlankIdleCallback cb ret

/-- The function of the VDI that it calls. -/
def function : Registration → VdiFn
  | .regHotPlugCallback .. => .regHotPlugCallback
  | .regDisplayVBlankCallback .. => .regDisplayVBlankCallback
  | .regSeamlessChangeCallback .. => .regSeamlessChangeCallback
  | .setDisplayModeAsync .. => .setDisplayModeAsync
  | .regRefreshCallback .. => .regRefreshCallback
  | .regDisplayVBlankIdleCallback .. => .regDisplayVBlankIdleCallback

/-- The callback that the client gives. -/
def given : Registration → Option Callback
  | .regHotPlugCallback cb _ | .regDisplayVBlankCallback _ cb _ | .regSeamlessChangeCallback cb _
  | .setDisplayModeAsync cb _ | .regRefreshCallback cb _ | .regDisplayVBlankIdleCallback cb _ => cb

/-- What the VDI answers, if it is called. -/
def answer : Registration → Code
  | .regHotPlugCallback _ ret | .regDisplayVBlankCallback _ _ ret
  | .regSeamlessChangeCallback _ ret | .setDisplayModeAsync _ ret | .regRefreshCallback _ ret
  | .regDisplayVBlankIdleCallback _ ret => ret

/-- The member of the service that keeps the callbacks of this kind. -/
def stored (s : DisplayComposerService) : Registration → Option Callback
  | .regHotPlugCallback .. => s.hotPlugCb
  | .regDisplayVBlankCallback .. => s.vBlankCb
  | .regSeamlessChangeCallback .. => s.seamlessChangeCb
  | .setDisplayModeAsync .. => s.modeCb
  | .regRefreshCallback .. => s.refreshCb
  | .regDisplayVBlankIdleCallback .. => s.vBlankIdleCb

/-- The events that a registration is for. A vblank callback is for one device. -/
def concerns : Registration → Notice → Bool
  | .regHotPlugCallback .., .onHotPlug .. => true
  | .regDisplayVBlankCallback devId _ _, .onVBlank devId' => devId = devId'
  | .regSeamlessChangeCallback .., .onSeamlessChange => true
  | .setDisplayModeAsync .., .onMode => true
  | .regRefreshCallback .., .onRefresh => true
  | .regDisplayVBlankIdleCallback .., .onVBlankIdleCallback => true
  | _, _ => false

/-- The operations that store the callback before they call the VDI. -/
def storesFirst : Registration → Bool
  | .regHotPlugCallback .. | .regDisplayVBlankIdleCallback .. => true
  | _ => false

/-- The callback is stored, and that of a vblank is given to the VDI. -/
def store (s : DisplayComposerService) : Registration → DisplayComposerService
  | .regHotPlugCallback cb _ => { s with hotPlugCb := cb }
  | .regDisplayVBlankCallback devId cb _ => s.vBlankRegistered devId cb
  | .regSeamlessChangeCallback cb _ => { s with seamlessChangeCb := cb }
  | .setDisplayModeAsync cb _ => { s with modeCb := cb }
  | .regRefreshCallback cb _ => { s with refreshCb := cb }
  | .regDisplayVBlankIdleCallback cb _ => { s with vBlankIdleCb := cb }

/-- The operation comes to its call of the VDI. -/
def Calls (r : Registration) (s : DisplayComposerService) : Prop := s.HasLoaded r.function

/-- The operation returns success. -/
def succeeds (p : Platform) (s : DisplayComposerService) (r : Registration) : Bool :=
  match r.event.serve p s with
  | .ok (reply, _) => reply.code = .success
  | .error _ => false

end Registration

/-- The service under registrations alone. -/
def registrations (p : Platform) : System DisplayComposerService Registration where
  init := (service p).init
  enabled _ _ := True
  step s r := s.step p r.event

/-! ## What a registration does -/

namespace Registration

/-- The law of one registration: one that returns anything but success leaves the stored callback,
and one that succeeds is where the events go then. -/
def Heeded (p : Platform) (s : DisplayComposerService) (r : Registration) : Prop :=
  ∀ reply t, r.event.serve p s = .ok (reply, t) →
    (reply.code ≠ .success → r.stored t = r.stored s) ∧
      (reply.code = .success → ∀ n, r.concerns n → n.called t = r.given)

/-- The callback that the last successful registration of a run gave for the event `n`. Before the
first one it is `cb`. -/
def lastGiven (p : Platform) (n : Notice) :
    DisplayComposerService → List Registration → Option Callback → Option Callback
  | _, [], cb => cb
  | s, r :: rs, cb =>
    lastGiven p n (s.step p r.event) rs (if r.succeeds p s && r.concerns n then r.given else cb)

/-- Every registration of the run is heeded, and at its end each event goes to the callback of the
last successful registration. -/
def Effective (p : Platform) (s : DisplayComposerService) (rs : List Registration)
    (t : DisplayComposerService) : Prop :=
  (registrations p).EachStep (Heeded p) s rs ∧ ∀ n, n.called t = lastGiven p n s rs (n.called s)

/-- Where the callback is stored before a call that fails, it is the one stored already. -/
def StoresNothingNew (s : DisplayComposerService) (r : Registration) : Prop :=
  r.storesFirst → r.Calls s → r.answer ≠ .success → r.given = r.stored s

end Registration

/-! ## How an operation ends -/

namespace DisplayComposerService

/-- The ends of an operation that calls `f`: it returns before the call, or calls nothing and is
stopped, or returns what the VDI answers. -/
inductive Ends (s : DisplayComposerService) (f : VdiFn) (ret : Code)
    (next : DisplayComposerService) : Outcome → Prop
  | early (reply : Reply) : reply.code ≠ .success → ¬ s.HasLoaded f →
    Ends s f ret next (.ok (reply, s))
  | stopped : ¬ s.HasLoaded f → Ends s f ret next (.error f)
  | answered (reply : Reply) : s.HasLoaded f → (reply.code = .success ↔ ret = .success) →
    Ends s f ret next (.ok (reply, next))

variable {f : VdiFn} {ret : Code} {next : DisplayComposerService}

theorem chkSuccess_eq_success : chkSuccess ret = .success ↔ ret = .success := by
  unfold chkSuccess
  split <;> simp_all

theorem chkSupported_eq_success : chkSupported ret = .success ↔ ret = .success := by
  unfold chkSupported
  split <;> simp_all

theorem chkNotSupport_eq_success : chkNotSupport ret = .success ↔ ret = .success := by
  unfold chkNotSupport
  split
  · next h => simp [h]
  · exact chkSupported_eq_success

theorem hasLoaded_iff {a : VdiAdapter} (ha : s.vdiAdapter = some a) :
    s.HasLoaded f ↔ a f = .loaded := by
  constructor
  · rintro ⟨a', ha', hf⟩
    cases ha.symm.trans ha'
    exact hf
  · exact fun hf => ⟨a, ha, hf⟩

theorem not_hasLoaded (hnone : s.vdiAdapter = none) : ¬ s.HasLoaded f := by
  rintro ⟨a, ha, -⟩
  cases hnone.symm.trans ha

theorem ends_callVdi {a : VdiAdapter} {reply : Reply} (ha : s.vdiAdapter = some a)
    (hcode : reply.code = .success ↔ ret = .success) :
    Ends s f ret next (callVdi a f (.ok (reply, next))) := by
  unfold callVdi
  split
  · next hf => exact .answered reply ((hasLoaded_iff ha).mpr hf) hcode
  · next hf => exact .stopped fun h => hf ((hasLoaded_iff ha).mp h)

theorem ends_withAdapter {k : VdiAdapter → Outcome}
    (hk : ∀ a, s.vdiAdapter = some a → Ends s f ret next (k a)) :
    Ends s f ret next (s.withAdapter k) := by
  unfold withAdapter
  split
  · next hnone => exact .early _ (by simp) (not_hasLoaded hnone)
  · next a ha => exact hk a ha

theorem ends_mandatoryOp {chk : Code → Code} (hchk : chk ret = .success ↔ ret = .success) :
    Ends s f ret next (s.mandatoryOp f chk ret next) :=
  ends_withAdapter fun _ ha => ends_callVdi ha hchk

theorem ends_optionalOp {chk : Code → Code} (hchk : chk ret = .success ↔ ret = .success) :
    Ends s f ret next (s.optionalOp p f chk ret next) := by
  refine ends_withAdapter fun a ha => ?_
  split
  · next hnull =>
    refine .early _ (by simp) fun h => ?_
    simp [VdiAdapter.isNull, (hasLoaded_iff ha).mp h] at hnull
  · exact ends_callVdi ha hchk

end DisplayComposerService

namespace Registration

open DisplayComposerService

variable {r : Registration} {n : Notice}

/-- The state in which an operation returns what the VDI answers. -/
def next (s : DisplayComposerService) (r : Registration) : DisplayComposerService :=
  if r.storesFirst then r.store s else if r.answer = .success then r.store s else s

/-- **A registration returns early, is stopped, or returns what the VDI answers.** -/
theorem ends_serve (p : Platform) (s : DisplayComposerService) (r : Registration) :
    Ends s r.function r.answer (r.next s) (r.event.serve p s) := by
  cases r with
  | regHotPlugCallback | regDisplayVBlankCallback => exact ends_mandatoryOp chkSuccess_eq_success
  | regSeamlessChangeCallback | setDisplayModeAsync | regRefreshCallback =>
    exact ends_optionalOp chkNotSupport_eq_success
  | regDisplayVBlankIdleCallback => exact ends_optionalOp chkSupported_eq_success

/-! ### The state after a registration -/

theorem next_of_success (h : r.answer = .success) : r.next s = r.store s := by
  unfold next
  rw [if_pos h, ite_self]

theorem stored_store (s : DisplayComposerService) (r : Registration) :
    r.stored (r.store s) = r.given := by
  cases r <;> rfl

/-- What is stored first and is the same changes nothing. -/
theorem store_eq_self (hfirst : r.storesFirst) (h : r.given = r.stored s) : r.store s = s := by
  cases r with
  | regHotPlugCallback cb ret =>
    have hcb : cb = s.hotPlugCb := h
    subst hcb
    rfl
  | regDisplayVBlankIdleCallback cb ret =>
    have hcb : cb = s.vBlankIdleCb := h
    subst hcb
    rfl
  | _ => cases hfirst

/-- A refused registration that stores nothing new changes nothing. -/
theorem StoresNothingNew.next (h : r.StoresNothingNew s) (hcalls : r.Calls s)
    (hans : r.answer ≠ .success) : r.next s = s := by
  unfold Registration.next
  rw [if_neg hans]
  by_cases hfirst : r.storesFirst
  · rw [if_pos hfirst]
    exact store_eq_self hfirst (h hfirst hcalls hans)
  · exact if_neg hfirst

/-! ### Where the events go -/

theorem called_onHotPlug {outputId : DevId} {connected : Bool} {ret : Code}
    (h : s.cacheMgr.isSome) :
    (Notice.onHotPlug outputId connected ret).called s = s.hotPlugCb := by
  obtain ⟨caches, hcaches⟩ := Option.isSome_iff_exists.mp h
  simp [Notice.called, Notice.serve, onHotPlug, hcaches]

/-- **A stored callback is called by the events that it concerns, and by no other.** -/
theorem called_store (h : s.cacheMgr.isSome) (r : Registration) (n : Notice) :
    n.called (r.store s) = if r.concerns n then r.given else n.called s := by
  cases n with
  | onHotPlug outputId connected ret =>
    have hstore : (r.store s).cacheMgr.isSome := by cases r <;> exact h
    rw [called_onHotPlug h, called_onHotPlug hstore]
    cases r <;> rfl
  | onVBlank devId =>
    cases r with
    | regDisplayVBlankCallback devId' cb ret =>
      show Function.update s.registered devId' cb devId = _
      rw [Function.update_apply]
      simp [concerns, given, Notice.called, Notice.serve, onVBlank, eq_comm]
    | _ => rfl
  | _ => cases r <;> rfl

/-! ### The step -/

/-- Where a function is loaded, the constructor has come to its end, and the caches are there. -/
def CachesReady (s : DisplayComposerService) : Prop :=
  ∀ f, s.HasLoaded f → s.cacheMgr.isSome

/-- **A registration is heeded just in case it stores nothing new before a call that fails.** -/
theorem heeded_iff (hs : CachesReady s) : r.Heeded p s ↔ r.StoresNothingNew s := by
  have hends := ends_serve p s r
  unfold Heeded
  generalize r.event.serve p s = o at hends
  cases hends with
  | early reply hcode hcalls =>
    refine iff_of_true ?_ fun _ h => absurd h hcalls
    rintro reply' t ⟨⟩
    exact ⟨fun _ => rfl, fun h => absurd h hcode⟩
  | stopped hcalls =>
    refine iff_of_true ?_ fun _ h => absurd h hcalls
    rintro reply t ⟨⟩
  | answered reply hcalls hcode =>
    constructor
    · intro h hfirst _ hans
      have hkept : r.stored (r.next s) = r.stored s := (h _ _ rfl).1 (mt hcode.mp hans)
      rw [← hkept, Registration.next, if_pos hfirst, stored_store]
    · rintro h reply' t ⟨⟩
      constructor
      · intro hfail
        rw [h.next hcalls (mt hcode.mpr hfail)]
      · intro hsuccess n hn
        rw [next_of_success (hcode.mp hsuccess), called_store (hs _ hcalls), if_pos hn]

/-- Only a successful registration changes where its events go. -/
theorem called_step (hs : CachesReady s) (h : r.StoresNothingNew s) (n : Notice) :
    n.called (s.step p r.event) =
      if r.succeeds p s && r.concerns n then r.given else n.called s := by
  have hends := ends_serve p s r
  unfold DisplayComposerService.step succeeds
  generalize r.event.serve p s = o at hends ⊢
  cases hends with
  | early reply hcode hcalls => simp [hcode]
  | stopped hcalls => simp
  | answered reply hcalls hcode =>
    by_cases hans : r.answer = .success
    · simp [next_of_success hans, called_store (hs _ hcalls), hcode.mpr hans]
    · simp [h.next hcalls hans, mt hcode.mp hans]

theorem cachesReady_step (hs : CachesReady s) (r : Registration) :
    CachesReady (s.step p r.event) := by
  rcases step_cases p s r.event with h | h
  · rw [h]
    exact hs
  · rw [h]
    cases r <;> exact hs

/-! ### The constructor -/

theorem cachesReady_exitService (s : DisplayComposerService) : CachesReady s.exitService :=
  fun _ h => absurd h (not_hasLoaded rfl)

/-- A responser is only created where there are caches. -/
theorem cachesReady_createResponser {o : Construction} (h : (s.createResponser o).1 = .success) :
    CachesReady (s.createResponser o).2 := by
  intro f _
  revert h
  unfold createResponser
  dsimp only
  split
  · intro h
    cases h
  · next hcaches =>
    split
    · intro h
      cases h
    · split
      · intro _
        simpa [Option.isSome_iff_ne_none] using hcaches
      · intro h
        cases h

theorem cachesReady_construct (p : Platform) (o : Construction) : CachesReady (construct p o) := by
  unfold construct
  generalize hs₀ : ({ vdiAdapter := if o.adapterAllocated then some fun _ => .unset else none } :
    DisplayComposerService) = s₀
  have hunset : ∀ a ∈ s₀.vdiAdapter, a = fun _ => .unset := by
    subst hs₀
    intro a ha
    split at ha
    · exact (Option.some.inj ha).symm
    · cases ha
  dsimp only
  split
  · -- No function is loaded where no library was opened.
    rintro f ⟨a, ha, hf⟩
    rw [hunset a ha] at hf
    cases hf
  · split
    · exact cachesReady_exitService _
    · split
      · exact cachesReady_exitService _
      · next h => exact cachesReady_createResponser (not_not.mp h)

/-! ### The runs -/

variable {rs : List Registration} {t : DisplayComposerService}

/-- Registrations are events of the service. -/
theorem run_service (hr : (registrations p).Run s rs t) :
    (service p).Run s (rs.map event) t := by
  induction hr with
  | nil s => exact .nil s
  | @cons s r rs t _ _ ih =>
    refine .cons ?_ ih
    -- The responser has no part in a registration.
    cases r <;> exact fun f hf => absurd hf List.not_mem_nil

theorem called_run (hs : CachesReady s) (hr : (registrations p).Run s rs t)
    (h : (registrations p).EachStep (fun s r => r.StoresNothingNew s) s rs) (n : Notice) :
    n.called t = lastGiven p n s rs (n.called s) := by
  induction hr with
  | nil => rfl
  | cons _ _ ih =>
    rw [ih (cachesReady_step hs _) h.2, lastGiven]
    exact congrArg _ (called_step hs h.1 n)

/-- **Failed registrations have no effect in a run, and the events go to the callback of the last
successful one, just in case no registration of the run stores a new callback before a call that
fails.** -/
theorem effective_iff (hi : (registrations p).init s) (hr : (registrations p).Run s rs t) :
    Effective p s rs t ↔
      (registrations p).EachStep (fun s r => r.StoresNothingNew s) s rs := by
  obtain ⟨o, rfl⟩ := hi
  have hlaw : (registrations p).EachStep (Heeded p) (construct p o) rs ↔
      (registrations p).EachStep (fun s r => r.StoresNothingNew s) (construct p o) rs :=
    hr.eachStep_congr (fun s r hs _ => ⟨cachesReady_step hs r, heeded_iff hs⟩)
      (cachesReady_construct p o)
  constructor
  · exact fun h => hlaw.mp h.1
  · exact fun h => ⟨hlaw.mpr h, called_run (cachesReady_construct p o) hr h⟩

/-! ### A refused hot plug callback -/

/-- The service after these registrations. -/
def sampleRun (rs : List Registration) : DisplayComposerService :=
  rs.foldl (registrations samplePlatform).step sampleService

/-- The hot plug callback that is refused is the one that is stored already. -/
def nothingNewRun : List Registration :=
  [.regHotPlugCallback (some 1) .success, .regHotPlugCallback (some 1) .failure,
    .setDisplayModeAsync (some 2) .failure]

theorem effective_iff_run : (Notice.onHotPlug 0 true .success).called (sampleRun nothingNewRun) =
    some 1 ∧ Effective samplePlatform sampleService nothingNewRun (sampleRun nothingNewRun) := by
  have hr : (registrations samplePlatform).Run sampleService nothingNewRun
      (sampleRun nothingNewRun) := System.Run.of_forall_enabled (fun _ _ => trivial) _ _
  refine ⟨by decide +kernel, (effective_iff ⟨_, rfl⟩ hr).mpr ⟨?_, ?_, ?_, trivial⟩⟩
  · exact fun _ _ h => absurd rfl h
  · exact fun _ _ _ => by decide +kernel
  · rintro ⟨⟩

/-- The second callback is refused, and the hot plug events go to it. -/
theorem refused_hotPlug_replaces : ∃ rs, (registrations samplePlatform).init sampleService ∧
    (registrations samplePlatform).Run sampleService rs (sampleRun rs) ∧
    rs = [.regHotPlugCallback (some 1) .success, .regHotPlugCallback (some 2) .failure] ∧
    ¬ Effective samplePlatform sampleService rs (sampleRun rs) ∧
    (Notice.onHotPlug 0 true .success).called (sampleRun rs) = some 2 := by
  refine ⟨_, ⟨_, rfl⟩, System.Run.of_forall_enabled (fun _ _ => trivial) _ _, rfl, ?_,
    by decide +kernel⟩
  rintro ⟨-, hcalled⟩
  have h := hcalled (.onHotPlug 0 true .success)
  revert h
  decide +kernel

end Registration

end Composer
