import OpenHarmonyMac.Infra.Transition

/-!
# The vsync worker

`DrmVsyncWorker` of the display composer: `Init` creates the worker thread, `EnableVsync` and
`ReqesterVBlankCb` are called by other threads, and the worker waits for them in
`WaitSignalAndCheckRuning`, then for a vblank, and then calls the callback.

* `DrmVsyncWorker.stays_iff` — the worker stays in its loop just in case it never reads
  `mRunning` for its result before `Init` has set it
* `leaves_before_init_returns` — `Init` creates the thread first and sets `mRunning` last
-/

namespace Composer

open Infra

/-- A `VsyncCallBack`, with the crtc pipe that `GetPipe` returns. -/
structure VsyncCallBack where
  id : Nat
  pipe : Int
  deriving DecidableEq, Repr

/-- What a call of `drmWaitVBlank` leaves: the reply of the driver, or a failure and the
monotonic clock after the `usleep`. -/
inductive VBlankReply
  | vblank (sequence : UInt32) (tvalSec tvalUsec : UInt64)
  | failed (tvSec tvNsec : UInt64)
  deriving DecidableEq, Repr

/-- The results of `Init`. -/
inductive DisplayRet
  | success
  | failure
  deriving DecidableEq, Repr

/-- Where `Init` is. A constructor stands for the statement that comes next. -/
inductive InitPc
  | call
  | createThread
  | checkThread
  | setRunning
  | returned (ret : DisplayRet)
  deriving DecidableEq, Repr

/-- Where the worker thread is. It holds `mMutex` at `predicate` and at `returnRunning`. -/
inductive WorkerPc
  | notCreated
  | lock
  | predicate
  | waiting
  | returnRunning
  | waitNextVBlank
  | vsync (time : UInt64)
  | left
  | nullDereference
  deriving DecidableEq, Repr

/-- `DRM_VBLANK_RELATIVE` and `DRM_VBLANK_SECONDARY`, the bits of a request type. -/
def drmVBlankRelative : UInt32 := 1
def drmVBlankSecondary : UInt32 := 0x20000000

/-- The members of `DrmVsyncWorker`, the places of `Init` and of the worker thread with its local
`seq`, the notifications that are still due, and what went to the driver and to the callback. -/
structure DrmVsyncWorker where
  mDrmFd : Int := -1
  mRunning : Bool := false
  mEnable : Bool := false
  mCallBack : Option VsyncCallBack := none
  initPc : InitPc := .call
  workerPc : WorkerPc := .notCreated
  seq : UInt32 := 0
  notifies : Nat := 0
  requests : List (Int × UInt32) := []
  vsyncs : List (VsyncCallBack × UInt32 × UInt64) := []
  deriving DecidableEq, Repr

/-- One step of one of the threads. -/
inductive VsyncEvent
  | init (fd : Int)
  | createThread (created : Bool)
  | checkThread
  | setRunning
  | enableVsync (enable : Bool)
  | notify
  | reqesterVBlankCb (cb : Option VsyncCallBack)
  | workerLock
  | workerPredicate
  | workerWake
  | workerReturn
  | workerWaitNextVBlank (reply : VBlankReply)
  | workerVsync
  deriving DecidableEq, Repr

namespace DrmVsyncWorker

variable {w : DrmVsyncWorker}

/-- The worker thread owns `mMutex`. -/
def WorkerHoldsMutex (w : DrmVsyncWorker) : Prop :=
  w.workerPc = .predicate ∨ w.workerPc = .returnRunning

instance (w : DrmVsyncWorker) : Decidable w.WorkerHoldsMutex :=
  inferInstanceAs (Decidable (_ ∨ _))

/-! ## The steps of `Init` -/

/-- `Init` checks the descriptor. -/
def init (w : DrmVsyncWorker) (fd : Int) : DrmVsyncWorker :=
  if fd < 0 then { w with initPc := .returned .failure }
  else { w with mDrmFd := fd, initPc := .createThread }

/-- `std::make_unique<std::thread>`. A thread that cannot be created throws, and `call_once`
leaves the next `GetInstance` to call `Init` again. -/
def createThread (w : DrmVsyncWorker) (created : Bool) : DrmVsyncWorker :=
  if created then { w with initPc := .checkThread, workerPc := .lock }
  else { w with initPc := .call }

/-- The check of `mThread`, which `make_unique` has never left null. -/
def checkThread (w : DrmVsyncWorker) : DrmVsyncWorker := { w with initPc := .setRunning }

/-- `mRunning = true`, without the mutex, and the return. -/
def setRunning (w : DrmVsyncWorker) : DrmVsyncWorker :=
  { w with mRunning := true, initPc := .returned .success }

/-! ## The calls of other threads -/

/-- The locked part of `EnableVsync`. -/
def enableVsync (w : DrmVsyncWorker) (enable : Bool) : DrmVsyncWorker :=
  { w with mEnable := enable, notifies := w.notifies + 1 }

/-- `notify_one` at the end of `EnableVsync`. -/
def notify (w : DrmVsyncWorker) : DrmVsyncWorker :=
  { w with
    notifies := w.notifies - 1
    workerPc := if w.workerPc = .waiting then .lock else w.workerPc }

/-- `ReqesterVBlankCb`. -/
def reqesterVBlankCb (w : DrmVsyncWorker) (cb : Option VsyncCallBack) : DrmVsyncWorker :=
  match cb with
  | none => w
  | some cb => { w with mCallBack := some cb }

/-! ## The steps of the worker -/

/-- The predicate of `mCondition.wait` is evaluated: `mEnable || !mRunning`. -/
def workerPredicate (w : DrmVsyncWorker) : DrmVsyncWorker :=
  { w with workerPc := if w.mEnable || !w.mRunning then .returnRunning else .waiting }

/-- `return mRunning`, on which `WorkThread` goes on or leaves its loop. -/
def workerReturn (w : DrmVsyncWorker) : DrmVsyncWorker :=
  { w with workerPc := if w.mRunning then .waitNextVBlank else .left }

/-- The request type of `WaitNextVBlank`. -/
def requestType (cb : VsyncCallBack) : UInt32 :=
  if cb.pipe = 1 then drmVBlankRelative ||| drmVBlankSecondary else drmVBlankRelative

/-- The sequence number and the time that `WaitNextVBlank` takes from the reply. A failure
simulates a vsync. -/
def readReply (seq : UInt32) : VBlankReply → UInt32 × UInt64
  | .vblank sequence tvalSec tvalUsec => (sequence, tvalSec * 1000000000 + tvalUsec * 1000)
  | .failed tvSec tvNsec => (seq + 1, tvSec * 1000000000 + tvNsec)

/-- `WaitNextVBlank`, which calls `GetPipe` of the callback without a check. -/
def workerWaitNextVBlank (w : DrmVsyncWorker) (reply : VBlankReply) : DrmVsyncWorker :=
  match w.mCallBack with
  | none => { w with workerPc := .nullDereference }
  | some cb =>
    { w with
      requests := w.requests ++ [(w.mDrmFd, requestType cb)]
      seq := (readReply w.seq reply).1
      workerPc := .vsync (readReply w.seq reply).2 }

/-- `WorkThread` calls the callback if there is one, and the loop starts again. -/
def workerVsync (w : DrmVsyncWorker) : DrmVsyncWorker :=
  match w.workerPc, w.mCallBack with
  | .vsync time, some cb => { w with vsyncs := w.vsyncs ++ [(cb, w.seq, time)], workerPc := .lock }
  | _, _ => { w with workerPc := .lock }

/-! ## The system of the threads -/

/-- The steps that can be taken. After a null dereference there is no process. -/
def Enabled (w : DrmVsyncWorker) (e : VsyncEvent) : Prop :=
  w.workerPc ≠ .nullDereference ∧
    match e with
    | .init _ => w.initPc = .call
    | .createThread _ => w.initPc = .createThread
    | .checkThread => w.initPc = .checkThread
    | .setRunning => w.initPc = .setRunning
    | .enableVsync _ => ¬ w.WorkerHoldsMutex
    | .notify => 0 < w.notifies
    | .reqesterVBlankCb _ => True
    | .workerLock => w.workerPc = .lock
    | .workerPredicate => w.workerPc = .predicate
    | .workerWake => w.workerPc = .waiting
    | .workerReturn => w.workerPc = .returnRunning
    | .workerWaitNextVBlank _ => w.workerPc = .waitNextVBlank
    | .workerVsync => ∃ time, w.workerPc = .vsync time

/-- The step that an event stands for. -/
def step (w : DrmVsyncWorker) : VsyncEvent → DrmVsyncWorker
  | .init fd => w.init fd
  | .createThread created => w.createThread created
  | .checkThread => w.checkThread
  | .setRunning => w.setRunning
  | .enableVsync enable => w.enableVsync enable
  | .notify => w.notify
  | .reqesterVBlankCb cb => w.reqesterVBlankCb cb
  | .workerLock => { w with workerPc := .predicate }
  | .workerPredicate => w.workerPredicate
  | .workerWake => { w with workerPc := .lock }
  | .workerReturn => w.workerReturn
  | .workerWaitNextVBlank reply => w.workerWaitNextVBlank reply
  | .workerVsync => w.workerVsync

/-- The worker with its threads. The header of the class is not here: `mRunning` is false at
first, and the other members are arbitrary. -/
def system : System DrmVsyncWorker VsyncEvent where
  init w := w.mRunning = false ∧ w.initPc = .call ∧ w.workerPc = .notCreated
  enabled := Enabled
  step := step

/-! ## The worker in its loop -/

/-- `mRunning` is set by the last statement of `Init`, and by nothing else before the destructor. -/
def RunningSet (w : DrmVsyncWorker) : Prop :=
  w.mRunning = true ↔ w.initPc = .returned .success

/-- If this step reads `mRunning` for the result of `WaitSignalAndCheckRuning`, `Init` has
returned. -/
def ChecksAfterInit (w : DrmVsyncWorker) (e : VsyncEvent) : Prop :=
  e = .workerReturn → w.initPc = .returned .success

/-- A step of `Init` that changes neither `mRunning` nor its own success. -/
theorem RunningSet.pending {v : DrmVsyncWorker} (h : w.RunningSet)
    (hw : w.initPc ≠ .returned .success) (hv : v.initPc ≠ .returned .success)
    (hm : v.mRunning = w.mRunning) : v.RunningSet := by
  have hfalse : w.mRunning ≠ true := fun hr => hw (h.mp hr)
  exact iff_of_false (hm ▸ hfalse) hv

/-- A step of another thread. -/
theorem RunningSet.congr {v : DrmVsyncWorker} (h : w.RunningSet) (hi : v.initPc = w.initPc)
    (hm : v.mRunning = w.mRunning) : v.RunningSet := by
  unfold RunningSet
  rw [hi, hm]
  exact h

theorem runningSet_step (e : VsyncEvent) (h : w.RunningSet) (he : system.enabled w e) :
    (system.step w e).RunningSet := by
  obtain ⟨-, he⟩ := he
  cases e with
  | init fd =>
    have hpc : w.initPc = .call := he
    show (w.init fd).RunningSet
    unfold DrmVsyncWorker.init
    split
    · exact h.pending (by simp [hpc]) (by simp) rfl
    · exact h.pending (by simp [hpc]) (by simp) rfl
  | createThread created =>
    have hpc : w.initPc = .createThread := he
    cases created with
    | false => exact h.pending (by simp [hpc]) (by simp [system, step, createThread]) rfl
    | true => exact h.pending (by simp [hpc]) (by simp [system, step, createThread]) rfl
  | checkThread =>
    have hpc : w.initPc = .checkThread := he
    exact h.pending (by simp [hpc]) (by simp [system, step, checkThread]) rfl
  | setRunning => exact iff_of_true rfl rfl
  | reqesterVBlankCb cb =>
    cases cb with
    | none => exact h
    | some cb => exact h.congr rfl rfl
  | workerWaitNextVBlank reply =>
    show (w.workerWaitNextVBlank reply).RunningSet
    unfold workerWaitNextVBlank
    split
    · exact h.congr rfl rfl
    · exact h.congr rfl rfl
  | workerVsync =>
    show w.workerVsync.RunningSet
    unfold workerVsync
    split
    · exact h.congr rfl rfl
    · exact h.congr rfl rfl
  | _ => exact h.congr rfl rfl

/-- Only `return mRunning` takes the worker out of its loop. -/
theorem left_of_step {e : VsyncEvent} (hw : w.workerPc ≠ .left) (he : system.enabled w e)
    (h : (system.step w e).workerPc = .left) : e = .workerReturn ∧ w.mRunning = false := by
  obtain ⟨-, he⟩ := he
  cases e with
  | workerReturn =>
    refine ⟨rfl, ?_⟩
    by_contra hr
    rw [Bool.not_eq_false] at hr
    simp [system, step, workerReturn, hr] at h
  | init fd =>
    exfalso
    revert h
    show (w.init fd).workerPc ≠ .left
    unfold DrmVsyncWorker.init
    split <;> exact hw
  | createThread created => cases created <;> simp_all [system, step, createThread]
  | notify =>
    exfalso
    revert h
    show (w.notify).workerPc ≠ .left
    unfold notify
    by_cases hpc : w.workerPc = .waiting <;> simp [hpc, hw]
  | reqesterVBlankCb cb => cases cb <;> exact absurd h hw
  | workerPredicate =>
    exfalso
    revert h
    show w.workerPredicate.workerPc ≠ .left
    unfold workerPredicate
    split <;> simp
  | workerWaitNextVBlank reply =>
    exfalso
    revert h
    show (w.workerWaitNextVBlank reply).workerPc ≠ .left
    unfold workerWaitNextVBlank
    split <;> simp
  | workerVsync =>
    exfalso
    revert h
    show w.workerVsync.workerPc ≠ .left
    unfold workerVsync
    split <;> simp
  | workerLock => cases h
  | workerWake => cases h
  | _ => exact absurd h hw

/-- A step keeps the worker in its loop just in case it does not read `mRunning` too early. -/
theorem stays_step_iff {e : VsyncEvent} (hset : w.RunningSet) (hw : w.workerPc ≠ .left)
    (he : system.enabled w e) :
    (system.step w e).workerPc ≠ .left ↔ w.ChecksAfterInit e := by
  constructor
  · intro hstay hret
    subst hret
    refine hset.mp ?_
    by_contra hr
    exact hstay (by simp [system, step, workerReturn, hr])
  · intro hok hleft
    obtain ⟨hret, hr⟩ := left_of_step hw he hleft
    rw [hset.mpr (hok hret)] at hr
    cases hr

/-- **The worker stays in its loop throughout a run just in case each `return mRunning` of the
run comes after the end of `Init`.** -/
theorem stays_iff {es : List VsyncEvent} {t : DrmVsyncWorker} (hi : system.init w)
    (hr : system.Run w es t) :
    system.Throughout (fun v => v.workerPc ≠ .left) w es ↔
      (system.restrict ChecksAfterInit).Run w es t := by
  obtain ⟨hm, hpc, hworker⟩ := hi
  refine hr.throughout_iff_of_invariant (fun v e => runningSet_step e) (fun v e => stays_step_iff)
    ?_ (by simp [hworker])
  exact iff_of_false (by simp [hm]) (by simp [hpc])

/-! ## The first check of the worker -/

instance (w : DrmVsyncWorker) (e : VsyncEvent) : Decidable (system.enabled w e) :=
  match e with
  | .workerVsync =>
    match h : w.workerPc with
    | .vsync time => isTrue ⟨by simp [h], time, h⟩
    | .notCreated | .lock | .predicate | .waiting | .returnRunning | .waitNextVBlank | .left
    | .nullDereference => isFalse (by rintro ⟨-, _, ht⟩; simp [h] at ht)
  | .init _ | .createThread _ | .checkThread | .setRunning | .enableVsync _ | .notify
  | .reqesterVBlankCb _ | .workerLock | .workerPredicate | .workerWake | .workerReturn
  | .workerWaitNextVBlank _ => inferInstanceAs (Decidable (_ ∧ _))

/-- The worker of descriptor 5 after these events. -/
def sampleRun (es : List VsyncEvent) : DrmVsyncWorker := es.foldl step {}

/-- `Init` comes to its end before the worker checks, and the first vsync is delivered. -/
def initFirst : List VsyncEvent :=
  [.init 5, .createThread true, .checkThread, .setRunning, .reqesterVBlankCb (some ⟨1, 0⟩),
    .enableVsync true, .workerLock, .workerPredicate, .workerReturn,
    .workerWaitNextVBlank (.failed 1 0), .workerVsync]

theorem stays_iff_run : (sampleRun initFirst).vsyncs = [(⟨1, 0⟩, 1, 1000000000)] ∧
    (system.restrict ChecksAfterInit).Run {} initFirst (sampleRun initFirst) := by
  have hr : system.Run {} initFirst (sampleRun initFirst) :=
    System.Run.of_enabledAll (by decide)
  exact ⟨by decide, (stays_iff ⟨rfl, rfl, rfl⟩ hr).mp (by
    simp [initFirst, System.Throughout]
    decide)⟩

/-- The worker is scheduled before `Init` sets `mRunning`. -/
theorem leaves_before_init_returns : ∃ es, system.Run {} es (sampleRun es) ∧
    system.init {} ∧ es = [.init 5, .createThread true, .workerLock, .workerPredicate,
      .workerReturn] ∧ (sampleRun es).workerPc = .left :=
  ⟨_, System.Run.of_enabledAll (by decide), ⟨rfl, rfl, rfl⟩, rfl, by decide⟩

end DrmVsyncWorker

end Composer
