import Mathlib.Data.List.Chain
import OpenHarmonyMac.Composer.VsyncWorker

/-!
# What the vsync worker delivers

`WorkThread` checks the callback, and `WaitNextVBlank` before it uses it without a check. The
sequence number comes from the driver, and counts on from the last one where the driver fails.

* `safe_iff` — the worker never uses a null callback just in case a callback is registered before
  its first `WaitNextVBlank`, and each iteration with a callback delivers one vsync
* `ascending_iff` — the delivered sequence numbers ascend just in case each number of the driver
  that comes after simulated ones is ahead of them
-/

namespace Composer

open Infra

/-- The callback that an event registers. -/
def VsyncEvent.registers : VsyncEvent → Option VsyncCallBack
  | .reqesterVBlankCb cb => cb
  | _ => none

/-- The reply that an event of the worker gets. -/
def VsyncEvent.reply? : VsyncEvent → Option VBlankReply
  | .workerWaitNextVBlank reply => some reply
  | _ => none

/-- The sequence number of the driver in a reply. -/
def VBlankReply.sequence? : VBlankReply → Option UInt32
  | .vblank sequence _ _ => some sequence
  | .failed .. => none

namespace DrmVsyncWorker

variable {w t u v : DrmVsyncWorker} {e : VsyncEvent} {es : List VsyncEvent}

/-! ## The callbacks that were registered -/

/-- The callbacks registered before and by these events. -/
def registered (w : DrmVsyncWorker) (es : List VsyncEvent) : List VsyncCallBack :=
  w.mCallBack.toList ++ es.filterMap VsyncEvent.registers

/-- An iteration of the loop of `WorkThread`: from the check of `mRunning` to the end of the
body. -/
structure Iteration (w : DrmVsyncWorker) (es : List VsyncEvent) (t : DrmVsyncWorker) : Prop where
  checked : w.workerPc = .waitNextVBlank
  body : ∃ es', es = es' ++ [.workerVsync] ∧ .workerVsync ∉ es'
  run : system.Run w es t

/-- The worker never uses a null callback, and each iteration that starts after a callback was
registered delivers exactly one vsync, to a registered callback. -/
def Safe (w : DrmVsyncWorker) (es : List VsyncEvent) : Prop :=
  system.Throughout (fun v => v.workerPc ≠ .nullDereference) w es ∧
    ∀ es₁ es₂ u v, es₁ ++ es₂ <+: es → system.Run w es₁ u → Iteration u es₂ v →
      w.registered es₁ ≠ [] →
        ∃ cb ∈ w.registered (es₁ ++ es₂), ∃ seq time, v.vsyncs = u.vsyncs ++ [(cb, seq, time)]

/-- A callback is registered before each `WaitNextVBlank` of the events. -/
def WaitsWithCallback (w : DrmVsyncWorker) (es : List VsyncEvent) : Prop :=
  ∀ es₁ reply es₂, es = es₁ ++ .workerWaitNextVBlank reply :: es₂ → w.registered es₁ ≠ []

/-! ### The member -/

theorem mCallBack_step (w : DrmVsyncWorker) (e : VsyncEvent) :
    (step w e).mCallBack = e.registers.or w.mCallBack := by
  cases e with
  | init fd =>
    show (w.init fd).mCallBack = w.mCallBack
    unfold DrmVsyncWorker.init
    split <;> rfl
  | createThread created => cases created <;> rfl
  | reqesterVBlankCb cb => cases cb <;> rfl
  | workerWaitNextVBlank reply =>
    show (w.workerWaitNextVBlank reply).mCallBack = w.mCallBack
    unfold workerWaitNextVBlank
    split
    · rfl
    · rfl
  | workerVsync =>
    show w.workerVsync.mCallBack = w.mCallBack
    unfold workerVsync
    split <;> rfl
  | _ => rfl

theorem registered_concat (w : DrmVsyncWorker) (es : List VsyncEvent) (e : VsyncEvent) :
    w.registered (es ++ [e]) = w.registered es ++ e.registers.toList := by
  unfold registered
  cases h : e.registers <;> simp [List.filterMap_append, h]

/-- **The member is the callback that was registered last.** -/
theorem mCallBack_run (hr : system.Run w es t) :
    t.mCallBack = (w.registered es).getLast? := by
  refine hr.invariant_events (I := fun t es => t.mCallBack = (w.registered es).getLast?) ?_ ?_
  · intro v es e h _
    show (step v e).mCallBack = _
    rw [mCallBack_step, registered_concat, h]
    cases e.registers <;> simp
  · unfold registered
    cases w.mCallBack <;> simp

theorem mCallBack_eq_none_iff (hr : system.Run w es t) :
    t.mCallBack = none ↔ w.registered es = [] := by
  rw [mCallBack_run hr, List.getLast?_eq_none_iff]

/-! ### The null callback -/

/-- A step of the worker that waits finds a callback. -/
def HasCallback (w : DrmVsyncWorker) (e : VsyncEvent) : Prop :=
  ∀ reply, e = .workerWaitNextVBlank reply → w.mCallBack ≠ none

/-- Only `WaitNextVBlank` uses a callback without a check. -/
theorem step_ne_nullDereference (he : system.enabled w e)
    (hother : ∀ reply, e ≠ .workerWaitNextVBlank reply) :
    (system.step w e).workerPc ≠ .nullDereference := by
  have hpc : w.workerPc ≠ .nullDereference := he.1
  cases e with
  | workerWaitNextVBlank reply => exact absurd rfl (hother reply)
  | init fd =>
    show (w.init fd).workerPc ≠ _
    unfold DrmVsyncWorker.init
    split <;> exact hpc
  | createThread created =>
    cases created with
    | false => exact hpc
    | true => exact nofun
  | notify =>
    show w.notify.workerPc ≠ _
    by_cases h : w.workerPc = .waiting <;> simp [notify, h, hpc]
  | reqesterVBlankCb cb => cases cb <;> exact hpc
  | workerPredicate =>
    show w.workerPredicate.workerPc ≠ _
    unfold workerPredicate
    split <;> exact nofun
  | workerReturn =>
    show w.workerReturn.workerPc ≠ _
    unfold workerReturn
    split <;> exact nofun
  | workerVsync =>
    show w.workerVsync.workerPc ≠ _
    unfold workerVsync
    split <;> exact nofun
  | workerLock | workerWake => exact nofun
  | _ => exact hpc

theorem nullDereference_step_iff (he : system.enabled w e) :
    (system.step w e).workerPc ≠ .nullDereference ↔ w.HasCallback e := by
  by_cases hwait : ∃ reply, e = .workerWaitNextVBlank reply
  · obtain ⟨reply, rfl⟩ := hwait
    show (w.workerWaitNextVBlank reply).workerPc ≠ _ ↔ _
    cases hcb : w.mCallBack with
    | none => simp [workerWaitNextVBlank, HasCallback, hcb]
    | some cb => simp [workerWaitNextVBlank, HasCallback, hcb]
  · have hother : ∀ reply, e ≠ .workerWaitNextVBlank reply := not_exists.mp hwait
    exact iff_of_true (step_ne_nullDereference he hother)
      fun reply hreply => absurd hreply (hother reply)

/-- The worker uses no null callback just in case one is registered before each wait. -/
theorem throughout_iff_waitsWithCallback (hw : w.workerPc ≠ .nullDereference)
    (hr : system.Run w es t) :
    system.Throughout (fun v => v.workerPc ≠ .nullDereference) w es ↔
      w.WaitsWithCallback es := by
  have hstep : ∀ v e, v.workerPc ≠ .nullDereference → system.enabled v e →
      ((system.step v e).workerPc ≠ .nullDereference ↔ v.HasCallback e) :=
    fun v e _ => nullDereference_step_iff
  rw [hr.throughout_iff hstep hw, hr.restrict_iff_forall]
  constructor
  · intro h es₁ reply es₂ hes hnone
    subst hes
    obtain ⟨u, hu, -⟩ := hr.split
    exact h es₁ _ es₂ u rfl hu reply rfl ((mCallBack_eq_none_iff hu).mpr hnone)
  · rintro h es₁ e es₂ u hes hu reply rfl hnone
    exact h es₁ reply es₂ hes ((mCallBack_eq_none_iff hu).mp hnone)

/-! ### The iterations -/

/-- Only the end of the body calls the callback. -/
theorem vsyncs_step (he : e ≠ .workerVsync) : (step w e).vsyncs = w.vsyncs := by
  cases e with
  | workerVsync => exact absurd rfl he
  | init fd =>
    show (w.init fd).vsyncs = w.vsyncs
    unfold DrmVsyncWorker.init
    split <;> rfl
  | createThread created => cases created <;> rfl
  | reqesterVBlankCb cb => cases cb <;> rfl
  | workerWaitNextVBlank reply =>
    show (w.workerWaitNextVBlank reply).vsyncs = w.vsyncs
    unfold workerWaitNextVBlank
    split
    · rfl
    · rfl
  | _ => rfl

theorem vsyncs_body (hr : system.Run w es t) (h : .workerVsync ∉ es) : t.vsyncs = w.vsyncs := by
  induction hr with
  | nil => rfl
  | cons _ _ ih =>
    rw [List.mem_cons, not_or] at h
    rw [ih h.2]
    exact vsyncs_step (Ne.symm h.1)

/-- The end of the body with a callback. -/
theorem vsyncs_workerVsync {cb : VsyncCallBack} (hcb : w.mCallBack = some cb)
    (he : system.enabled w .workerVsync) :
    ∃ time, (step w .workerVsync).vsyncs = w.vsyncs ++ [(cb, w.seq, time)] := by
  obtain ⟨-, time, hpc⟩ := he
  refine ⟨time, ?_⟩
  show w.workerVsync.vsyncs = _
  simp only [workerVsync, hpc, hcb]

theorem registered_append (w : DrmVsyncWorker) (es es' : List VsyncEvent) :
    w.registered (es ++ es') = w.registered es ++ es'.filterMap VsyncEvent.registers := by
  simp only [registered, List.filterMap_append, List.append_assoc]

/-- **An iteration that starts after a callback was registered delivers one vsync, to a registered
callback.** -/
theorem Iteration.delivers {es' : List VsyncEvent} (hr : system.Run w es u)
    (hit : Iteration u es' v) (hreg : w.registered es ≠ []) :
    ∃ cb ∈ w.registered (es ++ es'), ∃ seq time, v.vsyncs = u.vsyncs ++ [(cb, seq, time)] := by
  obtain ⟨-, ⟨body, rfl, hbody⟩, hrun⟩ := hit
  obtain ⟨x, hx, hend⟩ := hrun.split
  cases hend with
  | cons he hnil =>
    cases hnil
    have hcb : x.mCallBack = (w.registered (es ++ body)).getLast? := mCallBack_run (hr.append hx)
    cases hcb' : x.mCallBack with
    | none =>
      rw [hcb', eq_comm, List.getLast?_eq_none_iff, registered_append] at hcb
      exact absurd (List.append_eq_nil_iff.mp hcb).1 hreg
    | some cb =>
      obtain ⟨time, hvsyncs⟩ := vsyncs_workerVsync hcb' he
      refine ⟨cb, ?_, x.seq, time, ?_⟩
      · rw [← List.append_assoc, registered_append]
        exact List.mem_append_left _ (List.mem_of_getLast? (hcb.symm.trans hcb'))
      · rw [← vsyncs_body hx hbody]
        exact hvsyncs

/-- **The worker never uses a null callback, and delivers one vsync in each iteration with a
callback, just in case a callback is registered before each wait for a vblank.** -/
theorem safe_iff (hi : system.init w) (hr : system.Run w es t) :
    w.Safe es ↔ w.WaitsWithCallback es := by
  have hw : w.workerPc ≠ .nullDereference := by simp [hi.2.2]
  rw [← throughout_iff_waitsWithCallback hw hr]
  refine ⟨fun h => h.1, fun h => ⟨h, ?_⟩⟩
  intro es₁ es₂ u v _ hu hit hreg
  exact hit.delivers hu hreg

/-! ### Vsync before a callback -/

theorem safe_iff_run : (sampleRun initFirst).vsyncs = [(⟨1, 0⟩, 1, 1000000000)] ∧
    Safe {} initFirst := by
  have hr : system.Run {} initFirst (sampleRun initFirst) :=
    System.Run.of_enabledAll (by decide)
  refine ⟨by decide, (safe_iff ⟨rfl, rfl, rfl⟩ hr).mpr ?_⟩
  rw [← throughout_iff_waitsWithCallback (by simp) hr]
  simp only [initFirst, System.Throughout]
  decide

/-- Vsync is enabled before any callback is registered. -/
theorem enabled_without_callback : ∃ es, system.init {} ∧ system.Run {} es (sampleRun es) ∧
    es = [.init 5, .createThread true, .checkThread, .setRunning, .enableVsync true, .workerLock,
      .workerPredicate, .workerReturn, .workerWaitNextVBlank (.failed 1 0)] ∧ ¬ Safe {} es := by
  refine ⟨_, ⟨rfl, rfl, rfl⟩, System.Run.of_enabledAll (by decide), rfl, ?_⟩
  rintro ⟨h, -⟩
  revert h
  simp only [System.Throughout]
  decide

/-! ## The sequence numbers -/

/-- The number `b` is ahead of `a` by less than half of the range, as numbers that wrap are
compared. -/
def Follows (a b : UInt32) : Prop := 0 < b - a ∧ b - a < 0x80000000

instance (a b : UInt32) : Decidable (Follows a b) := inferInstanceAs (Decidable (_ ∧ _))

/-- The worker as its constructor leaves it, with the counter that `WorkThread` starts with. -/
structure Fresh (w : DrmVsyncWorker) : Prop where
  init : system.init w
  seq : w.seq = 0
  vsyncs : w.vsyncs = []

/-- The replies of the driver. -/
def replies (es : List VsyncEvent) : List VBlankReply := es.filterMap VsyncEvent.reply?

/-- The replies of the driver whose iteration has come to its end. -/
def completed (es : List VsyncEvent) : List VBlankReply :=
  (replies es).take (es.count .workerVsync)

/-- The hardware counts up. -/
def HardwareAscends (rs : List VBlankReply) : Prop :=
  (rs.filterMap VBlankReply.sequence?).IsChain Follows

instance (rs : List VBlankReply) : Decidable (HardwareAscends rs) :=
  inferInstanceAs (Decidable (List.IsChain _ _))

/-- The sequence numbers that the worker delivers ascend. -/
def Ascending (t : DrmVsyncWorker) : Prop :=
  (t.vsyncs.map fun x => x.2.1).IsChain Follows

instance (t : DrmVsyncWorker) : Decidable t.Ascending :=
  inferInstanceAs (Decidable (List.IsChain _ _))

/-- Each number of the driver that comes after simulated vsyncs is ahead of `base + k`, where `k` is
the number of the simulated ones and `base` the number of the driver before them, or 0 if there was
none. -/
def TakesOver (base : UInt32) (k : Nat) : List VBlankReply → Prop
  | [] => True
  | .failed .. :: rs => TakesOver base (k + 1) rs
  | .vblank sequence .. :: rs =>
    (0 < k → Follows (base + UInt32.ofNat k) sequence) ∧ TakesOver sequence 0 rs

/-- The counter of `WorkThread` after each of the replies. -/
def seqs (seq : UInt32) : List VBlankReply → List UInt32
  | [] => []
  | r :: rs => (readReply seq r).1 :: seqs (readReply seq r).1 rs

/-! ### The counter -/

theorem follows_succ (a : UInt32) : Follows a (a + 1) := by
  have h : a + 1 - a = 1 := by grind
  unfold Follows
  rw [h]
  decide

/-- From a delivered number on: the counter is `k` simulated vsyncs ahead of `base`. -/
theorem isChain_seqs_iff {base : UInt32} {k : Nat} {rs : List VBlankReply}
    (hrs : HardwareAscends rs)
    (hbase : k = 0 → (base :: rs.filterMap VBlankReply.sequence?).IsChain Follows) :
    ((base + UInt32.ofNat k) :: seqs (base + UInt32.ofNat k) rs).IsChain Follows ↔
      TakesOver base k rs := by
  induction rs generalizing base k with
  | nil => simp [seqs, TakesOver]
  | cons r rs ih =>
    rw [seqs, List.isChain_cons_cons]
    cases r with
    | failed tvSec tvNsec =>
      have hsucc : base + UInt32.ofNat k + 1 = base + UInt32.ofNat (k + 1) := by
        rw [UInt32.ofNat_add, UInt32.add_assoc]
        rfl
      show Follows _ (base + UInt32.ofNat k + 1) ∧ _ ↔ TakesOver base (k + 1) rs
      rw [and_iff_right (follows_succ _)]
      show ((base + UInt32.ofNat k + 1) :: seqs (base + UInt32.ofNat k + 1) rs).IsChain Follows ↔ _
      rw [hsucc]
      exact ih hrs nofun
    | vblank sequence tvalSec tvalUsec =>
      have hnext := @ih sequence 0 hrs.tail fun _ => hrs
      have hzero : sequence + UInt32.ofNat 0 = sequence := UInt32.add_zero sequence
      rw [hzero] at hnext
      refine and_congr ?_ hnext
      cases k with
      | zero =>
        refine iff_of_true ?_ nofun
        show Follows (base + 0) sequence
        rw [UInt32.add_zero]
        exact (List.isChain_cons_cons.mp (hbase rfl)).1
      | succ k => exact ⟨fun h _ => h, fun h => h k.succ_pos⟩

/-- **The counter of `WorkThread` ascends just in case the hardware takes over ahead of the
simulation each time.** -/
theorem isChain_seqs_zero_iff {rs : List VBlankReply} (hrs : HardwareAscends rs) :
    (seqs 0 rs).IsChain Follows ↔ TakesOver 0 0 rs := by
  cases rs with
  | nil => simp [seqs, TakesOver]
  | cons r rs =>
    cases r with
    | failed tvSec tvNsec => exact @isChain_seqs_iff 0 1 rs hrs nofun
    | vblank sequence tvalSec tvalUsec =>
      have hnext := @isChain_seqs_iff sequence 0 rs hrs.tail fun _ => hrs
      have hzero : sequence + UInt32.ofNat 0 = sequence := UInt32.add_zero sequence
      rw [hzero] at hnext
      exact hnext.trans (and_iff_right nofun).symm

/-! ### The deliveries -/

theorem seqs_concat (seq : UInt32) (rs : List VBlankReply) (r : VBlankReply) :
    seqs seq (rs ++ [r]) = seqs seq rs ++
      [(readReply ((seqs seq rs).getLast?.getD seq) r).1] := by
  induction rs generalizing seq with
  | nil => rfl
  | cons r' rs ih =>
    rw [List.cons_append, seqs, ih, seqs, List.getLast?_cons, List.cons_append]
    simp

/-- The last value of the counter. -/
def lastSeq (rs : List VBlankReply) : UInt32 := (seqs 0 rs).getLast?.getD 0

theorem lastSeq_concat (rs : List VBlankReply) (r : VBlankReply) :
    lastSeq (rs ++ [r]) = (readReply (lastSeq rs) r).1 := by
  unfold lastSeq
  rw [seqs_concat, List.getLast?_concat]
  rfl

/-- A reply that has been read and not yet delivered. -/
def undelivered (w : DrmVsyncWorker) : Nat :=
  match w.workerPc with
  | .vsync _ => 1
  | _ => 0

theorem undelivered_eq_zero (h : ∀ time, w.workerPc ≠ .vsync time) : w.undelivered = 0 := by
  unfold undelivered
  split
  · next time htime => exact absurd htime (h time)
  · rfl

/-- What the worker has counted and delivered after these events. -/
structure Counted (w : DrmVsyncWorker) (es : List VsyncEvent) : Prop where
  delivered : (w.vsyncs.map fun x => x.2.1) = seqs 0 (completed es)
  counter : w.workerPc ≠ .nullDereference →
    w.seq = lastSeq (replies es) ∧ (replies es).length = es.count .workerVsync + w.undelivered
  callback : w.undelivered = 1 → w.mCallBack ≠ none
  unborn : w.initPc = .call ∨ w.initPc = .createThread → w.workerPc = .notCreated

/-- The last reply is the one that is delivered last. -/
theorem seqs_eq_take_append {rs : List VBlankReply} {n : Nat} (h : rs.length = n + 1) :
    seqs 0 rs = seqs 0 (rs.take n) ++ [lastSeq rs] := by
  rcases rs.eq_nil_or_concat' with rfl | ⟨rs, r, rfl⟩
  · cases h
  · have hn : rs.length = n := by simpa using h
    rw [List.take_append_of_le_length hn.ge, ← hn, List.take_length, lastSeq_concat, seqs_concat]
    rfl

theorem count_concat (es : List VsyncEvent) (e : VsyncEvent) :
    (es ++ [e]).count VsyncEvent.workerVsync =
      es.count .workerVsync + if e = .workerVsync then 1 else 0 := by
  rw [List.count_append, List.count_singleton]
  simp only [beq_iff_eq]

theorem replies_concat (es : List VsyncEvent) (e : VsyncEvent) :
    replies (es ++ [e]) = replies es ++ e.reply?.toList := by
  unfold replies
  cases h : e.reply? <;> simp [List.filterMap_append, h]

/-- An event that neither reads a reply nor delivers one. -/
theorem Counted.congr (h : w.Counted es) (hr : e.reply? = none) (he : e ≠ .workerVsync)
    (hseq : t.seq = w.seq) (hvsyncs : t.vsyncs = w.vsyncs) (hw : w.workerPc ≠ .nullDereference)
    (hpending : t.undelivered = w.undelivered)
    (hcb : w.mCallBack ≠ none → t.mCallBack ≠ none)
    (hunborn : t.initPc = .call ∨ t.initPc = .createThread → t.workerPc = .notCreated) :
    t.Counted (es ++ [e]) := by
  have hreplies : replies (es ++ [e]) = replies es := by
    rw [replies_concat, hr]
    exact List.append_nil _
  have hcount : (es ++ [e]).count .workerVsync = es.count .workerVsync := by
    rw [count_concat, if_neg he, Nat.add_zero]
  constructor
  · rw [hvsyncs, h.delivered, completed, completed, hreplies, hcount]
  · intro _
    rw [hreplies, hcount, hseq, hpending]
    exact h.counter hw
  · rw [hpending]
    exact fun hone => hcb (h.callback hone)
  · exact hunborn

/-- `WaitNextVBlank` reads a reply. -/
theorem Counted.waitNextVBlank {reply : VBlankReply} (h : w.Counted es)
    (he : system.enabled w (.workerWaitNextVBlank reply)) :
    (w.workerWaitNextVBlank reply).Counted (es ++ [.workerWaitNextVBlank reply]) := by
  obtain ⟨hpc, hwait⟩ := he
  have hwait : w.workerPc = .waitNextVBlank := hwait
  obtain ⟨hseq, hlength⟩ := h.counter hpc
  rw [undelivered, hwait, Nat.add_zero] at hlength
  have hreplies : replies (es ++ [.workerWaitNextVBlank reply]) = replies es ++ [reply] :=
    replies_concat es _
  have hcount : (es ++ [VsyncEvent.workerWaitNextVBlank reply]).count .workerVsync =
      es.count .workerVsync := count_concat es _
  have hcompleted : completed (es ++ [.workerWaitNextVBlank reply]) = completed es := by
    rw [completed, completed, hreplies, hcount, List.take_append_of_le_length (by omega)]
  have hunborn : w.initPc = .call ∨ w.initPc = .createThread → w.workerPc = .notCreated := h.unborn
  rw [hwait] at hunborn
  unfold workerWaitNextVBlank
  cases hcb : w.mCallBack with
  | none =>
    exact ⟨by rw [hcompleted]; exact h.delivered, fun hnull => absurd rfl hnull, nofun,
      fun hi => nomatch hunborn hi⟩
  | some cb =>
    refine ⟨by rw [hcompleted]; exact h.delivered, fun _ => ⟨?_, ?_⟩, fun _ => nofun,
      fun hi => nomatch hunborn hi⟩
    · rw [hreplies, lastSeq_concat, ← hseq]
    · rw [hreplies, hcount, List.length_append, hlength]
      rfl

/-- The end of the body delivers the counter. -/
theorem Counted.vsync (h : w.Counted es) (he : system.enabled w .workerVsync) :
    w.workerVsync.Counted (es ++ [.workerVsync]) := by
  obtain ⟨hpc, time, htime⟩ := he
  obtain ⟨hseq, hlength⟩ := h.counter hpc
  have hone : w.undelivered = 1 := by rw [undelivered, htime]
  rw [hone] at hlength
  obtain ⟨cb, hcb⟩ := Option.ne_none_iff_exists'.mp (h.callback hone)
  have hreplies : replies (es ++ [.workerVsync]) = replies es := by
    rw [replies_concat]
    exact List.append_nil _
  have hcount : (es ++ [VsyncEvent.workerVsync]).count .workerVsync =
      es.count .workerVsync + 1 := count_concat es _
  have hcompleted : completed (es ++ [.workerVsync]) = replies es := by
    rw [completed, hreplies, hcount, ← hlength, List.take_length]
  have hunborn : w.initPc = .call ∨ w.initPc = .createThread → w.workerPc = .notCreated := h.unborn
  rw [htime] at hunborn
  simp only [workerVsync, htime, hcb]
  refine ⟨?_, fun _ => ⟨?_, ?_⟩, nofun, fun hi => nomatch hunborn hi⟩
  · rw [hcompleted, List.map_append, h.delivered, hseq, seqs_eq_take_append hlength]
    rfl
  · rw [hreplies]
    exact hseq
  · rw [hreplies, hcount]
    exact hlength

/-- A step of the worker that is neither. -/
theorem Counted.worker {pc pc' : WorkerPc} (h : w.Counted es) (hr : e.reply? = none)
    (he : e ≠ .workerVsync) (hpc : w.workerPc = pc)
    (hfrom : pc ≠ .nullDereference ∧ pc ≠ .notCreated ∧ ∀ time, pc ≠ .vsync time)
    (hto : ∀ time, pc' ≠ .vsync time) : Counted { w with workerPc := pc' } (es ++ [e]) := by
  subst hpc
  obtain ⟨hnull, hborn, hvsync⟩ := hfrom
  have hpending : undelivered { w with workerPc := pc' } = w.undelivered := by
    rw [undelivered_eq_zero hvsync, undelivered_eq_zero hto]
  exact h.congr hr he rfl rfl hnull hpending id fun hi => absurd (h.unborn hi) hborn

/-- **A step keeps the count.** -/
theorem Counted.step (h : w.Counted es) (he : system.enabled w e) :
    (system.step w e).Counted (es ++ [e]) := by
  have hpc : w.workerPc ≠ .nullDereference := he.1
  cases e with
  | workerWaitNextVBlank reply => exact h.waitNextVBlank he
  | workerVsync => exact h.vsync he
  | init fd =>
    have hcall : w.initPc = .call := he.2
    have hnot : w.workerPc = .notCreated := h.unborn (.inl hcall)
    show (w.init fd).Counted _
    unfold DrmVsyncWorker.init
    split
    · exact h.congr rfl nofun rfl rfl hpc rfl id fun _ => hnot
    · exact h.congr rfl nofun rfl rfl hpc rfl id fun _ => hnot
  | createThread created =>
    have hcall : w.initPc = .createThread := he.2
    have hnot : w.workerPc = .notCreated := h.unborn (.inr hcall)
    have hnone : w.undelivered = 0 := by rw [undelivered, hnot]
    cases created with
    | false => exact h.congr rfl nofun rfl rfl hpc rfl id fun _ => hnot
    | true => exact h.congr rfl nofun rfl rfl hpc hnone.symm id nofun
  | checkThread => exact h.congr rfl nofun rfl rfl hpc rfl id nofun
  | setRunning => exact h.congr rfl nofun rfl rfl hpc rfl id nofun
  | enableVsync enable => exact h.congr rfl nofun rfl rfl hpc rfl id h.unborn
  | reqesterVBlankCb cb =>
    cases cb with
    | none => exact h.congr rfl nofun rfl rfl hpc rfl id h.unborn
    | some cb => exact h.congr rfl nofun rfl rfl hpc rfl (fun _ => nofun) h.unborn
  | notify =>
    by_cases hwaiting : w.workerPc = .waiting
    · have hsame : w.notify = { w with notifies := w.notifies - 1, workerPc := .lock } := by
        rw [notify, if_pos hwaiting]
      have hnotified : Counted { w with notifies := w.notifies - 1 } es :=
        ⟨h.delivered, h.counter, h.callback, h.unborn⟩
      show w.notify.Counted _
      rw [hsame]
      exact hnotified.worker rfl nofun hwaiting ⟨nofun, nofun, nofun⟩ nofun
    · have hsame : w.notify = { w with notifies := w.notifies - 1 } := by
        rw [notify, if_neg hwaiting]
      show w.notify.Counted _
      rw [hsame]
      exact h.congr rfl nofun rfl rfl hpc rfl id h.unborn
  | workerLock => exact h.worker rfl nofun he.2 ⟨nofun, nofun, nofun⟩ nofun
  | workerPredicate =>
    refine h.worker rfl nofun he.2 ⟨nofun, nofun, nofun⟩ fun time => ?_
    split <;> exact nofun
  | workerWake => exact h.worker rfl nofun he.2 ⟨nofun, nofun, nofun⟩ nofun
  | workerReturn =>
    refine h.worker rfl nofun he.2 ⟨nofun, nofun, nofun⟩ fun time => ?_
    split <;> exact nofun

theorem Fresh.counted (h : w.Fresh) : w.Counted [] := by
  obtain ⟨-, -, hpc⟩ := h.init
  have hzero : w.undelivered = 0 := undelivered_eq_zero (by simp [hpc])
  refine ⟨?_, fun _ => ⟨h.seq, ?_⟩, ?_, fun _ => hpc⟩
  · rw [h.vsyncs]
    rfl
  · rw [hzero]
    rfl
  · rw [hzero]
    exact nofun

/-- **The worker delivers the counter of each completed iteration, in their order.** -/
theorem Fresh.counted_run (h : w.Fresh) (hr : system.Run w es t) : t.Counted es :=
  hr.invariant_events (I := Counted) (fun _ _ _ hs he => hs.step he) h.counted

/-- **Where the numbers of the driver ascend, those that the worker delivers do just in case each
number of the driver that comes after simulated vsyncs is ahead of them.** -/
theorem ascending_iff (hw : w.Fresh) (hr : system.Run w es t) (hes : HardwareAscends (replies es)) :
    t.Ascending ↔ TakesOver 0 0 (completed es) := by
  have hcompleted : HardwareAscends (completed es) :=
    hes.prefix ((List.take_prefix _ _).filterMap _)
  unfold Ascending
  rw [(hw.counted_run hr).delivered]
  exact isChain_seqs_zero_iff hcompleted

/-! ### A repeated number -/

/-- Another iteration, with this reply. -/
def iteration (reply : VBlankReply) : List VsyncEvent :=
  [.workerLock, .workerPredicate, .workerReturn, .workerWaitNextVBlank reply, .workerVsync]

/-- `Init` and a callback, then an iteration for each of the replies. -/
def iterations (rs : List VBlankReply) : List VsyncEvent :=
  [.init 5, .createThread true, .checkThread, .setRunning, .reqesterVBlankCb (some ⟨1, 0⟩),
    .enableVsync true] ++ rs.flatMap iteration

/-- The driver fails once, and has counted past the simulated vsync then. -/
def aheadReplies : List VBlankReply := [.vblank 10 0 0, .failed 0 0, .vblank 12 0 0]

theorem fresh_default : Fresh {} := ⟨⟨rfl, rfl, rfl⟩, rfl, rfl⟩

theorem ascending_iff_run : (sampleRun (iterations aheadReplies)).Ascending := by
  have hr : system.Run {} (iterations aheadReplies) (sampleRun (iterations aheadReplies)) :=
    System.Run.of_enabledAll (by decide)
  refine (ascending_iff fresh_default hr ?_).mpr ?_
  · decide
  · exact ⟨nofun, fun _ => by decide, trivial⟩

/-- The driver fails once, and its next number is the one that was simulated. -/
theorem repeated_number : ∃ es, Fresh {} ∧ system.Run {} es (sampleRun es) ∧
    es = iterations [.vblank 10 0 0, .failed 0 0, .vblank 11 0 0] ∧
    HardwareAscends (replies es) ∧ ((sampleRun es).vsyncs.map fun x => x.2.1) = [10, 11, 11] ∧
    ¬ (sampleRun es).Ascending := by
  refine ⟨_, fresh_default, System.Run.of_enabledAll (by decide), rfl, ?_, ?_, ?_⟩
  · decide
  · decide
  · decide

end DrmVsyncWorker

end Composer
