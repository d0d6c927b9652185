import OpenHarmonyMac.Appspawn.Children
import OpenHarmonyMac.Appspawn.Truthful

/-!
# The table of spawned processes

`appQueue` lists the children whose start was reported as a success and that still run. The pipe
handler fills it, the signal handler empties it, and the queue of contexts decides which of the
two a death concerns.

* `Tracked` — the law that ties the table to the children, the contexts and the answers
* `table_exact` — the table is what was answered with 0 and is not reaped, and a child that is
  reaped before its answer is handled never gets there
-/

namespace Appspawn

open Infra

variable {k : Codes} {s s' : Server} {n : NodeId} {pid : Int} {ctx : AppSpawningCtx}

/-- The request was answered with result 0. -/
def Server.Succeeded (s : Server) (n : NodeId) : Prop := ∃ r ∈ s.sent, r.message = n ∧ r.result = 0

/-- The law of the table. -/
structure Tracked (k : Codes) (s : Server) : Prop where
  children : Children s.procs
  handedLt : ∀ p ∈ s.procs, ∀ n ∈ p.handedTo, n < s.nextId
  /-- The child of a waiting request runs. -/
  waiting : ∀ ctx ∈ s.appSpawnQueue, ctx.state = .spawning ∧
    (0 < ctx.pid → ∃ p ∈ s.procs, p.pid = ctx.pid ∧ p.reaped = false ∧ ctx.message.id ∈ p.handedTo)
  /-- The child of an entry runs. Only the entry of nwebspawn has no request. -/
  entries : ∀ a ∈ s.appQueue, ∃ p ∈ s.procs, p.pid = a.pid ∧ p.reaped = false ∧
    p.handedTo = a.request.toList ∧
      (a.request = none → p.prefork = none ∧ a.name = k.nwebspawnServerName)
  pids : (s.appQueue.map (·.pid)).Nodup
  listed : ∀ a ∈ s.appQueue, ∀ n ∈ a.request, n ∈ s.added
  /-- Whoever was added has a child, which is in the table until it is reaped and removed. -/
  added : ∀ n ∈ s.added, ∃ p ∈ s.procs, n ∈ p.handedTo ∧ (n ∈ s.removed ↔ p.reaped = true) ∧
    (p.reaped = false → ∃ a ∈ s.appQueue, a.request = some n)
  added_nodup : s.added.Nodup
  removed_nodup : s.removed.Nodup
  removed_added : ∀ n ∈ s.removed, n ∈ s.added
  added_iff : ∀ n, n ∈ s.added ↔ s.Succeeded n

/-! ## Steps that leave the table alone -/

/-- The children, the table and the successes stay, and no context is added. -/
theorem Tracked.congr (h : Tracked k s) (hprocs : s'.procs = s.procs)
    (hnext : s.nextId ≤ s'.nextId) (hqueue : ∀ ctx ∈ s'.appSpawnQueue, ctx ∈ s.appSpawnQueue)
    (happ : s'.appQueue = s.appQueue) (hadded : s'.added = s.added)
    (hremoved : s'.removed = s.removed) (hsent : ∀ n, s'.Succeeded n ↔ s.Succeeded n) :
    Tracked k s' where
  children := hprocs ▸ h.children
  handedLt p hp n hn := Nat.lt_of_lt_of_le (h.handedLt p (hprocs ▸ hp) n hn) hnext
  waiting ctx hc := hprocs ▸ h.waiting ctx (hqueue ctx hc)
  entries a ha := hprocs ▸ h.entries a (happ ▸ ha)
  pids := happ ▸ h.pids
  listed a ha n hn := hadded ▸ h.listed a (happ ▸ ha) n hn
  added n hn := by
    rw [hprocs, happ, hremoved]
    exact h.added n (hadded ▸ hn)
  added_nodup := hadded ▸ h.added_nodup
  removed_nodup := hremoved ▸ h.removed_nodup
  removed_added n hn := hadded ▸ h.removed_added n (hremoved ▸ hn)
  added_iff n := by
    rw [hadded, hsent]
    exact h.added_iff n

theorem succeeded_of_sends (h : Sends Response.Failure s s') : s'.Succeeded n ↔ s.Succeeded n := by
  obtain ⟨news, he, hp⟩ := h
  simp only [Server.Succeeded, he, List.mem_append]
  constructor
  · rintro ⟨r, hr | hr, hn, h0⟩
    · exact absurd h0 (hp r hr)
    · exact ⟨r, hr, hn, h0⟩
  · rintro ⟨r, hr, hn, h0⟩
    exact ⟨r, Or.inr hr, hn, h0⟩

theorem Tracked.answer_failure (h : Tracked k s) (ctx : AppSpawningCtx) {result : Int}
    (hr : result ≠ 0) (pid : Int) : Tracked k (s.answer ctx result pid) :=
  h.congr (by simp) (by simp) (fun c hc => by simp at hc; exact hc.1) (by simp) (by simp) (by simp)
    (fun _ => succeeded_of_sends (Sends.answer hr))

/-! ## Children and their entries -/

/-- The entry with the pid of a running child is for the request of that child. -/
theorem Tracked.handedTo_of_entry (h : Tracked k s) {p : Proc} (hp : p ∈ s.procs)
    (hrun : p.reaped = false) {a : AppSpawnedProcess} (ha : a ∈ s.appQueue) (hpid : a.pid = p.pid) :
    p.handedTo = a.request.toList := by
  obtain ⟨q, hq, hqpid, hqrun, hlist, -⟩ := h.entries a ha
  rw [← h.children.distinct q hq p hp hqrun hrun (hqpid.trans hpid)]
  exact hlist

/-- The running child of a request that was added has an entry. -/
theorem Tracked.exists_entry (h : Tracked k s) {p : Proc} (hp : p ∈ s.procs)
    (hrun : p.reaped = false) (hn : n ∈ p.handedTo) (ha : n ∈ s.added) :
    ∃ a ∈ s.appQueue, a.request = some n ∧ a.pid = p.pid := by
  obtain ⟨q, hq, hqn, -, hent⟩ := h.added n ha
  have hqp : q = p := h.children.handed q hq p hp n hqn hn
  obtain ⟨a, haq, hreq⟩ := hent (hqp ▸ hrun)
  -- the child of the entry has the request too, so it is the same child
  obtain ⟨q', hq', hpid, -, hlist, -⟩ := h.entries a haq
  have hm : n ∈ q'.handedTo := by
    rw [hlist, hreq]
    exact List.mem_singleton_self n
  rw [h.children.handed q' hq' p hp n hm hn] at hpid
  exact ⟨a, haq, hreq, hpid.symm⟩

theorem Tracked.not_removed (h : Tracked k s) {p : Proc} (hp : p ∈ s.procs) (hn : n ∈ p.handedTo)
    (hr : p.reaped = false) (ha : n ∈ s.added) : n ∉ s.removed := by
  obtain ⟨q, hq, hnq, hiff, -⟩ := h.added n ha
  rw [h.children.handed q hq p hp n hnq hn, hr] at hiff
  exact fun hm => absurd (hiff.mp hm) (by decide)

theorem eq_singleton_of_mem (h : HandedOnce s.procs) {p : Proc} (hp : p ∈ s.procs)
    (hn : n ∈ p.handedTo) : p.handedTo = [n] := by
  obtain ⟨m, hm⟩ := List.length_eq_one_iff.mp
    (Nat.le_antisymm (h.once p hp) (List.length_pos_of_mem hn))
  rw [hm] at hn ⊢
  rw [List.mem_singleton.mp hn]

/-- The request of a running child was not removed yet, and it is one request. -/
theorem Tracked.removed_append_nodup (h : Tracked k s) (honce : HandedOnce s.procs) {p : Proc}
    (hp : p ∈ s.procs) (hrun : p.reaped = false) :
    (p.handedTo.filter (fun n => n ∈ s.added) ++ s.removed).Nodup := by
  refine List.nodup_append.mpr ⟨List.Nodup.filter _ ?_, h.removed_nodup, fun x hx y hy he => ?_⟩
  · cases hl : p.handedTo with
    | nil => exact List.nodup_nil
    | cons m ms =>
      have hm : m ∈ p.handedTo := hl ▸ List.mem_cons_self
      rw [← hl, eq_singleton_of_mem honce hp hm]
      exact List.nodup_singleton m
  · obtain ⟨hm, ha⟩ := List.mem_filter.mp hx
    exact h.not_removed hp hm hrun (of_decide_eq_true ha) (he ▸ hy)

/-! ## A success -/

/-- The entry that `ProcessChildResponse` makes. -/
def AppSpawningCtx.entry (ctx : AppSpawningCtx) : AppSpawnedProcess where
  pid := ctx.pid
  name := ctx.message.msg.bundleName
  isDebuggable := ctx.message.msg.checkFlagsSet .debuggable
  uid := ctx.message.msg.dacUid.getD 0
  request := some ctx.message.id

/-- The pipe handler adds the child of a waiting request. -/
theorem Tracked.answer_success (h : Tracked k s) (honce : HandedOnce s.procs)
    (hctx : ctx ∈ s.appSpawnQueue) (hpos : 0 < ctx.pid) (hnew : ctx.message.id ∉ s.added) :
    Tracked k (((s.use ctx.message.id).addSpawnedProcess ctx).answer ctx 0 ctx.pid) := by
  obtain ⟨p, hp, hpid, hrun, hmem⟩ := (h.waiting ctx hctx).2 hpos
  have hfree : ∀ a ∈ s.appQueue, a.pid ≠ ctx.pid := by
    -- an entry with this pid would be for the request, which was not added yet
    intro a ha he
    rw [h.handedTo_of_entry hp hrun ha (he.trans hpid.symm)] at hmem
    exact hnew (h.listed a ha _ (Option.mem_toList.mp hmem))
  constructor
  case children =>
    exact h.children
  case handedLt =>
    exact h.handedLt
  case waiting =>
    intro c hc
    exact h.waiting c (List.mem_filter.mp hc).1
  case entries =>
    intro a ha
    rcases List.mem_append.mp ha with ha | ha
    · exact h.entries a ha
    · rw [List.mem_singleton.mp ha]
      exact ⟨p, hp, hpid, hrun, eq_singleton_of_mem honce hp hmem, fun hnone => by cases hnone⟩
  case pids =>
    show ((s.appQueue ++ [ctx.entry]).map (·.pid)).Nodup
    rw [List.map_append, List.nodup_append]
    refine ⟨h.pids, by simp, fun x hx y hy => ?_⟩
    obtain ⟨a, ha, rfl⟩ := List.mem_map.mp hx
    rw [List.mem_singleton.mp hy]
    exact hfree a ha
  case listed =>
    intro a ha n hn
    rcases List.mem_append.mp ha with ha | ha
    · exact List.mem_cons_of_mem _ (h.listed a ha n hn)
    · rw [List.mem_singleton.mp ha] at hn
      obtain rfl := Option.some.inj hn
      exact List.mem_cons_self
  case added =>
    intro n hn
    rcases List.mem_cons.mp hn with rfl | hn
    · refine ⟨p, hp, hmem, ?_, fun _ => ⟨ctx.entry, ?_, rfl⟩⟩
      · rw [hrun]
        exact ⟨fun hm => absurd (h.removed_added _ hm) hnew, fun hf => absurd hf (by decide)⟩
      · exact List.mem_append_right _ List.mem_cons_self
    · obtain ⟨q, hq, hqn, hiff, hent⟩ := h.added n hn
      refine ⟨q, hq, hqn, hiff, fun hr => ?_⟩
      obtain ⟨a, ha, hreq⟩ := hent hr
      exact ⟨a, List.mem_append_left _ ha, hreq⟩
  case added_nodup =>
    exact List.nodup_cons.mpr ⟨hnew, h.added_nodup⟩
  case removed_nodup =>
    exact h.removed_nodup
  case removed_added =>
    exact fun n hn => List.mem_cons_of_mem _ (h.removed_added n hn)
  case added_iff =>
    intro n
    constructor
    · intro hn
      rcases List.mem_cons.mp hn with rfl | hn
      · exact ⟨_, List.mem_cons_self, rfl, rfl⟩
      · obtain ⟨r, hr, hc⟩ := (h.added_iff n).mp hn
        exact ⟨r, List.mem_cons_of_mem _ hr, hc⟩
    · rintro ⟨r, hr, rfl, h0⟩
      rcases List.mem_cons.mp hr with rfl | hr
      · exact List.mem_cons_self
      · exact List.mem_cons_of_mem _ ((h.added_iff _).mpr ⟨r, hr, rfl, h0⟩)

/-! ## A death -/

/-- The request of the child that dies is removed with it, and another child keeps its entry. -/
theorem Tracked.added_of_reap (h : Tracked k s) {p : Proc} (hp : p ∈ s.procs)
    (hrun : p.reaped = false) (hprocs : s'.procs = updateProc Proc.markReaped p.pid s.procs)
    (happ : ∀ a, a ∈ s'.appQueue ↔ a ∈ s.appQueue ∧ a.pid ≠ p.pid)
    (hremoved : s'.removed = p.handedTo.filter (fun n => n ∈ s.added) ++ s.removed)
    (hn : n ∈ s.added) :
    ∃ q ∈ s'.procs, n ∈ q.handedTo ∧ (n ∈ s'.removed ↔ q.reaped = true) ∧
      (q.reaped = false → ∃ a ∈ s'.appQueue, a.request = some n) := by
  obtain ⟨q, hq, hm, hiff, hent⟩ := h.added n hn
  by_cases hqp : q = p
  · subst hqp
    have hdead : q.markReaped ∈ s'.procs := hprocs ▸ markReaped_mem_reap hq hrun
    refine ⟨q.markReaped, hdead, hm, ⟨fun _ => rfl, fun _ => ?_⟩, fun hr => by cases hr⟩
    rw [hremoved]
    exact List.mem_append_left _ (List.mem_filter.mpr ⟨hm, decide_eq_true hn⟩)
  · have hkept : q ∈ s'.procs := hprocs ▸ h.children.mem_reap_of_ne hp hrun hq hqp
    refine ⟨q, hkept, hm, ?_, fun hr => ?_⟩
    · rw [hremoved, List.mem_append, ← hiff]
      refine ⟨fun hor => ?_, Or.inr⟩
      rcases hor with hf | hold
      · exact absurd (h.children.handed q hq p hp n hm (List.mem_filter.mp hf).1) hqp
      · exact hold
    · -- the entries of both children would be for one request
      obtain ⟨a, ha, hreq⟩ := hent hr
      refine ⟨a, (happ a).mpr ⟨ha, fun he => hqp ?_⟩, hreq⟩
      refine h.children.handed q hq p hp n hm ?_
      rw [h.handedTo_of_entry hp hrun ha he, hreq]
      exact List.mem_singleton_self n

/-- The child `p` is reaped, and its entry is taken out. -/
theorem Tracked.reap (h : Tracked k s) {p : Proc} (hp : p ∈ s.procs) (hrun : p.reaped = false)
    (hprocs : s'.procs = updateProc Proc.markReaped p.pid s.procs) (hnext : s'.nextId = s.nextId)
    (hqueue : ∀ c ∈ s'.appSpawnQueue,
      c ∈ s.appSpawnQueue ∧ (0 < c.pid → c.message.id ∉ p.handedTo))
    (happ : ∀ a, a ∈ s'.appQueue ↔ a ∈ s.appQueue ∧ a.pid ≠ p.pid)
    (hsub : s'.appQueue.Sublist s.appQueue) (hadded : s'.added = s.added)
    (hremoved : s'.removed = p.handedTo.filter (fun n => n ∈ s.added) ++ s.removed)
    (hsent : ∀ n, s'.Succeeded n ↔ s.Succeeded n) (honce : HandedOnce s.procs) :
    Tracked k s' := by
  -- only `p` changes
  have hkeep : ∀ q ∈ s.procs, q ≠ p → q ∈ s'.procs :=
    fun q hq hne => hprocs ▸ h.children.mem_reap_of_ne hp hrun hq hne
  have hfresh : Unhanded s.procs s.nextId := fun q hq hn => Nat.lt_irrefl _ (h.handedLt q hq _ hn)
  constructor
  case children =>
    rw [hprocs]
    exact h.children.update Proc.markReaped p.pid (fun _ => rfl) (fun _ => Or.inl rfl)
      (fun _ => Or.inl rfl) hfresh
  case handedLt =>
    intro q hq n hn
    rw [hprocs] at hq
    obtain ⟨q', hq', he⟩ := handedTo_of_mem_reap hq
    rw [hnext]
    exact h.handedLt q' hq' n (he ▸ hn)
  case waiting =>
    intro c hc
    obtain ⟨hold, hother⟩ := hqueue c hc
    obtain ⟨hstate, hchild⟩ := h.waiting c hold
    refine ⟨hstate, fun hpos => ?_⟩
    obtain ⟨q, hq, hpid, hr, hm⟩ := hchild hpos
    exact ⟨q, hkeep q hq (fun he => hother hpos (he ▸ hm)), hpid, hr, hm⟩
  case entries =>
    intro a ha
    obtain ⟨hold, hne⟩ := (happ a).mp ha
    obtain ⟨q, hq, hpid, hc⟩ := h.entries a hold
    exact ⟨q, hkeep q hq (fun he => hne (he ▸ hpid.symm)), hpid, hc⟩
  case pids =>
    exact h.pids.sublist (hsub.map _)
  case listed =>
    intro a ha n hn
    rw [hadded]
    exact h.listed a ((happ a).mp ha).1 n hn
  case added =>
    intro n hn
    rw [hadded] at hn
    exact h.added_of_reap hp hrun hprocs happ hremoved hn
  case added_nodup =>
    rw [hadded]
    exact h.added_nodup
  case removed_nodup =>
    rw [hremoved]
    exact h.removed_append_nodup honce hp hrun
  case removed_added =>
    intro n hn
    rw [hremoved] at hn
    rw [hadded]
    rcases List.mem_append.mp hn with hn | hn
    · exact of_decide_eq_true (List.mem_filter.mp hn).2
    · exact h.removed_added n hn
  case added_iff =>
    intro n
    rw [hadded, hsent]
    exact h.added_iff n

theorem stopAppSpawn_loopStopped (k : Codes) (s : Server) :
    (stopAppSpawn k s).loopStopped = true := rfl

/-- A running child without an entry belongs to no request that succeeded. -/
theorem Tracked.not_added (h : Tracked k s) {p : Proc} (hp : p ∈ s.procs)
    (hrun : p.reaped = false) (hentry : ∀ a ∈ s.appQueue, a.pid ≠ p.pid) :
    ∀ n ∈ p.handedTo, n ∉ s.added := by
  intro n hn ha
  obtain ⟨a, haq, -, hpid⟩ := h.exists_entry hp hrun hn ha
  exact hentry a haq hpid

/-- The server when `waitpid` has reported a child. -/
def Server.reported (s : Server) (content : AppSpawnContent) (pid : Int) : Server :=
  { s with content := content, procs := updateProc Proc.markReaped pid s.procs }

theorem collect_eq (s : Server) (pid : Int) : ∃ content, collect s pid = s.reported content pid := by
  unfold collect
  split
  · exact ⟨_, rfl⟩
  · exact ⟨_, rfl⟩

theorem waiting_child (h : Tracked k s) {p : Proc} (hp : p ∈ s.procs) (hrun : p.reaped = false)
    (hctx : ctx ∈ s.appSpawnQueue) (hpid : ctx.pid = p.pid) : ctx.message.id ∈ p.handedTo := by
  obtain ⟨q, hq, hqpid, hqrun, hm⟩ :=
    (h.waiting ctx hctx).2 (hpid ▸ h.children.positive p hp)
  rwa [h.children.distinct q hq p hp hqrun hrun (hqpid.trans hpid)] at hm

/-- A child dies that has no entry. Its context, if it has one, is answered. -/
theorem tracked_waitChildDied (h : Tracked k s) (honce : HandedOnce s.procs) {p : Proc}
    (hp : p ∈ s.procs) (hrun : p.reaped = false) (hentry : ∀ a ∈ s.appQueue, a.pid ≠ p.pid)
    (content : AppSpawnContent) :
    (waitChildDied k (s.reported content p.pid) p.pid).loopStopped = true ∨
      Tracked k (waitChildDied k (s.reported content p.pid) p.pid) := by
  have hnone : p.handedTo.filter (fun n => n ∈ s.added) = [] :=
    List.filter_eq_nil_iff.mpr (fun n hn => by
      rw [decide_eq_true_eq]
      exact h.not_added hp hrun hentry n hn)
  have happ : ∀ a, a ∈ s.appQueue ↔ a ∈ s.appQueue ∧ a.pid ≠ p.pid :=
    fun a => ⟨fun ha => ⟨ha, hentry a ha⟩, fun ha => ha.1⟩
  unfold waitChildDied
  split
  · next hf =>
    refine Or.inr (h.reap hp hrun rfl rfl (fun c hc => ⟨hc, fun hpos hm => ?_⟩) happ
      (List.Sublist.refl _) rfl (by rw [hnone]; rfl) (fun n => Iff.rfl) honce)
    obtain ⟨q, hq, hpid, -, hmem⟩ := (h.waiting c hc).2 hpos
    rw [h.children.handed q hq p hp _ hmem hm] at hpid
    exact List.find?_eq_none.mp hf c hc (beq_iff_eq.mpr hpid.symm)
  · next ctx hf =>
    have hctx : ctx ∈ s.appSpawnQueue := List.mem_of_find?_eq_some hf
    have hpid : ctx.pid = p.pid := by simpa using List.find?_some hf
    have hm := waiting_child h hp hrun hctx hpid
    rw [if_pos (h.waiting ctx hctx).1]
    simp only
    split
    · exact Or.inl (stopAppSpawn_loopStopped k _)
    · refine Or.inr (h.reap hp hrun rfl rfl (fun c hc => ?_) happ (List.Sublist.refl _) rfl
        (by rw [hnone]; rfl) (fun n => ?_) honce)
      · obtain ⟨hc, hne⟩ := List.mem_filter.mp hc
        refine ⟨hc, fun _ hm' => ?_⟩
        rw [eq_singleton_of_mem honce hp hm, List.mem_singleton] at hm'
        simp [hm'] at hne
      · exact succeeded_of_sends (s := s.reported content p.pid) (Sends.answer k.ne_zero.2.2.1)

/-- **`HandleDiedPid` keeps the table**, or stops the server. -/
theorem tracked_handleDiedPid (h : Tracked k s) (honce : HandedOnce s.procs)
    (hfresh : ∀ ctx ∈ s.appSpawnQueue, ctx.message.id ∉ s.added) {p : Proc} (hp : p ∈ s.procs)
    (hrun : p.reaped = false) :
    (handleDiedPid k s p.pid).loopStopped = true ∨ Tracked k (handleDiedPid k s p.pid) := by
  obtain ⟨content, hcol⟩ := collect_eq s p.pid
  simp only [handleDiedPid, hcol]
  split
  · next hf =>
    refine tracked_waitChildDied h honce hp hrun (fun a ha he => ?_) content
    exact List.find?_eq_none.mp hf a ha (beq_iff_eq.mpr he)
  · next app hf =>
    have happ : app ∈ s.appQueue := List.mem_of_find?_eq_some hf
    have hpid : app.pid = p.pid := by simpa using List.find?_some hf
    split
    · exact Or.inl (stopAppSpawn_loopStopped k _)
    · next hname =>
      have hlist : p.handedTo = app.request.toList := h.handedTo_of_entry hp hrun happ hpid
      have hmem : ∀ n ∈ p.handedTo, n ∈ s.added := fun n hn =>
        h.listed app happ n (Option.mem_toList.mp (hlist ▸ hn))
      refine Or.inr (h.reap hp hrun rfl rfl (fun c hc => ⟨hc, fun _ hm => ?_⟩) (fun a => ?_)
        List.erase_sublist rfl ?_ (fun n => Iff.rfl) honce)
      · exact hfresh c hc (hmem _ hm)
      · show a ∈ s.appQueue.erase app ↔ _
        rw [(List.Nodup.of_map _ h.pids).mem_erase_iff, ← hpid]
        constructor
        · rintro ⟨hne, ha⟩
          exact ⟨ha, fun he => hne (List.inj_on_of_nodup_map h.pids ha happ he)⟩
        · rintro ⟨ha, hne⟩
          exact ⟨fun he => hne (he ▸ rfl), ha⟩
      · show app.request.toList ++ s.removed = _
        rw [List.filter_eq_self.mpr (fun n hn => decide_eq_true (hmem n hn)), hlist]

/-! ## A request -/

/-- A request gets its child, and waits for it if it was started. -/
theorem Tracked.start (h : Tracked k s) {r : Started} (hs : StartsOne n s.procs r)
    (hprocs : s'.procs = r.procs) (hlt : n < s'.nextId) (hnext : s.nextId ≤ s'.nextId)
    (hqueue : ∀ c ∈ s'.appSpawnQueue, c ∈ s.appSpawnQueue ∨
      (c.state = .spawning ∧ c.message.id = n ∧ c.pid = r.childPid ∧ r.ret = 0))
    (happ : s'.appQueue = s.appQueue) (hadded : s'.added = s.added)
    (hremoved : s'.removed = s.removed) (hsent : ∀ n, s'.Succeeded n ↔ s.Succeeded n) :
    Tracked k s' where
  children := hprocs ▸ hs.children
  handedLt p hp m hm := by
    by_cases he : m = n
    · exact he ▸ hlt
    · exact Nat.lt_of_lt_of_le (h.handedLt p (hs.extend.handed p (hprocs ▸ hp) m hm he) m hm) hnext
  waiting c hc := by
    rw [hprocs]
    rcases hqueue c hc with hold | ⟨hstate, hid, hpid, hret⟩
    · obtain ⟨hstate, hchild⟩ := h.waiting c hold
      refine ⟨hstate, fun hpos => ?_⟩
      obtain ⟨p, hp, hrest⟩ := hchild hpos
      exact ⟨p, hs.extend.keeps p hp (Or.inl (List.ne_nil_of_mem hrest.2.2)), hrest⟩
    · rw [hid, hpid]
      exact ⟨hstate, hs.child hret⟩
  entries a ha := by
    rw [happ] at ha
    obtain ⟨p, hp, hpid, hrun, hlist, hreq⟩ := h.entries a ha
    refine ⟨p, hprocs ▸ hs.extend.keeps p hp ?_, hpid, hrun, hlist, hreq⟩
    cases hn : a.request with
    | none => exact Or.inr (hreq hn).1
    | some m =>
      rw [hlist, hn]
      exact Or.inl (List.cons_ne_nil m [])
  pids := happ ▸ h.pids
  listed a ha m hm := hadded ▸ h.listed a (happ ▸ ha) m hm
  added m hm := by
    obtain ⟨p, hp, hmem, hrest⟩ := h.added m (hadded ▸ hm)
    rw [hprocs, happ, hremoved]
    exact ⟨p, hs.extend.keeps p hp (Or.inl (List.ne_nil_of_mem hmem)), hmem, hrest⟩
  added_nodup := hadded ▸ h.added_nodup
  removed_nodup := hremoved ▸ h.removed_nodup
  removed_added m hm := hadded ▸ h.removed_added m (hremoved ▸ hm)
  added_iff m := by
    rw [hadded, hsent]
    exact h.added_iff m

/-- The child of a new context is started and watched, or the context is answered at once. -/
theorem tracked_startChild (h : Tracked k s) {env : SpawnEnv} {client : AppSpawnClient}
    {m : AppSpawnMsgNode} (hs : StartsOne m.id s.procs (started k env s client m))
    (hlt : m.id < s.nextId) (hw : (started k env s client m).ret = 0 → env.Watches) :
    Tracked k (startChild k env s client m) := by
  have hsends := sends_startChild env s client m hw
  rw [startChild_eq k env s client m rfl rfl] at hsends ⊢
  generalize started k env s client m = r at hs hw hsends ⊢
  by_cases hr : r.ret = 0
  · rw [if_neg (not_not_intro hr),
      if_neg (not_not_intro (addChildWatcher_eq_zero env |>.mpr (hw hr)))] at hsends ⊢
    refine h.start hs rfl (Nat.lt_add_right 3 hlt) (Nat.le_add_right _ 3) (fun c hc => ?_) rfl rfl rfl
      (fun _ => succeeded_of_sends hsends)
    rcases List.mem_append.mp hc with hc | hc
    · exact Or.inl hc
    · rw [List.mem_singleton.mp hc]
      exact Or.inr ⟨rfl, rfl, rfl, hr⟩
  · rw [if_pos hr] at hsends ⊢
    refine h.start hs rfl (Nat.lt_add_right 3 hlt) (Nat.le_add_right _ 3) (fun c hc => ?_) rfl rfl rfl
      (fun _ => succeeded_of_sends hsends)
    obtain ⟨hc, hne⟩ := List.mem_filter.mp hc
    rcases List.mem_append.mp hc with hc | hc
    · exact Or.inl hc
    · rw [List.mem_singleton.mp hc] at hne
      simp [spawningCtx] at hne

/-- **A spawn request keeps the table**, if its child is watched when it is started. -/
theorem tracked_spawnRequest {c : ConnId} {msg : AppSpawnMsg} {env : SpawnEnv} (h : Tracked k s)
    (hres : Reserved s.content s.procs) (hposs : env.Possible s)
    (hheard : Heard k s (.spawnRequest c msg env)) :
    Tracked k (s.step k (.spawnRequest c msg env)) := by
  have h₀ : Tracked k ((s.createAppSpawnMsg.use s.nextId).noteRequest c s.nextId) :=
    h.congr rfl (Nat.le_add_right _ 1) (fun _ hc => hc) rfl rfl rfl (fun _ => Iff.rfl)
  have hrefuse : ∀ result : Int, result ≠ 0 → Tracked k
      (((s.createAppSpawnMsg.use s.nextId).noteRequest c s.nextId).refuse c
        { id := s.nextId, msg } result) := by
    intro result hne
    exact h₀.congr (by simp) (by simp) (fun _ hc => by simpa using hc) (by simp) (by simp) (by simp)
      (fun _ => succeeded_of_sends (Sends.refuse hne))
  simp only [Server.step, processSpawnReqMsg]
  split
  · next hc => exact hrefuse _ hc
  · next hc =>
    split
    · exact hrefuse _ k.ne_zero.1
    · next client hx =>
      have hone : StartsOne s.nextId s.procs (started k env
          ((s.createAppSpawnMsg.use s.nextId).noteRequest c s.nextId) client
          (spawnMessage env c { id := s.nextId, msg })) :=
        startsOne_runAppSpawnProcessMsg h.children
          (fun q hq hn => Nat.lt_irrefl _ (h.handedLt q hq _ hn)) hres
          (fun pid hp => ⟨(hposs.fork pid hp).1, waitable_eq_false.mp (hposs.fork pid hp).2⟩)
          (fun pid hp =>
            ⟨(hposs.preforkFork pid hp).1, waitable_eq_false.mp (hposs.preforkFork pid hp).2⟩)
          hposs.distinct
      refine tracked_startChild h₀ hone (Nat.lt_succ_self _) (fun hr => ?_)
      exact hheard client hx (not_not.mp hc) (runAppSpawnProcessMsg_ret env _ _ _ _ _ _ |>.mp hr)

/-! ## Signals -/

theorem pending_not_added (h : Tracked k s) (hs : s.ledger.Sound) (hctx : ctx ∈ s.appSpawnQueue) :
    ctx.message.id ∉ s.added := by
  intro ha
  obtain ⟨r, hr, hm, -⟩ := (h.added_iff _).mp ha
  exact (OneResponse.of_sound hs).dequeued r hr ⟨ctx, hctx, hm.symm⟩

/-- What holds between two deaths that one signal reports, also when the first stopped the
server. -/
structure MidSignal (k : Codes) (s : Server) : Prop where
  sound : s.ledger.Sound
  reserved : Reserved s.content s.procs
  tracked : s.loopStopped = false → Tracked k s

theorem MidSignal.died (h : MidSignal k s) (pid : Int) : MidSignal k (reapChild k s pid) := by
  unfold reapChild
  split
  · next hw =>
    obtain ⟨p, hp, rfl, hrun⟩ := waitable_iff.mp hw
    obtain ⟨as, hr⟩ := (Settles.of_effects (effects_handleDiedPid k s p.pid)).run
    refine ⟨h.sound.run hr, reserved_handleDiedPid h.reserved, fun hstop => ?_⟩
    have hgo : s.loopStopped = false := by
      by_contra hs
      rw [Bool.not_eq_false] at hs
      rw [Effects.loopStopped (effects_handleDiedPid k s p.pid) hs] at hstop
      cases hstop
    have ht := h.tracked hgo
    rcases tracked_handleDiedPid ht h.reserved.handed
      (fun _ hc => pending_not_added ht h.sound hc) hp hrun with hs | hs
    · rw [hs] at hstop
      cases hstop
    · exact hs
  · exact h

theorem MidSignal.sigchld (pids : List Int) : ∀ s, MidSignal k s →
    MidSignal k (pids.foldl (reapChild k) s) := by
  induction pids with
  | nil => exact fun _ h => h
  | cons pid pids ih => exact fun s h => ih _ (h.died pid)

theorem tracked_processSignal (h : MidSignal k s) (sig : Signal)
    (hstop : (processSignal k s sig).loopStopped = false) : Tracked k (processSignal k s sig) := by
  cases sig with
  | sigchld pids =>
    have hf := MidSignal.sigchld pids s h
    simp only [processSignal] at hstop ⊢
    split at hstop
    · cases hstop
    · next hn =>
      rw [if_neg hn]
      exact hf.tracked hstop
  | sigterm => cases hstop
  | other => exact h.tracked hstop

/-! ## Whole runs -/

/-- Nothing outside the children fails: a reserved process is replaced, a child that is started
is watched, `AddSpawnedProcess` makes its entry, and a pipe that becomes readable has a child. -/
def Undisturbed (k : Codes) (s : Server) : Event → Prop
  | .spawnRequest c msg env =>
    ReplacesReserved k s (.spawnRequest c msg env) ∧ Heard k s (.spawnRequest c msg env)
  | .childResponse n _ added => added = true ∧ ∀ ctx ∈ s.contextOf n, 0 < ctx.pid
  | _ => True

theorem tracked_step {e : Event} (h : Tracked k s) (hs : s.ledger.Sound)
    (hres : Reserved s.content s.procs) (he : (system k).enabled s e) (hok : Undisturbed k s e)
    (hstop : (s.step k e).loopStopped = false) : Tracked k (s.step k e) := by
  cases e with
  | connection cred dev =>
    simp only [Server.step, onConnection]
    split
    · exact h
    · split
      · exact h.congr rfl (Nat.le_add_right _ 1) (fun _ hc => hc) rfl rfl rfl (fun _ => Iff.rfl)
      · exact h
  | spawnRequest c msg env => exact tracked_spawnRequest h hres he.2.2 hok.2
  | childResponse n bytes added =>
    obtain ⟨hadd, hpos⟩ := hok
    simp only [Server.step]
    split
    · exact h
    · next ctx hf =>
      have hctx := List.mem_of_find?_eq_some hf
      by_cases hr : readResult bytes = 0
      · rw [processChildResponse_of_eq hr, if_pos hadd]
        exact h.answer_success hres.handed hctx (hpos ctx hf) (pending_not_added h hs hctx)
      · rw [processChildResponse_of_ne hr]
        have hu : Tracked k (s.use ctx.message.id) :=
          h.congr rfl (Nat.le_refl _) (fun _ hc => hc) rfl rfl rfl (fun _ => Iff.rfl)
        exact hu.answer_failure ctx hr ctx.pid
  | childTimeout n =>
    simp only [Server.step, waitChildTimeout]
    split
    · exact h
    · next ctx _ =>
      have hne : k.spawnTimeout ≠ 0 := k.ne_zero.2.2.2.1
      split
      · have hu : Tracked k ((s.use ctx.message.id).kill ctx.pid SIGKILL) :=
          h.congr rfl (Nat.le_refl _) (fun _ hc => hc) rfl rfl rfl (fun _ => Iff.rfl)
        exact hu.answer_failure ctx hne 0
      · have hu : Tracked k (s.use ctx.message.id) :=
          h.congr rfl (Nat.le_refl _) (fun _ hc => hc) rfl rfl rfl (fun _ => Iff.rfl)
        exact hu.answer_failure ctx hne 0
  | signal sig => exact tracked_processSignal ⟨hs, hres, fun _ => h⟩ sig hstop
  | close c =>
    obtain ⟨_, queue, _, _, _, heq, hsub⟩ := closeTask_eq s c
    simp only [Server.step, heq]
    exact h.congr rfl (Nat.le_refl _) hsub rfl rfl rfl (fun _ => Iff.rfl)
  | sendComplete pid failed =>
    simp only [Server.step, sendMessageComplete]
    split
    · exact h
    · split
      · exact h.congr rfl (Nat.le_refl _) (fun _ hc => hc) rfl rfl rfl (fun _ => Iff.rfl)
      · exact h

theorem tracked_of_init (h : (system k).init s) : Tracked k s := by
  obtain ⟨content, nwebspawn, -, hpos, rfl⟩ := h
  have hproc : ∀ p ∈ nwebspawn.toList.map (fun pid => ({ pid } : Proc)),
      ∃ pid ∈ nwebspawn, p = { pid } := by
    intro p hp
    obtain ⟨pid, hpid, rfl⟩ := List.mem_map.mp hp
    exact ⟨pid, Option.mem_toList.mp hpid, rfl⟩
  constructor
  · refine ⟨fun p hp => ?_, fun p hp q hq _ _ _ => ?_, fun p hp q _ m hm _ => ?_⟩
    · obtain ⟨pid, hpid, rfl⟩ := hproc p hp
      exact hpos pid hpid
    · obtain ⟨pid, hpid, rfl⟩ := hproc p hp
      obtain ⟨pid', hpid', rfl⟩ := hproc q hq
      rw [Option.mem_unique hpid hpid']
    · obtain ⟨pid, -, rfl⟩ := hproc p hp
      cases hm
  · intro p hp n hn
    obtain ⟨pid, -, rfl⟩ := hproc p hp
    cases hn
  · exact fun ctx hc => absurd hc List.not_mem_nil
  · intro a ha
    obtain ⟨pid, hpid, rfl⟩ := List.mem_map.mp ha
    exact ⟨{ pid }, List.mem_map_of_mem hpid, rfl, rfl, rfl, fun _ => ⟨rfl, rfl⟩⟩
  · cases nwebspawn with
    | none => exact List.nodup_nil
    | some pid => exact List.nodup_singleton pid
  · intro a ha n hn
    obtain ⟨pid, -, rfl⟩ := List.mem_map.mp ha
    cases hn
  · exact fun n hn => absurd hn List.not_mem_nil
  · exact List.nodup_nil
  · exact List.nodup_nil
  · exact fun n hn => absurd hn List.not_mem_nil
  · refine fun n => ⟨fun hn => absurd hn List.not_mem_nil, ?_⟩
    rintro ⟨r, hr, -⟩
    cases hr

theorem midSignal_of_reachable (h : ((system k).restrict (Undisturbed k)).Reachable s) :
    MidSignal k s := by
  have hlaw : (s.ledger.Sound ∧ Numbered s) ∧ Reserved s.content s.procs ∧
      (s.loopStopped = false → Tracked k s) := by
    refine h.invariant (I := fun s => (s.ledger.Sound ∧ Numbered s) ∧
      Reserved s.content s.procs ∧ (s.loopStopped = false → Tracked k s)) ?_ ?_
    · intro s hi
      exact ⟨sound_of_reachable (System.Reachable.of_init hi), reserved_of_init hi,
        fun _ => tracked_of_init hi⟩
    · rintro s e ⟨hI, hres, ht⟩ ⟨he, hok⟩
      obtain ⟨hn, as, hrun⟩ := simulates_step hI he
      refine ⟨⟨hI.1.run hrun, hn⟩, (reserved_step_iff s e hres he).mpr ?_, fun hs => ?_⟩
      · cases e with
        | spawnRequest c msg env => exact hok.1
        | _ => trivial
      · exact tracked_step (ht he.1) hI.1 hres he hok hs
  exact ⟨hlaw.1.1, hlaw.2.1, hlaw.2.2⟩

/-- **The table while the loop runs.** -/
theorem tracked_of_reachable (h : ((system k).restrict (Undisturbed k)).Reachable s)
    (hstop : s.loopStopped = false) : Tracked k s :=
  (midSignal_of_reachable h).tracked hstop

/-- **In these runs the death of the child decides every request that waits for one.** Elsewhere a
process may have been handed two requests, and is found for one of them. -/
theorem decides_sigchld (h : ((system k).restrict (Undisturbed k)).Reachable s)
    (hstop : s.loopStopped = false) (hctx : ctx ∈ s.appSpawnQueue) (hpos : 0 < ctx.pid)
    {pids : List Int} (hmem : ctx.pid ∈ pids) :
    Decides k s ctx.message.id (.signal (.sigchld pids)) := by
  have hmid := midSignal_of_reachable h
  have ht := tracked_of_reachable h hstop
  obtain ⟨p, hp, hpid, hrun, hhanded⟩ := (ht.waiting ctx hctx).2 hpos
  have hnone : s.getSpawnedProcess ctx.pid = none := by
    refine List.find?_eq_none.mpr fun a ha hapid => ?_
    -- the child of an entry has its request, which was answered
    rw [ht.handedTo_of_entry hp hrun ha ((beq_iff_eq.mp hapid).trans hpid.symm)] at hhanded
    exact pending_not_added ht hmid.sound hctx (ht.listed a ha _ (Option.mem_toList.mp hhanded))
  cases hf : s.getAppSpawningCtxByPid ctx.pid with
  | none =>
    have hne := List.find?_eq_none.mp hf ctx hctx
    simp at hne
  | some ctx' =>
    have hpid' : ctx'.pid = ctx.pid := by simpa using List.find?_some hf
    have hid := waiting_child ht hp hrun (List.mem_of_find?_eq_some hf) (hpid'.trans hpid.symm)
    rw [eq_singleton_of_mem hmid.reserved.handed hp hhanded, List.mem_singleton] at hid
    rw [← hpid'] at hmem hnone hf hpid
    exact ⟨ctx', hid, hmem, waitable_iff.mpr ⟨p, hp, hpid, hrun⟩, hnone, hf⟩

/-! ## A child that is reaped before its answer is handled -/

/-- The request `n` is known, it waits for no child, and none was added for it. -/
structure NotAdded (n : NodeId) (s : Server) : Prop where
  known : n < s.nextId
  waits : ∀ ctx ∈ s.appSpawnQueue, ctx.message.id = n → ctx.pid ≤ 0
  added : n ∉ s.added

/-- No context is added to the queue and no child to the table. -/
theorem NotAdded.congr (h : NotAdded n s) (hnext : s'.nextId = s.nextId)
    (hqueue : ∀ ctx ∈ s'.appSpawnQueue, ctx ∈ s.appSpawnQueue) (hadded : s'.added = s.added) :
    NotAdded n s' where
  known := by rw [hnext]; exact h.known
  waits ctx hc := h.waits ctx (hqueue ctx hc)
  added := by rw [hadded]; exact h.added

theorem NotAdded.effects (h : NotAdded n s) (he : Effects s s') : NotAdded n s' := by
  induction he with
  | refl => exact h
  | tail _ he ih =>
    cases he with
    | answer ctx result pid _ _ =>
      exact ih.congr rfl (fun c hc => (List.mem_filter.mp hc).1) rfl
    | _ => exact ih.congr rfl (fun _ hc => hc) rfl

/-- A new context belongs to a request that is newer. -/
theorem NotAdded.startChild (h : NotAdded n s) (env : SpawnEnv) (client : AppSpawnClient)
    {m : AppSpawnMsgNode} (hne : m.id ≠ n) : NotAdded n (startChild k env s client m) := by
  have hspawned : NotAdded n (s.spawned (started k env s client m)
      (spawningCtx (started k env s client m) client m)) := by
    refine ⟨Nat.lt_add_right 3 h.known, fun ctx hc hid => ?_, h.added⟩
    rcases List.mem_append.mp hc with hc | hc
    · exact h.waits ctx hc hid
    · rw [List.mem_singleton.mp hc] at hid
      exact absurd hid hne
  rw [startChild_eq k env s client m rfl rfl]
  split
  · exact hspawned.congr rfl (fun c hc => (List.mem_filter.mp hc).1) rfl
  · split
    · exact hspawned.congr rfl (fun c hc => (List.mem_filter.mp hc).1) rfl
    · exact hspawned

theorem NotAdded.step (h : NotAdded n s) {e : Event} (hok : Undisturbed k s e) :
    NotAdded n (s.step k e) := by
  cases e with
  | connection cred dev =>
    simp only [Server.step, onConnection]
    split
    · exact h
    · split
      · exact ⟨Nat.lt_succ_of_lt h.known, h.waits, h.added⟩
      · exact h
  | spawnRequest c msg env =>
    have h₀ : NotAdded n ((s.createAppSpawnMsg.use s.nextId).noteRequest c s.nextId) :=
      ⟨Nat.lt_succ_of_lt h.known, h.waits, h.added⟩
    simp only [Server.step, processSpawnReqMsg]
    split
    · exact h₀.congr (by simp) (fun _ hc => by simpa using hc) (by simp)
    · split
      · exact h₀.congr (by simp) (fun _ hc => by simpa using hc) (by simp)
      · next client _ => exact h₀.startChild env client (Nat.ne_of_gt h.known)
  | childResponse m bytes added =>
    simp only [Server.step]
    split
    · exact h
    · next ctx hf =>
      have hne : n ≠ ctx.message.id := fun he =>
        absurd (h.waits ctx (List.mem_of_find?_eq_some hf) he.symm) (Int.not_le.mpr (hok.2 ctx hf))
      by_cases hr : readResult bytes = 0
      · rw [processChildResponse_of_eq hr, if_pos hok.1]
        exact ⟨h.known, fun c hc => h.waits c (List.mem_filter.mp hc).1, fun hm =>
          (List.mem_cons.mp hm).elim hne h.added⟩
      · exact h.effects (effects_processChildResponse (List.mem_of_find?_eq_some hf) hr added)
  | childTimeout m =>
    simp only [Server.step]
    split
    · exact h
    · next ctx hf => exact h.effects (effects_waitChildTimeout k (List.mem_of_find?_eq_some hf))
  | signal sig => exact h.effects (effects_processSignal k s sig)
  | close c =>
    obtain ⟨_, queue, _, _, _, heq, hsub⟩ := closeTask_eq s c
    simp only [Server.step, heq]
    exact h.congr rfl hsub rfl
  | sendComplete pid failed => exact h.effects (effects_sendMessageComplete s pid failed)

/-- The waiting request of a child that was reaped has no child. -/
theorem Tracked.notAdded (h : Tracked k s) {p : Proc} (hp : p ∈ s.procs) (hn : n ∈ p.handedTo)
    (hdead : p.reaped = true) (ha : n ∉ s.added) : NotAdded n s where
  known := h.handedLt p hp n hn
  waits ctx hc hid := by
    by_contra hpos
    obtain ⟨q, hq, -, hrun, hm⟩ := (h.waiting ctx hc).2 (Int.not_le.mp hpos)
    rw [h.children.handed q hq p hp n (hid ▸ hm) hn, hdead] at hrun
    cases hrun
  added := ha

/-! ## The law of the table -/

/-- The table is what was answered with 0 and is not reaped. -/
structure TableExact (k : Codes) (s : Server) : Prop where
  exact : ∀ n pid, (∃ a ∈ s.appQueue, a.request = some n ∧ a.pid = pid) ↔
    s.Succeeded n ∧ ∃ p ∈ s.procs, n ∈ p.handedTo ∧ p.pid = pid ∧ p.reaped = false
  /-- No child is in the table twice. -/
  distinct : (s.appQueue.map (·.pid)).Nodup
  /-- The server's own child nwebspawn is there without a request. -/
  others : ∀ a ∈ s.appQueue, a.request = none → a.name = k.nwebspawnServerName
  addedOnce : s.added.Nodup ∧ ∀ n, n ∈ s.added ↔ s.Succeeded n
  removedOnce : s.removed.Nodup ∧ ∀ n, n ∈ s.removed ↔
    s.Succeeded n ∧ ∃ p ∈ s.procs, n ∈ p.handedTo ∧ p.reaped = true

theorem Tracked.tableExact (h : Tracked k s) : TableExact k s where
  exact n pid := by
    constructor
    · rintro ⟨a, ha, hreq, rfl⟩
      obtain ⟨p, hp, hpid, hrun, hlist, -⟩ := h.entries a ha
      refine ⟨(h.added_iff n).mp (h.listed a ha n hreq), p, hp, ?_, hpid, hrun⟩
      rw [hlist, hreq]
      exact List.mem_singleton_self n
    · rintro ⟨hs, p, hp, hn, rfl, hrun⟩
      exact h.exists_entry hp hrun hn ((h.added_iff n).mpr hs)
  distinct := h.pids
  others a ha hnone := by
    obtain ⟨_, _, _, _, _, hreq⟩ := h.entries a ha
    exact (hreq hnone).2
  addedOnce := ⟨h.added_nodup, h.added_iff⟩
  removedOnce := by
    refine ⟨h.removed_nodup, fun n => ⟨fun hn => ?_, ?_⟩⟩
    · have ha := h.removed_added n hn
      obtain ⟨p, hp, hm, hiff, -⟩ := h.added n ha
      exact ⟨(h.added_iff n).mp ha, p, hp, hm, hiff.mp hn⟩
    · rintro ⟨hs, p, hp, hm, hdead⟩
      obtain ⟨q, hq, hqn, hiff, -⟩ := h.added n ((h.added_iff n).mpr hs)
      rw [h.children.handed q hq p hp n hqn hm] at hiff
      exact hiff.mpr hdead

/-- **In every run in which nothing outside the children fails, the table is what was answered
with 0 and is not reaped, as long as the loop runs. A child that was reaped before it got there
never gets there.** -/
theorem table_exact (h : ((system k).restrict (Undisturbed k)).Reachable s)
    (hstop : s.loopStopped = false) : TableExact k s ∧
      ∀ p ∈ s.procs, ∀ n ∈ p.handedTo, p.reaped = true → n ∉ s.added →
        ∀ es t, ((system k).restrict (Undisturbed k)).Run s es t → n ∉ t.added := by
  have ht := tracked_of_reachable h hstop
  refine ⟨ht.tableExact, fun p hp n hn hdead ha es t hr => ?_⟩
  exact (hr.invariant (I := NotAdded n)
    (fun _ _ (hI : NotAdded n _) (he : (system k).enabled _ _ ∧ Undisturbed k _ _) =>
      hI.step he.2) (ht.notAdded hp hn hdead ha)).added

instance (env : SpawnEnv) (content : AppSpawnContent) (client : AppSpawnClient)
    (msg : AppSpawnMsg) : Decidable (env.Replaces k content client msg) :=
  inferInstanceAs (Decidable (_ ∧ _))

instance (env : SpawnEnv) (content : AppSpawnContent) (client : AppSpawnClient)
    (msg : AppSpawnMsg) : Decidable (env.Starts k content client msg) := by
  unfold SpawnEnv.Starts SpawnEnv.HandsOver SpawnEnv.Forks
  infer_instance

instance (env : SpawnEnv) : Decidable env.Watches := inferInstanceAs (Decidable (_ ∧ _))

instance (s : Server) (e : Event) : Decidable (Undisturbed k s e) :=
  match e with
  | .spawnRequest c msg env => inferInstanceAs (Decidable
      ((∀ client ∈ env.ctx, env.checkRet = 0 →
        env.Replaces k s.content client (spawnMessage env c { id := s.nextId, msg }).msg → _ ∧ _) ∧
      ∀ client ∈ env.ctx, env.checkRet = 0 →
        env.Starts k s.content client (spawnMessage env c { id := s.nextId, msg }).msg → _))
  | .childResponse n _ _ => inferInstanceAs (Decidable (_ ∧ ∀ ctx ∈ s.contextOf n, _))
  | .connection .. => .isTrue trivial
  | .childTimeout .. => .isTrue trivial
  | .signal .. => .isTrue trivial
  | .close .. => .isTrue trivial
  | .sendComplete .. => .isTrue trivial

/-- One child is answered, and another one dies before its answer. -/
def sampleDeaths : List Event :=
  [.connection (some 0) false, .spawnRequest 1 sampleMsg sampleEnv,
    .spawnRequest 1 sampleMsg { sampleEnv with fork := some 101 },
    .childResponse 2 (some [0, 0, 0, 0]) true, .signal (.sigchld [101])]

instance (s : Server) (e : Event) :
    Decidable (((system k).restrict (Undisturbed k)).enabled s e) :=
  inferInstanceAs (Decidable (_ ∧ _))

theorem table_exact_run : ∃ t, ((system sampleCodes).restrict (Undisturbed sampleCodes)).Reachable t ∧
    t.appQueue.length = 1 ∧ TableExact sampleCodes t :=
  have hr : ((system sampleCodes).restrict (Undisturbed sampleCodes)).Reachable
      (sampleDeaths.foldl (fun s e => s.step sampleCodes e) sampleLaunch) :=
    ⟨sampleLaunch, sampleDeaths, ⟨_, _, by decide, by decide, rfl⟩,
      System.Run.of_enabledAll (by decide +kernel)⟩
  ⟨_, hr, by decide +kernel, (table_exact hr (by decide +kernel)).1⟩

/-- The watcher of a started child cannot be set up. -/
def sampleUnwatched : List Event :=
  [.connection (some 0) false, .spawnRequest 1 sampleMsg { sampleEnv with startWatcher := false }]

/-- Its spawn is answered with 0, and it runs, and it is not in the table. -/
theorem unwatched_child_not_in_table : ∃ t, (system sampleCodes).Reachable t ∧
    t.loopStopped = false ∧ t.appQueue = [] ∧ ¬ TableExact sampleCodes t := by
  have hr := sampleRun sampleUnwatched (by decide +kernel)
  have hempty : (sampleUnwatched.foldl (fun s e => s.step sampleCodes e) sampleLaunch).appQueue = [] :=
    by decide +kernel
  refine ⟨_, hr, by decide +kernel, hempty, fun h => ?_⟩
  have hsent : (sampleUnwatched.foldl (fun s e => s.step sampleCodes e) sampleLaunch).Succeeded 2 :=
    ⟨{ connection := 1, message := 2, result := 0, pid := 0, connOpen := true }, by decide +kernel,
      rfl, rfl⟩
  obtain ⟨a, ha, -⟩ := (h.exact 2 100).mpr ⟨hsent, { pid := 100, handedTo := [2] },
    by decide +kernel, by decide, rfl, rfl⟩
  rw [hempty] at ha
  cases ha

end Appspawn
