import OpenHarmonyMac.Appspawn.Answering

/-!
# What decides a request

A request waits until the pipe of its child becomes readable, its timer fires, or `waitpid` reports
the child. One whose child is not started, or not watched, does not wait at all.

* `Decides` — the events that decide a request
* `settled_of_decides` — a request that is decided leaves the queue
* `one_response` — every request has at most one response, one when it is decided, and none on a
  closed connection
-/

namespace Appspawn

open Infra

variable {k : Codes} {s s' : Server}

/-! ## Starting a child -/

/-- The plain fork succeeds. -/
def SpawnEnv.Forks (env : SpawnEnv) (content : AppSpawnContent) (msg : AppSpawnMsg) : Prop :=
  env.forkPipe = none ∧
    ((content.mode = .nwebSpawn ∧ msg.processType = none) ∨ env.fork.isSome = true)

/-- The reserved process is told. -/
def SpawnEnv.HandsOver (k : Codes) (env : SpawnEnv) (content : AppSpawnContent)
    (msg : AppSpawnMsg) : Prop :=
  env.mapMem = true ∧ writePreforkMsg k msg = 0 ∧ content.parentToChildFd.isSome = true ∧
    env.writeClient = true ∧ env.fcntlRet = 0

/-- The child of the request is started. -/
def SpawnEnv.Starts (k : Codes) (env : SpawnEnv) (content : AppSpawnContent)
    (client : AppSpawnClient) (msg : AppSpawnMsg) : Prop :=
  if (env.bootFinished && isSupportPrefork k content client msg) = true ∧ 0 < content.reservedPid
  then env.HandsOver k content msg
  else env.Forks content msg

theorem forkChild_ret (env : SpawnEnv) (base : Nat) (content : AppSpawnContent) (msg : AppSpawnMsg)
    (n : NodeId) (procs : List Proc) :
    (forkChild k env base content msg n procs).ret = 0 ↔ env.Forks content msg := by
  have hne : k.forkFail ≠ 0 := k.ne_zero.2.2.2.2.1
  unfold forkChild SpawnEnv.Forks
  cases env.forkPipe with
  | some e => simp [e.2]
  | none =>
    simp only [appSpawnProcessMsg]
    by_cases hw : content.mode = .nwebSpawn ∧ msg.processType = none
    · simp [hw]
    · rw [if_neg hw]
      cases env.fork with
      | none => simp [hne, hw]
      | some pid => simp

theorem handOver_ret (env : SpawnEnv) (content : AppSpawnContent) (n : NodeId)
    (procs : List Proc) : (handOver env content n procs).ret = 0 ↔
      content.parentToChildFd.isSome = true ∧ env.writeClient = true ∧ env.fcntlRet = 0 := by
  unfold handOver
  split
  · next h => simp_all
  · next h => simp_all

theorem appSpawnProcessMsgForPrefork_ret (env : SpawnEnv) (base : Nat)
    (content : AppSpawnContent) (msg : AppSpawnMsg) (n : NodeId) (procs : List Proc) :
    (appSpawnProcessMsgForPrefork k env base content msg n procs).ret = 0 ↔
      if 0 < content.reservedPid then env.HandsOver k content msg else env.Forks content msg := by
  unfold appSpawnProcessMsgForPrefork
  by_cases hr : content.reservedPid ≤ 0
  · rw [if_pos hr, if_neg (Int.not_lt.mpr hr)]
    have hf := forkChild_ret env base content msg n procs (k := k)
    cases hp : env.forkPipe with
    | some e => simp [SpawnEnv.Forks, hp, e.2]
    | none => exact hf
  · rw [if_neg hr, if_pos (Int.not_le.mp hr)]
    unfold SpawnEnv.HandsOver
    by_cases hm : env.mapMem = false
    · simp [hm]
    · rw [if_neg hm]
      by_cases hw : writePreforkMsg k msg = 0
      · rw [if_neg (not_not_intro hw)]
        have ho := handOver_ret env { content with propertyBuffer := true } n procs
        rw [Bool.not_eq_false] at hm
        simp only [hm, hw, true_and]
        exact ho
      · simp [hw]

/-- **The result of `RunAppSpawnProcessMsg` is 0 exactly when the child is started.** -/
theorem runAppSpawnProcessMsg_ret (env : SpawnEnv) (base : Nat) (content : AppSpawnContent)
    (client : AppSpawnClient) (msg : AppSpawnMsg) (n : NodeId) (procs : List Proc) :
    (runAppSpawnProcessMsg k env base content client msg n procs).ret = 0
      ↔ env.Starts k content client msg := by
  unfold runAppSpawnProcessMsg SpawnEnv.Starts
  by_cases hp : (env.bootFinished && isSupportPrefork k content client msg) = true
  · rw [if_pos hp, appSpawnProcessMsgForPrefork_ret]
    simp only [hp, true_and]
  · rw [if_neg hp, forkChild_ret, if_neg (fun h => hp h.1)]

/-- The watcher and the timer of the child are set up. -/
def SpawnEnv.Watches (env : SpawnEnv) : Prop :=
  env.startWatcher = true ∧ env.createTimer = true ∧ env.startTimer = true

theorem addChildWatcher_eq_zero (env : SpawnEnv) :
    addChildWatcher k env = 0 ↔ env.Watches := by
  have hne : k.systemError ≠ 0 := k.ne_zero.1
  unfold addChildWatcher SpawnEnv.Watches
  cases env.startWatcher <;> cases env.createTimer <;> cases env.startTimer <;> simp [hne]

/-! ## The events that decide -/

/-- The request passes its check and gets a context, and its child is started and watched. -/
def SpawnEnv.Waits (k : Codes) (env : SpawnEnv) (s : Server) (c : ConnId) (msg : AppSpawnMsg) :
    Prop :=
  env.checkRet = 0 ∧ ∃ client ∈ env.ctx,
    env.Starts k s.content client (spawnMessage env c { id := s.nextId, msg }).msg ∧ env.Watches

/-- The event decides the request `n`. A child that `waitpid` reports decides the request that is
found by its pid, unless it is in the table of spawned processes. -/
def Decides (k : Codes) (s : Server) (n : NodeId) : Event → Prop
  | .spawnRequest c msg env => n = s.nextId ∧ ¬ env.Waits k s c msg
  | .childResponse m _ _ => n = m
  | .childTimeout m => n = m
  | .signal (.sigchld pids) => ∃ ctx, ctx.message.id = n ∧ ctx.pid ∈ pids ∧
      s.waitable ctx.pid = true ∧ s.getSpawnedProcess ctx.pid = none ∧
      s.getAppSpawningCtxByPid ctx.pid = some ctx
  | _ => False

/-! ## What the handlers leave of the queue and the table -/

theorem Effects.queue (h : Effects s s') :
    ∃ keep : NodeId → Bool,
      s'.appSpawnQueue = s.appSpawnQueue.filter (fun ctx => keep ctx.message.id) := by
  induction h with
  | refl => exact ⟨fun _ => true, (List.filter_eq_self.mpr fun _ _ => rfl).symm⟩
  | tail _ he ih =>
    obtain ⟨keep, hkeep⟩ := ih
    cases he with
    | answer ctx result pid _ _ =>
      refine ⟨fun n => n != ctx.message.id && keep n, ?_⟩
      rw [Server.answer_appSpawnQueue, hkeep, List.filter_filter]
    | _ => exact ⟨keep, hkeep⟩

theorem Effects.mem_queue (h : Effects s s') {ctx : AppSpawningCtx} (hc : ctx ∈ s'.appSpawnQueue) :
    ctx ∈ s.appSpawnQueue := by
  obtain ⟨keep, hkeep⟩ := h.queue
  rw [hkeep] at hc
  exact (List.mem_filter.mp hc).1

theorem Effects.not_pending {n : NodeId} (h : Effects s s') (hn : ¬ s.IsPending n) :
    ¬ s'.IsPending n :=
  fun ⟨ctx, hctx, hid⟩ => hn ⟨ctx, h.mem_queue hctx, hid⟩

/-- A context that is found stays found as long as it is in the queue. -/
theorem Effects.find (h : Effects s s') {pid : Int} {ctx : AppSpawningCtx}
    (hf : s.getAppSpawningCtxByPid pid = some ctx) (hp : s'.IsPending ctx.message.id) :
    s'.getAppSpawningCtxByPid pid = some ctx := by
  obtain ⟨keep, hkeep⟩ := h.queue
  obtain ⟨ctx', hctx', hid⟩ := hp
  have hk : keep ctx.message.id = true := by
    rw [hkeep] at hctx'
    exact hid ▸ (List.mem_filter.mp hctx').2
  obtain ⟨hpid, before, after, hsplit, hbefore⟩ := List.find?_eq_some_iff_append.mp hf
  refine List.find?_eq_some_iff_append.mpr ⟨hpid, before.filter (fun c => keep c.message.id),
    after.filter (fun c => keep c.message.id), ?_, fun c hc => hbefore c (List.mem_filter.mp hc).1⟩
  rw [hkeep, hsplit, List.filter_append, List.filter_cons_of_pos (by exact hk)]

theorem Effects.mem_appQueue (h : Effects s s') {app : AppSpawnedProcess} (ha : app ∈ s'.appQueue) :
    app ∈ s.appQueue := by
  induction h with
  | refl => exact ha
  | tail _ he ih =>
    cases he with
    | terminate app' => exact ih (List.mem_of_mem_erase ha)
    | _ => exact ih ha

theorem Effects.notSpawned (h : Effects s s') {pid : Int} (hp : s.getSpawnedProcess pid = none) :
    s'.getSpawnedProcess pid = none :=
  List.find?_eq_none.mpr fun app ha => List.find?_eq_none.mp hp app (h.mem_appQueue ha)

/-! ## A child that nothing else reaps -/

theorem waitable_reap {pid q : Int} (h : q ≠ pid) (s : Server) :
    (s.reap q).waitable pid = s.waitable pid := by
  simp only [Server.waitable, Server.reap, updateProc, List.any_map]
  congr 1
  funext p
  simp only [Function.comp_apply]
  split
  · next hq =>
    rw [show (Proc.markReaped p).pid = p.pid from rfl, hq.1, beq_eq_false_iff_ne.mpr h]
    rfl
  · rfl

theorem waitable_collect {pid q : Int} (h : q ≠ pid) (s : Server) :
    (collect s q).waitable pid = s.waitable pid := by
  unfold collect
  split
  · exact waitable_reap h s
  · exact waitable_reap h s

theorem waitable_stopServer {pid : Int} (name : String) (h : s.getSpawnedProcess pid = none) :
    (stopServer name s).waitable pid = s.waitable pid := by
  unfold stopServer
  split
  · rfl
  · next app happ =>
    have hne : app.pid ≠ pid := by
      have hmem := List.find?_eq_none.mp h app (List.mem_of_find?_eq_some happ)
      simpa using hmem
    exact waitable_reap hne (s.kill app.pid SIGTERM)

theorem waitable_stopAppSpawn {pid : Int} (h : s.getSpawnedProcess pid = none) :
    (stopAppSpawn k s).waitable pid = s.waitable pid := by
  have hdestroy : ∀ (apps : List AppSpawnedProcess) (t : Server),
      (apps.foldl appQueueDestroyProc t).waitable pid = t.waitable pid := by
    intro apps
    induction apps with
    | nil => exact fun _ => rfl
    | cons app apps ih =>
      intro t
      have hone : (appQueueDestroyProc t app).waitable pid = t.waitable pid := by
        simp only [appQueueDestroyProc]
        split <;> rfl
      rw [List.foldl_cons, ih, hone]
  have hreserved : ∀ t : Server, (stopReserved t).waitable pid = t.waitable pid := by
    intro t
    unfold stopReserved
    split <;> rfl
  show (List.foldl appQueueDestroyProc _ _).waitable pid = _
  rw [hdestroy, hreserved, waitable_stopServer _ ((effects_stopServer _ s).notSpawned h),
    waitable_stopServer _ h]

theorem waitable_waitChildDied {pid q : Int} (h : s.getSpawnedProcess pid = none) :
    (waitChildDied k s q).waitable pid = s.waitable pid := by
  unfold waitChildDied
  split
  · rfl
  · split
    · simp only
      split
      · exact waitable_stopAppSpawn (by exact h)
      · rfl
    · rfl

/-- The death of another child. -/
theorem waitable_handleDiedPid {pid q : Int} (hne : q ≠ pid) (h : s.getSpawnedProcess pid = none) :
    (handleDiedPid k s q).waitable pid = s.waitable pid := by
  have hcollect : (collect s q).getSpawnedProcess pid = none := (effects_collect s q).notSpawned h
  simp only [handleDiedPid]
  split
  · rw [waitable_waitChildDied hcollect, waitable_collect hne]
  · next app _ =>
    have heff : Effects (collect s q) ((collect s q).terminateSpawnedProcess app) :=
      Relation.ReflTransGen.single (Effect.terminate (collect s q) app)
    split
    · rw [waitable_stopAppSpawn (heff.notSpawned hcollect)]
      exact waitable_collect hne s
    · exact waitable_collect hne s

theorem waitable_reapChild {pid q : Int} (hne : q ≠ pid) (h : s.getSpawnedProcess pid = none) :
    (reapChild k s q).waitable pid = s.waitable pid := by
  unfold reapChild
  split
  · exact waitable_handleDiedPid hne h
  · rfl

/-! ## The death of a child decides -/

/-- `SendResponse` and `DeleteAppSpawningCtx` end the wait. -/
theorem not_pending_answer (s : Server) (ctx : AppSpawningCtx) (result pid : Int) :
    ¬ (s.answer ctx result pid).IsPending ctx.message.id := by
  rintro ⟨ctx', hctx', hid⟩
  rw [Server.answer_appSpawnQueue, List.mem_filter] at hctx'
  simp [hid] at hctx'

theorem not_pending_reapChild {ctx : AppSpawningCtx} (hstate : ctx.state = .spawning)
    (hw : s.waitable ctx.pid = true) (hs : s.getSpawnedProcess ctx.pid = none)
    (hf : s.getAppSpawningCtxByPid ctx.pid = some ctx) :
    ¬ (reapChild k s ctx.pid).IsPending ctx.message.id := by
  have heff := effects_collect s ctx.pid
  have hpend : (collect s ctx.pid).IsPending ctx.message.id := by
    have hmem := List.mem_of_find?_eq_some hf
    unfold collect
    split <;> exact ⟨ctx, hmem, rfl⟩
  simp only [reapChild, hw, if_true, handleDiedPid, heff.notSpawned hs, waitChildDied,
    heff.find hf hpend, hstate]
  split
  · exact (effects_stopAppSpawn k _).not_pending (not_pending_answer _ ctx _ _)
  · exact not_pending_answer _ ctx _ _

theorem not_pending_sigchld {ctx : AppSpawningCtx} (hstate : ctx.state = .spawning)
    (pids : List Int) : ∀ s : Server, ctx.pid ∈ pids → s.waitable ctx.pid = true →
      s.getSpawnedProcess ctx.pid = none → s.getAppSpawningCtxByPid ctx.pid = some ctx →
      ¬ (pids.foldl (reapChild k) s).IsPending ctx.message.id := by
  induction pids with
  | nil => exact fun _ hmem => absurd hmem List.not_mem_nil
  | cons q pids ih =>
    intro s hmem hw hs hf
    have hrest := Effects.foldl (effects_reapChild k) pids
    have heff := effects_reapChild k s q
    rw [List.foldl_cons]
    by_cases hq : q = ctx.pid
    · rw [hq]
      exact (hrest _).not_pending (not_pending_reapChild hstate hw hs hf)
    · by_cases hpend : (reapChild k s q).IsPending ctx.message.id
      · refine ih _ ((List.mem_cons.mp hmem).resolve_left (Ne.symm hq)) ?_ (heff.notSpawned hs)
          (heff.find hf hpend)
        rw [waitable_reapChild hq hs]
        exact hw
      · exact (hrest _).not_pending hpend

/-! ## A request that is decided -/

theorem mem_queue_startChild (env : SpawnEnv) (s : Server) (client : AppSpawnClient)
    (m : AppSpawnMsgNode) {ctx : AppSpawningCtx}
    (hc : ctx ∈ (startChild k env s client m).appSpawnQueue) :
    ctx ∈ s.appSpawnQueue ∨ ctx.state = .spawning := by
  rw [startChild_eq k env s client m rfl rfl] at hc
  generalize started k env s client m = r at hc
  have hspawned : ctx ∈ (s.spawned r (spawningCtx r client m)).appSpawnQueue := by
    split at hc
    · exact (List.mem_filter.mp hc).1
    · split at hc
      · exact (List.mem_filter.mp hc).1
      · exact hc
  rcases List.mem_append.mp hspawned with hold | hnew
  · exact Or.inl hold
  · rw [List.mem_singleton.mp hnew]
    exact Or.inr rfl

/-- Every context in the queue waits for its child. -/
theorem spawning_of_reachable (h : (system k).Reachable s) :
    ∀ ctx ∈ s.appSpawnQueue, ctx.state = .spawning := by
  have heff : ∀ {s s' : Server}, Effects s s' → (∀ ctx ∈ s.appSpawnQueue, ctx.state = .spawning) →
      ∀ ctx ∈ s'.appSpawnQueue, ctx.state = .spawning :=
    fun he hI ctx hc => hI ctx (he.mem_queue hc)
  refine h.invariant (I := fun s => ∀ ctx ∈ s.appSpawnQueue, ctx.state = .spawning) ?_ ?_
  · rintro s ⟨content, nwebspawn, -, -, rfl⟩
    exact fun ctx hc => absurd hc List.not_mem_nil
  intro s e hI _
  show ∀ ctx ∈ (s.step k e).appSpawnQueue, ctx.state = .spawning
  cases e with
  | connection cred dev =>
    simp only [Server.step, onConnection]
    split
    · exact hI
    · split <;> exact hI
  | spawnRequest c msg env =>
    have hrefuse : ∀ result, ∀ ctx ∈ (((s.createAppSpawnMsg.use s.nextId).noteRequest c
        s.nextId).refuse c { id := s.nextId, msg } result).appSpawnQueue, ctx.state = .spawning :=
      fun _ ctx hc => hI ctx (by simpa using hc)
    simp only [Server.step, processSpawnReqMsg]
    split
    · exact hrefuse _
    · split
      · exact hrefuse _
      · next client _ =>
        intro ctx hc
        rcases mem_queue_startChild env _ client _ hc with hc | hc
        · exact hI ctx (by simpa using hc)
        · exact hc
  | childResponse n bytes added =>
    simp only [Server.step]
    split
    · exact hI
    · next ctx hf =>
      by_cases hr : readResult bytes = 0
      · rw [processChildResponse_of_eq hr]
        intro c hc
        cases added <;> exact hI c (List.mem_filter.mp hc).1
      · exact heff (effects_processChildResponse (List.mem_of_find?_eq_some hf) hr added) hI
  | childTimeout n =>
    simp only [Server.step]
    split
    · exact hI
    · next ctx hf => exact heff (effects_waitChildTimeout k (List.mem_of_find?_eq_some hf)) hI
  | signal sig => exact heff (effects_processSignal k s sig) hI
  | close c =>
    obtain ⟨_, _, _, _, _, heq, hsub⟩ := closeTask_eq s c
    simp only [Server.step, heq]
    exact fun ctx hc => hI ctx (hsub ctx hc)
  | sendComplete pid failed => exact heff (effects_sendMessageComplete s pid failed) hI

theorem not_pending_startChild {env : SpawnEnv} {client : AppSpawnClient} {m : AppSpawnMsgNode}
    (h : (started k env s client m).ret = 0 → ¬ env.Watches) :
    ¬ (startChild k env s client m).IsPending m.id := by
  rw [startChild_eq k env s client m rfl rfl]
  generalize started k env s client m = r at h ⊢
  have hanswer : ∀ (t : Server) (result pid : Int),
      ¬ (t.answer (spawningCtx r client m) result pid).IsPending m.id :=
    fun t result pid => not_pending_answer t (spawningCtx r client m) result pid
  by_cases hr : r.ret = 0
  · rw [if_neg (not_not_intro hr), if_pos (mt (addChildWatcher_eq_zero env).mp (h hr))]
    exact hanswer _ _ _
  · rw [if_pos hr]
    exact hanswer _ _ _

/-- A request that does not wait is answered by `ProcessSpawnReqMsg`. -/
theorem not_pending_spawnRequest {c : ConnId} {msg : AppSpawnMsg} {env : SpawnEnv}
    (hfresh : ¬ s.IsPending s.nextId) (hw : ¬ env.Waits k s c msg) :
    ¬ (s.step k (.spawnRequest c msg env)).IsPending s.nextId := by
  have hrefuse : ∀ result, ¬ (((s.createAppSpawnMsg.use s.nextId).noteRequest c
      s.nextId).refuse c { id := s.nextId, msg } result).IsPending s.nextId := by
    intro result
    simpa [Server.IsPending] using hfresh
  simp only [Server.step, processSpawnReqMsg]
  split
  · exact hrefuse _
  · next hc =>
    split
    · exact hrefuse _
    · next client hx =>
      have hret : (started k env ((s.createAppSpawnMsg.use s.nextId).noteRequest c s.nextId) client
          (spawnMessage env c { id := s.nextId, msg })).ret = 0 ↔ env.Starts k s.content client
            (spawnMessage env c { id := s.nextId, msg }).msg :=
        runAppSpawnProcessMsg_ret env _ _ _ _ _ _
      have hnot : (started k env ((s.createAppSpawnMsg.use s.nextId).noteRequest c s.nextId) client
          (spawnMessage env c { id := s.nextId, msg })).ret = 0 → ¬ env.Watches :=
        fun hr hwatch => hw ⟨not_not.mp hc, client, hx, hret.mp hr, hwatch⟩
      exact not_pending_startChild hnot

theorem not_pending_next (hI : s.ledger.Sound ∧ Numbered s) : ¬ s.IsPending s.nextId := by
  rintro ⟨ctx, hctx, hid⟩
  have hlt := (hI.2.accepted _ (hI.1.pending_accepted _ (mem_pending hctx))).2
  simp only [hid] at hlt
  exact Nat.lt_irrefl _ hlt

theorem contextOf_eq_some {n : NodeId} (h : s.contextOf n = some ctx) :
    ctx ∈ s.appSpawnQueue ∧ ctx.message.id = n :=
  ⟨List.mem_of_find?_eq_some h, by simpa using List.find?_some h⟩

/-- An event that decides a request brings it, or is about a context that waits. -/
theorem decides_cases {n : NodeId} {e : Event} (he : (system k).enabled s e)
    (hd : Decides k s n e) :
    (∃ c msg env, e = .spawnRequest c msg env ∧ n = s.nextId ∧ ¬ env.Waits k s c msg) ∨
      ∃ ctx ∈ s.appSpawnQueue, ctx.message.id = n ∧
        ((∃ bytes added, e = .childResponse n bytes added ∧ s.contextOf n = some ctx) ∨
          (e = .childTimeout n ∧ s.contextOf n = some ctx) ∨
          ∃ pids, e = .signal (.sigchld pids) ∧ ctx.pid ∈ pids ∧ s.waitable ctx.pid = true ∧
            s.getSpawnedProcess ctx.pid = none ∧
            s.getAppSpawningCtxByPid ctx.pid = some ctx) := by
  cases e with
  | spawnRequest c msg env => exact Or.inl ⟨c, msg, env, rfl, hd⟩
  | childResponse m bytes added =>
    obtain rfl : n = m := hd
    obtain ⟨ctx, hctx, -⟩ := he.2
    obtain ⟨hmem, hid⟩ := contextOf_eq_some hctx
    exact Or.inr ⟨ctx, hmem, hid, Or.inl ⟨bytes, added, rfl, hctx⟩⟩
  | childTimeout m =>
    obtain rfl : n = m := hd
    obtain ⟨ctx, hctx⟩ := Option.isSome_iff_exists.mp he.2
    obtain ⟨hmem, hid⟩ := contextOf_eq_some hctx
    exact Or.inr ⟨ctx, hmem, hid, Or.inr (Or.inl ⟨rfl, hctx⟩)⟩
  | signal sig =>
    cases sig with
    | sigchld pids =>
      obtain ⟨ctx, hid, hmem, hw, hs, hf⟩ := hd
      exact Or.inr ⟨ctx, List.mem_of_find?_eq_some hf, hid,
        Or.inr (Or.inr ⟨pids, rfl, hmem, hw, hs, hf⟩)⟩
    | sigterm => exact absurd hd id
    | other => exact absurd hd id
  | connection cred dev => exact absurd hd id
  | close c => exact absurd hd id
  | sendComplete pid failed => exact absurd hd id

/-- **A request that is decided leaves the queue.** -/
theorem settled_of_decides {n : NodeId} {e : Event} (h : (system k).Reachable s)
    (he : (system k).enabled s e) (hd : Decides k s n e) : ¬ (s.step k e).IsPending n := by
  rcases decides_cases he hd with ⟨c, msg, env, rfl, rfl, hw⟩ |
    ⟨ctx, hctx, rfl, ⟨bytes, added, rfl, hof⟩ | ⟨rfl, hof⟩ | ⟨pids, rfl, hmem, hw, hs, hf⟩⟩
  · exact not_pending_spawnRequest (not_pending_next (sound_of_reachable h)) hw
  · have hstep : s.step k (.childResponse ctx.message.id bytes added)
        = processChildResponse s bytes added ctx := by
      simp only [Server.step, hof]
    rw [hstep]
    by_cases hr : readResult bytes = 0
    · rw [processChildResponse_of_eq hr]
      exact not_pending_answer _ ctx _ _
    · rw [processChildResponse_of_ne hr]
      exact not_pending_answer _ ctx _ _
  · have hstep : s.step k (.childTimeout ctx.message.id) = waitChildTimeout k s ctx := by
      simp only [Server.step, hof]
    rw [hstep]
    exact not_pending_answer _ ctx _ _
  · have hnot := not_pending_sigchld (k := k) (spawning_of_reachable h ctx hctx) pids s hmem hw hs hf
    simp only [Server.step, processSignal]
    split
    · exact hnot
    · exact hnot

/-! ## The answer to a request that is decided -/

/-- What was open and accepted stays so until a close. -/
theorem ledger_mono {e : Event} (hI : s.ledger.Sound ∧ Numbered s) (he : (system k).enabled s e)
    (hne : ∀ c, e ≠ .close c) : (∀ c ∈ s.ledger.opened, c ∈ (s.step k e).ledger.opened) ∧
      ∀ p ∈ s.ledger.accepted, p ∈ (s.step k e).ledger.accepted := by
  obtain ⟨hs, hn⟩ := hI
  rcases settles_step k s e with h | ⟨cred, dev, rfl⟩ | ⟨c, msg, env, rfl⟩ | ⟨c, rfl⟩
  · rw [h.opened, h.accepted]
    exact ⟨fun _ hc => hc, fun _ hp => hp⟩
  · simp only [Server.step, onConnection]
    split
    · exact ⟨fun _ hc => hc, fun _ hp => hp⟩
    · split
      · refine ⟨fun c hc => ?_, fun _ hp => hp⟩
        simp only [Server.ledger, List.map_append]
        exact List.mem_append_left _ hc
      · exact ⟨fun _ hc => hc, fun _ hp => hp⟩
  · have h := accepts_spawnRequest (k := k) msg env hs hn he.2.1
    rw [h.opened, h.accepted]
    exact ⟨fun _ hc => hc, fun _ hp => List.mem_cons_of_mem _ hp⟩
  · exact absurd rfl (hne c)

/-- A request that an event is about: it waits, or comes with the event. -/
theorem pending_of_decides {n : NodeId} {e : Event} (he : (system k).enabled s e)
    (hd : Decides k s n e) :
    (s.IsPending n ∨ ∃ c msg env, e = .spawnRequest c msg env ∧ n = s.nextId) ∧
      ∀ c, e ≠ .close c := by
  rcases decides_cases he hd with ⟨c, msg, env, rfl, hn, -⟩ |
    ⟨ctx, hctx, hid, ⟨bytes, added, rfl, -⟩ | ⟨rfl, -⟩ | ⟨pids, rfl, -⟩⟩
  · exact ⟨Or.inr ⟨c, msg, env, rfl, hn⟩, nofun⟩
  · exact ⟨Or.inl ⟨ctx, hctx, hid⟩, nofun⟩
  · exact ⟨Or.inl ⟨ctx, hctx, hid⟩, nofun⟩
  · exact ⟨Or.inl ⟨ctx, hctx, hid⟩, nofun⟩

theorem responsesTo_eq_nil {n : NodeId} {e : Event} (hI : s.ledger.Sound ∧ Numbered s)
    (hn : s.IsPending n ∨ ∃ c msg env, e = .spawnRequest c msg env ∧ n = s.nextId) :
    s.responsesTo n = [] := by
  have hS := OneResponse.of_sound hI.1
  refine List.filter_eq_nil_iff.mpr fun r hr hm => ?_
  have hrn : r.message = n := of_decide_eq_true hm
  rcases hn with hpend | ⟨c, msg, env, -, rfl⟩
  · exact hS.dequeued r hr (hrn ▸ hpend)
  · exact absurd hrn (Nat.ne_of_lt (hI.2.accepted _ (hS.ownConnection r hr)).2)

/-- A request that leaves the queue, or does not get there, has its response, unless its connection
is closed. -/
theorem length_responsesTo_step {e : Event} (hI : s.ledger.Sound ∧ Numbered s)
    (he : (system k).enabled s e) {n : NodeId}
    (hn : s.IsPending n ∨ ∃ c msg env, e = .spawnRequest c msg env ∧ n = s.nextId)
    (hp : ¬ (s.step k e).IsPending n) (hne : ∀ c, e ≠ .close c) :
    ((s.step k e).responsesTo n).length = 1 := by
  obtain ⟨-, as, hrun⟩ := simulates_step hI he
  -- the request is accepted and its connection open
  obtain ⟨c, hacc, hopen⟩ : ∃ c, (c, n) ∈ (s.step k e).ledger.accepted ∧
      c ∈ (s.step k e).ledger.opened := by
    rcases hn with ⟨ctx, hctx, rfl⟩ | ⟨c, msg, env, rfl, rfl⟩
    · obtain ⟨ho, ha⟩ := ledger_mono hI he hne
      have hpend := mem_pending hctx
      exact ⟨_, ha _ (hI.1.pending_accepted _ hpend), ho _ (hI.1.pending_opened _ hpend)⟩
    · have h := accepts_spawnRequest (k := k) msg env hI.1 hI.2 he.2.1
      refine ⟨c, ?_, ?_⟩
      · rw [h.accepted]
        exact List.mem_cons_self
      · rw [h.opened]
        exact isOpen_iff.mp he.2.1
  exact (OneResponse.of_sound (hI.1.run hrun)).settled c n hacc (isOpen_iff.mpr hopen) hp

/-- **Every request has at most one response, and exactly one when it is through and its
connection is open. An event that decides a request sends its response and takes it out of the
queue. No response goes to a closed connection, and a request that was answered is never answered
again.** -/
theorem one_response (h : (system k).Reachable s) :
    OneResponse s ∧
      (∀ n e, (system k).enabled s e → Decides k s n e →
        s.responsesTo n = [] ∧ ((s.step k e).responsesTo n).length = 1 ∧
          ¬ (s.step k e).IsPending n) ∧
      ∀ es t, (system k).Run s es t → ∀ r ∈ s.sent, (t.responsesTo r.message).length = 1 := by
  have hI := sound_of_reachable h
  refine ⟨OneResponse.of_sound hI.1, fun n e he hd => ?_, fun es t hr r hm => ?_⟩
  · have hp := settled_of_decides h he hd
    obtain ⟨hn, hne⟩ := pending_of_decides he hd
    exact ⟨responsesTo_eq_nil hI hn, length_responsesTo_step hI he hn hp hne, hp⟩
  · obtain ⟨-, as, ha⟩ := simulates_ledger hr hI
    have heq := Ledger.Run.answersTo_eq ha hI.1 (List.mem_map_of_mem hm)
    rw [← length_responsesTo, heq, length_responsesTo]
    exact length_responsesTo_of_mem hI.1 hm

/-- Two requests of one connection: the child of the first has answered, and that of the second
dies. -/
def sampleAnswered : List Event :=
  [.connection (some 0) false, .spawnRequest 1 sampleMsg sampleEnv,
    .spawnRequest 1 sampleMsg { sampleEnv with fork := some 101 },
    .childResponse 2 (some [0, 0, 0, 0]) true]

/-- The context of the second request. -/
def sampleSecond : AppSpawningCtx where
  client := { id := 1, flags := 0 }
  message := { id := 6, msg := sampleMsg, connection := 1 }
  pid := 101
  state := .spawning
  fd := some 7

theorem one_response_run : ∃ t, (system sampleCodes).Reachable t ∧ t.sent.length = 1 ∧
    OneResponse t ∧ t.responsesTo 6 = [] ∧
    ((t.step sampleCodes (.signal (.sigchld [100, 101]))).responsesTo 6).length = 1 :=
  have hr : (system sampleCodes).Reachable _ := sampleRun sampleAnswered (by decide +kernel)
  have h := one_response hr
  have hd := h.2.1 6 (.signal (.sigchld [100, 101])) (by decide +kernel)
    ⟨sampleSecond, rfl, by decide, by decide +kernel, by decide +kernel, by decide +kernel⟩
  ⟨_, hr, by decide +kernel, h.1, hd.1, hd.2.1⟩

end Appspawn
