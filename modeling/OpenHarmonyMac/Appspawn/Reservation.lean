import OpenHarmonyMac.Appspawn.Effects

/-!
# The reserved process

`ProcessPreFork` forks a process in reserve; the next request it suits is written to it through
`parentToChildFd`, and it answers through `preforkFd`. `content->reservedPid` is the only record of
which process that is.

`ProcessPreFork` returns early when one of its pipes cannot be made. Behind a hand-over
`content->reservedPid` then still names the process that has just been given away.

* `reserved_throughout_iff` — the reservation is sound as long as that does not happen
* `handed_out_twice` — what follows when it does
-/

namespace Appspawn

open Infra

/-- A child that is not reaped runs under `pid`. -/
def Running (procs : List Proc) (pid : Int) : Prop := ∃ p ∈ procs, p.pid = pid ∧ p.reaped = false

/-- No child is given away twice, and the prefork path kills none that was given away. -/
structure HandedOnce (procs : List Proc) : Prop where
  once : ∀ p ∈ procs, p.handedTo.length ≤ 1
  notKilled : ∀ p ∈ procs, p.handedTo ≠ [] → p.killedByPrefork = false

/-- The child waits in reserve, and the pipes of `content` are its pipes. -/
structure InReserve (content : AppSpawnContent) (p : Proc) : Prop where
  handedTo : p.handedTo = []
  notKilled : p.killedByPrefork = false
  pipes : ∃ a b, p.prefork = some (a, b) ∧ content.preforkFd = some a ∧
    content.parentToChildFd = some b

/-- **The reservation is sound**: `reservedPid` is not positive or names a child in reserve. -/
structure Reserved (content : AppSpawnContent) (procs : List Proc) : Prop where
  handed : HandedOnce procs
  running : 0 < content.reservedPid → Running procs content.reservedPid
  inReserve : 0 < content.reservedPid → ∀ p ∈ procs, p.pid = content.reservedPid →
    p.reaped = false → InReserve content p

variable {k : Codes} {s s' : Server} {env : SpawnEnv} {content : AppSpawnContent}
  {procs : List Proc} {pid : Int} {n : NodeId}

theorem waitable_iff : s.waitable pid = true ↔ Running s.procs pid := by
  simp [Server.waitable, Running]

theorem waitable_eq_false : s.waitable pid = false ↔ ¬ Running s.procs pid := by
  rw [← waitable_iff, Bool.not_eq_true]

/-! ## Changes of the children -/

theorem mem_updateProc {f : Proc → Proc} {p : Proc} (h : p ∈ updateProc f pid procs) :
    ∃ q ∈ procs, (q.pid = pid ∧ q.reaped = false ∧ p = f q) ∨
      (¬ (q.pid = pid ∧ q.reaped = false) ∧ p = q) := by
  obtain ⟨q, hq, rfl⟩ := List.mem_map.mp h
  refine ⟨q, hq, ?_⟩
  by_cases hc : q.pid = pid ∧ q.reaped = false
  · rw [if_pos hc]
    exact Or.inl ⟨hc.1, hc.2, rfl⟩
  · rw [if_neg hc]
    exact Or.inr ⟨hc, rfl⟩

theorem running_updateProc (f : Proc → Proc) (hpid : ∀ p, (f p).pid = p.pid)
    (hreaped : ∀ p, (f p).reaped = p.reaped) {q : Int} :
    Running (updateProc f pid procs) q ↔ Running procs q := by
  have hf : ∀ p : Proc, (if p.pid = pid ∧ p.reaped = false then f p else p).pid = p.pid ∧
      (if p.pid = pid ∧ p.reaped = false then f p else p).reaped = p.reaped := by
    intro p
    split
    · exact ⟨hpid p, hreaped p⟩
    · exact ⟨rfl, rfl⟩
  constructor
  · rintro ⟨p, hp, h₁, h₂⟩
    obtain ⟨x, hx, rfl⟩ := List.mem_map.mp hp
    exact ⟨x, hx, (hf x).1 ▸ h₁, (hf x).2 ▸ h₂⟩
  · rintro ⟨x, hx, h₁, h₂⟩
    exact ⟨_, List.mem_map_of_mem hx, (hf x).1.trans h₁, (hf x).2.trans h₂⟩

theorem running_append {p : Proc} {q : Int} :
    Running (procs ++ [p]) q ↔ Running procs q ∨ (p.pid = q ∧ p.reaped = false) := by
  simp only [Running, List.mem_append, List.mem_singleton]
  constructor
  · rintro ⟨x, hx | rfl, h⟩
    · exact Or.inl ⟨x, hx, h⟩
    · exact Or.inr h
  · rintro (⟨x, hx, h⟩ | h)
    · exact ⟨x, Or.inl hx, h⟩
    · exact ⟨p, Or.inr rfl, h⟩

theorem HandedOnce.append (h : HandedOnce procs) {p : Proc} (h₁ : p.handedTo.length ≤ 1)
    (h₂ : p.killedByPrefork = false) : HandedOnce (procs ++ [p]) where
  once q hq := by
    rcases List.mem_append.mp hq with hq | hq
    · exact h.once q hq
    · rw [List.mem_singleton.mp hq]
      exact h₁
  notKilled q hq hne := by
    rcases List.mem_append.mp hq with hq | hq
    · exact h.notKilled q hq hne
    · rw [List.mem_singleton.mp hq]
      exact h₂

theorem HandedOnce.update (h : HandedOnce procs) {f : Proc → Proc}
    (hf : ∀ p ∈ procs, p.pid = pid → p.reaped = false →
      (f p).handedTo.length ≤ 1 ∧ ((f p).handedTo ≠ [] → (f p).killedByPrefork = false)) :
    HandedOnce (updateProc f pid procs) where
  once p hp := by
    obtain ⟨q, hq, ⟨h₁, h₂, rfl⟩ | ⟨-, rfl⟩⟩ := mem_updateProc hp
    · exact (hf q hq h₁ h₂).1
    · exact h.once p hq
  notKilled p hp := by
    obtain ⟨q, hq, ⟨h₁, h₂, rfl⟩ | ⟨-, rfl⟩⟩ := mem_updateProc hp
    · exact (hf q hq h₁ h₂).2
    · exact h.notKilled p hq

theorem HandedOnce.reap (h : HandedOnce procs) (pid : Int) :
    HandedOnce (updateProc Proc.markReaped pid procs) :=
  h.update (fun p hp _ _ => ⟨h.once p hp, h.notKilled p hp⟩)

theorem Reserved.of_nonpos (h : HandedOnce procs) (hr : content.reservedPid ≤ 0) :
    Reserved content procs where
  handed := h
  running hp := absurd hp (Int.not_lt.mpr hr)
  inReserve hp := absurd hp (Int.not_lt.mpr hr)

/-- A change of the children that leaves those alone which run under `reservedPid`. -/
theorem Reserved.congr (h : Reserved content procs) {procs' : List Proc} (hh : HandedOnce procs')
    (hrun : Running procs content.reservedPid → Running procs' content.reservedPid)
    (hmem : 0 < content.reservedPid → ∀ p ∈ procs', p.pid = content.reservedPid →
      p.reaped = false → p ∈ procs) : Reserved content procs' where
  handed := hh
  running hp := hrun (h.running hp)
  inReserve hp p hm h₁ h₂ := h.inReserve hp p (hmem hp p hm h₁ h₂) h₁ h₂

theorem Reserved.mapped (h : Reserved content procs) (mapped : Bool) :
    Reserved { content with propertyBuffer := mapped } procs where
  handed := h.handed
  running := h.running
  inReserve hp p hm h₁ h₂ :=
    have hin := h.inReserve hp p hm h₁ h₂
    ⟨hin.handedTo, hin.notKilled, hin.pipes⟩

/-- A new child, under a pid that no running child has. -/
theorem Reserved.append (h : Reserved content procs) {p : Proc} (h₁ : p.handedTo.length ≤ 1)
    (h₂ : p.killedByPrefork = false) (hfresh : ¬ Running procs p.pid) :
    Reserved content (procs ++ [p]) := by
  refine h.congr (h.handed.append h₁ h₂) (fun hr => running_append.mpr (Or.inl hr)) ?_
  intro hp q hq hpid _
  rcases List.mem_append.mp hq with hq | hq
  · exact hq
  · rw [List.mem_singleton.mp hq] at hpid
    exact absurd (hpid ▸ h.running hp) hfresh

/-! ## Starting a child -/

/-- `ProcessPreFork` sets up a reservation, unless it gives up while there is an old one. -/
theorem reserved_processPreFork (base : Nat) (h : HandedOnce procs)
    (hfresh : ∀ pid ∈ env.preforkFork, ¬ Running procs pid)
    (hpipes : 0 < content.reservedPid → env.preforkPipe = true ∧ env.parentPipe = true) :
    Reserved (processPreFork env base content procs).1 (processPreFork env base content procs).2 := by
  have hold : ¬ (env.preforkPipe = true ∧ env.parentPipe = true) → content.reservedPid ≤ 0 :=
    fun hn => Int.not_lt.mp (fun hp => hn (hpipes hp))
  unfold processPreFork
  split
  · next h₁ => exact Reserved.of_nonpos h (hold (by simp [h₁]))
  · simp only
    split
    · next h₂ => exact Reserved.of_nonpos h (hold (by simp [h₂]))
    · split
      · exact Reserved.of_nonpos h (by simp)
      · next pid hpid =>
        refine ⟨h.append (by simp) rfl, fun _ => running_append.mpr (Or.inr ⟨rfl, rfl⟩), ?_⟩
        intro _ p hp hpp hr
        rcases List.mem_append.mp hp with hp | hp
        · exact absurd ⟨p, hp, hpp, hr⟩ (hfresh pid hpid)
        · rw [List.mem_singleton.mp hp]
          exact ⟨rfl, rfl, _, _, rfl, rfl, rfl⟩

/-- The plain fork adds at most one child, which is given to the request at once. -/
theorem forkChild_procs (k : Codes) (env : SpawnEnv) (base : Nat) (content : AppSpawnContent)
    (msg : AppSpawnMsg) (n : NodeId) (procs : List Proc) :
    (forkChild k env base content msg n procs).procs = procs ∨
      ∃ pid ∈ env.fork, (forkChild k env base content msg n procs).procs
        = procs ++ [{ pid, handedTo := [n] }] := by
  unfold forkChild appSpawnProcessMsg
  split
  · exact Or.inl rfl
  · split
    · exact Or.inl rfl
    · split
      · exact Or.inl rfl
      · next pid hpid => exact Or.inr ⟨pid, hpid, rfl⟩

theorem forkChild_content (k : Codes) (env : SpawnEnv) (base : Nat) (content : AppSpawnContent)
    (msg : AppSpawnMsg) (n : NodeId) (procs : List Proc) :
    (forkChild k env base content msg n procs).content = content := by
  unfold forkChild
  split <;> rfl

theorem reserved_forkChild (h : Reserved content procs)
    (hfresh : ∀ pid ∈ env.fork, ¬ Running procs pid) (k : Codes) (base : Nat) (msg : AppSpawnMsg)
    (n : NodeId) : Reserved content (forkChild k env base content msg n procs).procs := by
  rcases forkChild_procs k env base content msg n procs with he | ⟨pid, hpid, he⟩
  · rw [he]
    exact h
  · rw [he]
    exact h.append (Nat.le_refl 1) rfl (hfresh pid hpid)

/-- The reserved process is given away or killed, never both. -/
theorem handedOnce_handOver (h : Reserved content procs) (hpos : 0 < content.reservedPid)
    (env : SpawnEnv) (n : NodeId) : HandedOnce (handOver env content n procs).procs := by
  unfold handOver
  split
  · refine h.handed.update (fun p hp hpid hr => ?_)
    have hin := h.inReserve hpos p hp hpid hr
    simp [Proc.markHanded, hin.handedTo, hin.notKilled]
  · refine h.handed.update (fun p hp hpid hr => ?_)
    have hin := h.inReserve hpos p hp hpid hr
    simp [Proc.markKilled, hin.handedTo]

theorem running_handOver (env : SpawnEnv) (content : AppSpawnContent) (n : NodeId)
    (procs : List Proc) {q : Int} :
    Running (handOver env content n procs).procs q ↔ Running procs q := by
  unfold handOver
  split
  · exact running_updateProc (Proc.markHanded n) (fun _ => rfl) (fun _ => rfl)
  · exact running_updateProc Proc.markKilled (fun _ => rfl) (fun _ => rfl)

/-- The request is written to the reserved process, and `ProcessPreFork` runs behind that. -/
def SpawnEnv.Replaces (k : Codes) (env : SpawnEnv) (content : AppSpawnContent)
    (client : AppSpawnClient) (msg : AppSpawnMsg) : Prop :=
  env.bootFinished = true ∧ isSupportPrefork k content client msg = true ∧
    0 < content.reservedPid ∧ env.mapMem = true ∧ writePreforkMsg k msg = 0

/-- **Starting a child keeps the reservation sound**, if `ProcessPreFork` gets its pipes when it
has to replace the process that was given away. -/
theorem reserved_runAppSpawnProcessMsg {client : AppSpawnClient} {msg : AppSpawnMsg} {base : Nat}
    (h : Reserved content procs) (hfork : ∀ pid ∈ env.fork, ¬ Running procs pid)
    (hprefork : ∀ pid ∈ env.preforkFork, ¬ Running procs pid)
    (hdistinct : ∀ pid ∈ env.fork, env.preforkFork ≠ some pid)
    (hpipes : env.Replaces k content client msg → env.preforkPipe = true ∧ env.parentPipe = true) :
    Reserved (runAppSpawnProcessMsg k env base content client msg n procs).content
      (runAppSpawnProcessMsg k env base content client msg n procs).procs := by
  have hplain : Reserved (forkChild k env base content msg n procs).content
      (forkChild k env base content msg n procs).procs := by
    rw [forkChild_content]
    exact reserved_forkChild h hfork k base msg n
  unfold runAppSpawnProcessMsg
  split
  · next hs =>
    obtain ⟨hboot, hsupport⟩ := Bool.and_eq_true_iff.mp hs
    unfold appSpawnProcessMsgForPrefork
    split
    · next hnone =>
      split
      · exact h
      · -- a plain fork, and a first reservation
        refine reserved_processPreFork _ hplain.handed (fun pid hpid hr => ?_) (fun hp => ?_)
        · rcases forkChild_procs k env base content msg n procs with he | ⟨q, hq, he⟩
          · rw [he] at hr
            exact hprefork pid hpid hr
          · rw [he, running_append] at hr
            rcases hr with hr | ⟨rfl, -⟩
            · exact hprefork pid hpid hr
            · exact hdistinct _ hq hpid
        · rw [forkChild_content] at hp
          exact absurd hp (Int.not_lt.mpr hnone)
    · next hpos =>
      have hpos := Int.not_le.mp hpos
      split
      · exact h.mapped false
      · next hmap =>
        split
        · exact h.mapped false
        · next hwrite =>
          -- the reserved process is given away or killed, and replaced
          refine reserved_processPreFork _ (handedOnce_handOver (h.mapped true) hpos env n)
            (fun pid hpid hr => hprefork pid hpid ((running_handOver env _ n procs).mp hr))
            (fun _ => hpipes ⟨hboot, hsupport, hpos, by simpa using hmap, by simpa using hwrite⟩)
  · exact hplain

/-! ## The handlers -/

theorem handedOnce_stopServer (name : String) (h : HandedOnce s.procs) :
    HandedOnce (stopServer name s).procs := by
  unfold stopServer
  split
  · exact h
  · exact h.reap _

theorem stopReserved_reservedPid (s : Server) : (stopReserved s).content.reservedPid ≤ 0 := by
  unfold stopReserved
  split
  · exact Int.le_refl 0
  · next hn => exact Int.not_lt.mp hn

theorem stopReserved_procs (s : Server) : (stopReserved s).procs = s.procs := by
  unfold stopReserved
  split <;> simp

theorem foldl_destroy (apps : List AppSpawnedProcess) : ∀ s : Server,
    (apps.foldl appQueueDestroyProc s).content = s.content ∧
      (apps.foldl appQueueDestroyProc s).procs = s.procs := by
  induction apps with
  | nil => exact fun s => ⟨rfl, rfl⟩
  | cons app apps ih =>
    intro s
    have hstep : (appQueueDestroyProc s app).content = s.content ∧
        (appQueueDestroyProc s app).procs = s.procs := by
      simp only [appQueueDestroyProc]
      split <;> simp
    exact ⟨(ih _).1.trans hstep.1, (ih _).2.trans hstep.2⟩

theorem reserved_stopAppSpawn (h : HandedOnce s.procs) :
    Reserved (stopAppSpawn k s).content (stopAppSpawn k s).procs := by
  have hf := fun as t => foldl_destroy as t
  refine Reserved.of_nonpos ?_ ?_
  · simp only [stopAppSpawn]
    rw [(hf _ _).2, stopReserved_procs]
    exact handedOnce_stopServer _ (handedOnce_stopServer _ h)
  · simp only [stopAppSpawn]
    rw [(hf _ _).1]
    exact stopReserved_reservedPid _

theorem reserved_waitChildDied (h : Reserved s.content s.procs) :
    Reserved (waitChildDied k s pid).content (waitChildDied k s pid).procs := by
  unfold waitChildDied
  split
  · exact h
  · split
    · simp only
      split
      · exact reserved_stopAppSpawn h.handed
      · exact h
    · exact h

/-- The reserved process died, and the reservation is cleared; or another child died. -/
theorem Reserved.reap (h : Reserved content procs) (pid : Int) :
    Reserved (if pid = content.reservedPid then { content with reservedPid := 0 } else content)
      (updateProc Proc.markReaped pid procs) := by
  split
  · exact Reserved.of_nonpos (h.handed.reap pid) (Int.le_refl 0)
  · next hne =>
    refine h.congr (h.handed.reap pid) ?_ ?_
    · rintro ⟨p, hp, hpid, hr⟩
      refine ⟨p, List.mem_map.mpr ⟨p, hp, if_neg ?_⟩, hpid, hr⟩
      exact fun hc => hne (hc.1.symm.trans hpid)
    · intro _ p hp _ hr
      obtain ⟨q, hq, ⟨-, -, rfl⟩ | ⟨-, rfl⟩⟩ := mem_updateProc hp
      · cases hr
      · exact hq

theorem reserved_collect (h : Reserved s.content s.procs) (pid : Int) :
    Reserved (collect s pid).content (collect s pid).procs := by
  have hreap := h.reap pid
  unfold collect
  by_cases he : pid = s.content.reservedPid
  · rw [if_pos he] at hreap ⊢
    exact hreap
  · rw [if_neg he] at hreap ⊢
    exact hreap

theorem reserved_handleDiedPid (h : Reserved s.content s.procs) :
    Reserved (handleDiedPid k s pid).content (handleDiedPid k s pid).procs := by
  have hc := reserved_collect h pid
  simp only [handleDiedPid]
  split
  · exact reserved_waitChildDied hc
  · split
    · exact reserved_stopAppSpawn hc.handed
    · exact hc

theorem reserved_processSignal (h : Reserved s.content s.procs) (sig : Signal) :
    Reserved (processSignal k s sig).content (processSignal k s sig).procs := by
  cases sig with
  | sigchld pids =>
    have hf : ∀ (pids : List Int) (s : Server), Reserved s.content s.procs →
        Reserved (pids.foldl (reapChild k) s).content (pids.foldl (reapChild k) s).procs := by
      intro pids
      induction pids with
      | nil => exact fun _ h => h
      | cons pid pids ih =>
        intro s h
        refine ih _ ?_
        unfold reapChild
        split
        · exact reserved_handleDiedPid h
        · exact h
    simp only [processSignal]
    split
    · exact hf pids s h
    · exact hf pids s h
  | sigterm => exact reserved_stopAppSpawn h.handed
  | other => exact h

theorem reserved_spawnRequest {c : ConnId} {msg : AppSpawnMsg} (h : Reserved s.content s.procs)
    (hposs : env.Possible s)
    (hpipes : ∀ client ∈ env.ctx, env.checkRet = 0 →
      env.Replaces k s.content client (spawnMessage env c { id := s.nextId, msg }).msg →
        env.preforkPipe = true ∧ env.parentPipe = true) :
    Reserved (s.step k (.spawnRequest c msg env)).content
      (s.step k (.spawnRequest c msg env)).procs := by
  simp only [Server.step, processSpawnReqMsg]
  split
  · simpa using h
  · next hc =>
    split
    · simpa using h
    · next client hx =>
      rw [startChild_content, startChild_procs]
      exact reserved_runAppSpawnProcessMsg h
        (fun pid hp => waitable_eq_false.mp (hposs.fork pid hp).2)
        (fun pid hp => waitable_eq_false.mp (hposs.preforkFork pid hp).2) hposs.distinct
        (hpipes client hx (not_not.mp hc))

/-! ## The law of the reservation -/

/-- `ProcessPreFork` gets both its pipes when it runs behind a hand-over. -/
def ReplacesReserved (k : Codes) (s : Server) : Event → Prop
  | .spawnRequest c msg env => ∀ client ∈ env.ctx, env.checkRet = 0 →
      env.Replaces k s.content client (spawnMessage env c { id := s.nextId, msg }).msg →
        env.preforkPipe = true ∧ env.parentPipe = true
  | _ => True

/-- A process that was given away or killed, and is still on record. -/
theorem not_reserved_processPreFork {r : Started} {base : Nat} (hpos : 0 < r.content.reservedPid)
    (hbad : ∃ p ∈ r.procs, p.pid = r.content.reservedPid ∧ p.reaped = false ∧
      (p.handedTo ≠ [] ∨ p.killedByPrefork = true))
    (hpipes : ¬ (env.preforkPipe = true ∧ env.parentPipe = true)) :
    ¬ Reserved (r.preFork env base).content (r.preFork env base).procs := by
  intro h
  obtain ⟨p, hp, hpid, hr, hbad⟩ := hbad
  have hkeep : (processPreFork env base r.content r.procs).1.reservedPid = r.content.reservedPid ∧
      (processPreFork env base r.content r.procs).2 = r.procs := by
    unfold processPreFork
    split
    · exact ⟨rfl, rfl⟩
    · next h₁ =>
      simp only
      split
      · exact ⟨rfl, rfl⟩
      · next h₂ => exact absurd ⟨by simpa using h₁, by simpa using h₂⟩ hpipes
  obtain ⟨hc, hps⟩ := hkeep
  have h' : Reserved (processPreFork env base r.content r.procs).1
    (processPreFork env base r.content r.procs).2 := h
  have hin := h'.inReserve (by rw [hc]; exact hpos) p (by rw [hps]; exact hp)
    (by rw [hc]; exact hpid) hr
  rcases hbad with hbad | hbad
  · exact hbad hin.handedTo
  · rw [hin.notKilled] at hbad
    cases hbad

/-- The hand-over leaves a process that is not in reserve any more. -/
theorem handOver_bad (h : Reserved content procs) (hpos : 0 < content.reservedPid)
    (env : SpawnEnv) (n : NodeId) : ∃ p ∈ (handOver env content n procs).procs,
      p.pid = (handOver env content n procs).content.reservedPid ∧ p.reaped = false ∧
        (p.handedTo ≠ [] ∨ p.killedByPrefork = true) := by
  obtain ⟨p, hp, hpid, hr⟩ := h.running hpos
  unfold handOver
  split
  · refine ⟨_, List.mem_map_of_mem hp, ?_⟩
    rw [if_pos ⟨hpid, hr⟩]
    exact ⟨hpid, hr, Or.inl (List.cons_ne_nil _ _)⟩
  · refine ⟨_, List.mem_map_of_mem hp, ?_⟩
    rw [if_pos ⟨hpid, hr⟩]
    exact ⟨hpid, hr, Or.inr rfl⟩

theorem handOver_reservedPid (env : SpawnEnv) (content : AppSpawnContent) (n : NodeId)
    (procs : List Proc) :
    (handOver env content n procs).content.reservedPid = content.reservedPid := by
  unfold handOver
  split <;> rfl

/-- **A request that replaces the reserved process without getting the pipes for a new one
breaks the reservation.** -/
theorem not_reserved_runAppSpawnProcessMsg {client : AppSpawnClient} {msg : AppSpawnMsg}
    (base : Nat) (h : Reserved content procs) (hrep : env.Replaces k content client msg)
    (hpipes : ¬ (env.preforkPipe = true ∧ env.parentPipe = true)) :
    ¬ Reserved (runAppSpawnProcessMsg k env base content client msg n procs).content
      (runAppSpawnProcessMsg k env base content client msg n procs).procs := by
  obtain ⟨hboot, hsupport, hpos, hmap, hwrite⟩ := hrep
  have heq : runAppSpawnProcessMsg k env base content client msg n procs
      = (handOver env { content with propertyBuffer := true } n procs).preFork env (base + 1) := by
    simp [runAppSpawnProcessMsg, appSpawnProcessMsgForPrefork, hboot, hsupport,
      Int.not_le.mpr hpos, hmap, hwrite]
  rw [heq]
  refine not_reserved_processPreFork ?_ (handOver_bad (h.mapped true) hpos env n) hpipes
  rw [handOver_reservedPid]
  exact hpos

/-- Only spawn requests and signals touch the children and the reservation. -/
theorem frame_step (k : Codes) (s : Server) (e : Event) :
    ((s.step k e).content = s.content ∧ (s.step k e).procs = s.procs) ∨
      (∃ c msg env, e = .spawnRequest c msg env) ∨ ∃ sig, e = .signal sig := by
  cases e with
  | connection cred dev =>
    left
    simp only [Server.step, onConnection]
    split
    · exact ⟨rfl, rfl⟩
    · split <;> exact ⟨rfl, rfl⟩
  | spawnRequest c msg env => exact Or.inr (Or.inl ⟨c, msg, env, rfl⟩)
  | childResponse n bytes added =>
    left
    simp only [Server.step]
    split
    · exact ⟨rfl, rfl⟩
    · by_cases hr : readResult bytes = 0
      · rw [processChildResponse_of_eq hr]
        cases added <;> simp
      · rw [processChildResponse_of_ne hr]
        simp
  | childTimeout n =>
    left
    simp only [Server.step, waitChildTimeout]
    split
    · exact ⟨rfl, rfl⟩
    · split <;> simp
  | signal sig => exact Or.inr (Or.inr ⟨sig, rfl⟩)
  | close c =>
    obtain ⟨_, _, _, _, _, heq, -⟩ := closeTask_eq s c
    exact Or.inl ⟨by simp only [Server.step, heq], by simp only [Server.step, heq]⟩
  | sendComplete pid failed =>
    left
    simp only [Server.step, sendMessageComplete]
    split
    · exact ⟨rfl, rfl⟩
    · split <;> simp

/-- One step keeps the reservation sound just in case it gets the pipes it needs. -/
theorem reserved_step_iff (s : Server) (e : Event) (h : Reserved s.content s.procs)
    (he : (system k).enabled s e) :
    Reserved (s.step k e).content (s.step k e).procs ↔ ReplacesReserved k s e := by
  by_cases hspawn : ∃ c msg env, e = .spawnRequest c msg env
  · obtain ⟨c, msg, env, rfl⟩ := hspawn
    refine ⟨fun hr client hx hc hrep => ?_, fun hok => reserved_spawnRequest h he.2.2 hok⟩
    by_contra hpipes
    refine not_reserved_runAppSpawnProcessMsg (n := s.nextId) (s.nextId + 1) h hrep hpipes ?_
    simp only [Server.step, processSpawnReqMsg, hc, show env.ctx = some client from hx, ne_eq,
      not_true_eq_false, if_false, startChild_content, startChild_procs] at hr
    exact hr
  · by_cases hsig : ∃ sig, e = .signal sig
    · obtain ⟨sig, rfl⟩ := hsig
      exact ⟨fun _ => trivial, fun _ => reserved_processSignal h sig⟩
    · have hok : ReplacesReserved k s e := by
        cases e with
        | spawnRequest c msg env => exact absurd ⟨c, msg, env, rfl⟩ hspawn
        | _ => trivial
      rcases frame_step k s e with ⟨hc, hp⟩ | hx | hx
      · rw [hc, hp]
        exact ⟨fun _ => hok, fun _ => h⟩
      · exact absurd hx hspawn
      · exact absurd hx hsig

theorem reserved_of_init (h : (system k).init s) : Reserved s.content s.procs := by
  obtain ⟨content, nwebspawn, hr, -, rfl⟩ := h
  refine Reserved.of_nonpos ⟨fun p hp => ?_, fun p hp hne => ?_⟩ hr
  · obtain ⟨pid, -, rfl⟩ := List.mem_map.mp hp
    exact Nat.zero_le 1
  · obtain ⟨pid, -, rfl⟩ := List.mem_map.mp hp
    rfl

/-- **The reservation is sound throughout a run just in case every request of the run that
gives the reserved process away gets the pipes for a new one.** -/
theorem reserved_throughout_iff {es : List Event} (hi : (system k).init s)
    (hr : (system k).Run s es s') :
    (system k).Throughout (fun t => Reserved t.content t.procs) s es ↔
      ((system k).restrict (ReplacesReserved k)).Run s es s' :=
  hr.throughout_iff reserved_step_iff (reserved_of_init hi)

/-- A request after boot: a plain fork if need be, and the fork in reserve. -/
def sampleReserve (fork preforkFork : Option Int) : Event :=
  .spawnRequest 1 sampleMsg { sampleEnv with bootFinished := true, fork, preforkFork }

/-- A first reservation; the next request takes it and sets up another one. -/
theorem reserved_throughout_iff_run : ∃ es : List Event, es.length = 3 ∧
    ((system sampleCodes).Throughout (fun t => Reserved t.content t.procs) sampleLaunch es ↔
      ((system sampleCodes).restrict (ReplacesReserved sampleCodes)).Run sampleLaunch es
        (es.foldl (system sampleCodes).step sampleLaunch)) :=
  ⟨[.connection (some 0) false, sampleReserve (some 100) (some 200), sampleReserve none (some 300)],
    rfl, reserved_throughout_iff ⟨_, _, by decide, by decide, rfl⟩
      (System.Run.of_enabledAll (by decide +kernel))⟩

/-- Two requests for which the first pipe of `ProcessPreFork` fails. -/
def doubleHandOut : List Event :=
  [.connection (some 0) false, sampleReserve (some 100) (some 200),
    .spawnRequest 1 sampleMsg { sampleEnv with bootFinished := true, fork := none, preforkPipe := false },
    .spawnRequest 1 sampleMsg { sampleEnv with bootFinished := true, fork := none, preforkPipe := false }]

/-- The process that was given to one request is given to the next one, too. -/
theorem handed_out_twice : ∃ t, (system sampleCodes).Reachable t ∧
    (∃ p ∈ t.procs, p.pid = t.content.reservedPid ∧ p.handedTo.length = 2) ∧
      ¬ Reserved t.content t.procs := by
  have hr := sampleRun doubleHandOut (by decide +kernel)
  have hp : ∃ p ∈ (doubleHandOut.foldl (fun s e => s.step sampleCodes e) sampleLaunch).procs,
      p.pid = (doubleHandOut.foldl
        (fun s e => s.step sampleCodes e) sampleLaunch).content.reservedPid ∧
      p.handedTo.length = 2 := by decide +kernel
  refine ⟨_, hr, hp, fun h => ?_⟩
  obtain ⟨p, hp, -, hlen⟩ := hp
  have := h.handed.once p hp
  omega

end Appspawn
