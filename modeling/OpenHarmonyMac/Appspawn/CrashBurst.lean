import Mathlib.Data.Finset.Card
import Mathlib.Order.Interval.Finset.Basic
import Mathlib.Data.Int.Interval
import OpenHarmonyMac.Infra.Streak
import OpenHarmonyMac.Appspawn.Tracking

/-!
# Restart on a burst of crashes

`WaitChildDied` keeps the client id of the last child that died while it was being spawned, and a
counter. Five such deaths in a row whose client ids follow each other stop the server.

* `restart_on_burst` — at each death the server is stopped just in case the last five are like that
-/

namespace Appspawn

open Infra

variable {k : Codes} {s s' t u : Server} {procs : List Proc} {pid : Int} {n : NodeId}
  {env : SpawnEnv} {deaths : List UInt32} {ctx : AppSpawningCtx}

/-! ## Deaths -/

/-- The client id of the child that `waitpid` reports, if it dies while it is being spawned. -/
def diedSpawning (s : Server) (pid : Int) : Option UInt32 :=
  if s.waitable pid = true ∧ s.getSpawnedProcess pid = none then
    match s.getAppSpawningCtxByPid pid with
    | none => none
    | some property => if property.state = .spawning then some property.client.id else none
  else none

/-- The `waitpid` loop, one child after the other. -/
def reaping (k : Codes) : System Server Int where
  init _ := True
  enabled _ _ := True
  step := reapChild k

/-- The deaths that the loop reports of children still being spawned. -/
def deathsAmong (k : Codes) (s : Server) (pids : List Int) : List UInt32 :=
  (reaping k).emitted (fun s pid => (diedSpawning s pid).toList) s pids

def deathsOf (k : Codes) (s : Server) : Event → List UInt32
  | .signal (.sigchld pids) => deathsAmong k s pids
  | _ => []

/-- The deaths of a whole run. -/
def deathsIn (k : Codes) (s : Server) (es : List Event) : List UInt32 :=
  (system k).emitted (deathsOf k) s es

/-- `WaitChildDied` up to its check of the counter. -/
def recordDeath (k : Codes) (s : Server) (property : AppSpawningCtx) : Server :=
  (countCrash (s.use property.message.id) property.client.id).answer property k.childCrash 0

/-- The counter and the last client id tell which deaths at the end follow each other. -/
def Counted (s : Server) (deaths : List UInt32) : Prop :=
  Tally (· + 1) 0 s.crashTimes.toNat s.lastDiedAppId deaths

/-! ## The children that run -/

def runningPids (procs : List Proc) : List Int := (procs.filter fun p => !p.reaped).map (·.pid)

theorem mem_runningPids : pid ∈ runningPids procs ↔ Running procs pid := by
  unfold runningPids Running
  rw [List.mem_map]
  refine exists_congr fun p => ?_
  rw [List.mem_filter, Bool.not_eq_true', and_assoc, and_comm (a := p.reaped = false)]

theorem runningPids_cons (p : Proc) : runningPids (p :: procs) =
    if p.reaped then runningPids procs else p.pid :: runningPids procs := by
  unfold runningPids
  cases hp : p.reaped <;> simp [hp]

theorem runningPids_append (p : Proc) (hp : p.reaped = false) :
    runningPids (procs ++ [p]) = runningPids procs ++ [p.pid] := by
  simp [runningPids, hp]

theorem updateProc_cons (f : Proc → Proc) (p : Proc) : updateProc f pid (p :: procs) =
    (if p.pid = pid ∧ p.reaped = false then f p else p) :: updateProc f pid procs := rfl

theorem runningPids_updateProc (f : Proc → Proc) (hpid : ∀ p, (f p).pid = p.pid)
    (hreaped : ∀ p, (f p).reaped = p.reaped) :
    runningPids (updateProc f pid procs) = runningPids procs := by
  induction procs with
  | nil => rfl
  | cons p procs ih =>
    rw [updateProc_cons, runningPids_cons, runningPids_cons, ih]
    split <;> simp [hpid, hreaped]

/-- A child that is reaped does not run any more. -/
theorem runningPids_reap :
    runningPids (updateProc Proc.markReaped pid procs) = (runningPids procs).filter (· ≠ pid) := by
  induction procs with
  | nil => rfl
  | cons p procs ih =>
    rw [updateProc_cons, runningPids_cons, runningPids_cons, ih]
    cases hp : p.reaped with
    | true => simp [hp]
    | false =>
      by_cases hpid : p.pid = pid
      · simp [hpid, Proc.markReaped]
      · simp [hp, hpid]

/-- What the kernel promises of pids. -/
structure DistinctPids (procs : List Proc) : Prop where
  nodup : (runningPids procs).Nodup
  pos : ∀ pid ∈ runningPids procs, 0 < pid

theorem DistinctPids.of_sublist {procs' : List Proc} (h : DistinctPids procs)
    (hsub : (runningPids procs').Sublist (runningPids procs)) : DistinctPids procs' where
  nodup := h.nodup.sublist hsub
  pos pid hpid := h.pos pid (hsub.subset hpid)

/-- A `pid_t` has 31 bits besides its sign, so there are not more children than that. -/
theorem DistinctPids.length_lt (h : DistinctPids procs) (hrange : ∀ p ∈ procs, p.pid < 2 ^ 31) :
    (runningPids procs).length < 2 ^ 31 := by
  have hsub : (runningPids procs).toFinset ⊆ Finset.Ioo 0 (2 ^ 31) := by
    intro pid hpid
    rw [List.mem_toFinset] at hpid
    obtain ⟨p, hp, rfl, -⟩ := mem_runningPids.mp hpid
    exact Finset.mem_Ioo.mpr ⟨h.pos _ hpid, hrange p hp⟩
  have hcard := Finset.card_le_card hsub
  rw [List.toFinset_card_of_nodup h.nodup, Int.card_Ioo] at hcard
  exact Nat.lt_of_le_of_lt hcard (by decide)

/-! ## What the handlers leave alone -/

/-- The counter and the client id are as before. -/
structure SameCount (s s' : Server) : Prop where
  crashTimes : s'.crashTimes = s.crashTimes
  lastDiedAppId : s'.lastDiedAppId = s.lastDiedAppId

theorem SameCount.trans (h : SameCount s t) (h' : SameCount t u) : SameCount s u :=
  ⟨h'.crashTimes.trans h.crashTimes, h'.lastDiedAppId.trans h.lastDiedAppId⟩

theorem SameCount.counted (h : SameCount s s') (hs : Counted s deaths) : Counted s' deaths := by
  unfold Counted
  rw [h.crashTimes, h.lastDiedAppId]
  exact hs

theorem sameCount_stopServer (name : String) (s : Server) : SameCount s (stopServer name s) := by
  unfold stopServer
  split <;> exact ⟨rfl, rfl⟩

theorem sameCount_stopReserved (s : Server) : SameCount s (stopReserved s) := by
  unfold stopReserved
  split <;> exact ⟨rfl, rfl⟩

theorem sameCount_destroy (apps : List AppSpawnedProcess) :
    SameCount s (apps.foldl appQueueDestroyProc s) := by
  induction apps generalizing s with
  | nil => exact ⟨rfl, rfl⟩
  | cons app apps ih =>
    have happ : SameCount s (appQueueDestroyProc s app) := by
      simp only [appQueueDestroyProc]
      split <;> exact ⟨rfl, rfl⟩
    exact happ.trans ih

theorem sameCount_stopAppSpawn (k : Codes) (s : Server) : SameCount s (stopAppSpawn k s) := by
  have hservers := (sameCount_stopServer k.nwebspawnServerName s).trans
    (sameCount_stopServer k.nativespawnServerName _)
  have hdestroy := (hservers.trans (sameCount_stopReserved _)).trans
    (sameCount_destroy (stopReserved (stopServer k.nativespawnServerName
      (stopServer k.nwebspawnServerName s))).appQueue)
  exact ⟨hdestroy.crashTimes, hdestroy.lastDiedAppId⟩

theorem SameCount.of_closeTask (s : Server) (c : ConnId) : SameCount s (closeTask s c) := by
  obtain ⟨_, _, _, _, _, heq, -⟩ := closeTask_eq s c
  rw [heq]
  exact ⟨rfl, rfl⟩

theorem sameCount_startChild (env : SpawnEnv) (s : Server) (client : AppSpawnClient)
    (m : AppSpawnMsgNode) : SameCount s (startChild k env s client m) := by
  rw [startChild_eq k env s client m rfl rfl]
  split
  · exact ⟨rfl, rfl⟩
  · split <;> exact ⟨rfl, rfl⟩

/-- Only signals count deaths. -/
theorem sameCount_step {e : Event} (h : ∀ pids, e ≠ .signal (.sigchld pids)) :
    SameCount s (s.step k e) := by
  cases e with
  | connection cred dev =>
    simp only [Server.step, onConnection]
    split
    · exact ⟨rfl, rfl⟩
    · split <;> exact ⟨rfl, rfl⟩
  | spawnRequest c msg env =>
    simp only [Server.step, processSpawnReqMsg]
    split
    · exact ⟨by simp, by simp⟩
    · split
      · exact ⟨by simp, by simp⟩
      · next client _ =>
        have hstart := sameCount_startChild (k := k) env
          ((s.createAppSpawnMsg.use s.nextId).noteRequest c s.nextId) client
          (spawnMessage env c { id := s.nextId, msg })
        exact ⟨hstart.crashTimes, hstart.lastDiedAppId⟩
  | childResponse n bytes added =>
    simp only [Server.step]
    split
    · exact ⟨rfl, rfl⟩
    · by_cases hr : readResult bytes = 0
      · rw [processChildResponse_of_eq hr]
        cases added <;> exact ⟨by simp, by simp⟩
      · rw [processChildResponse_of_ne hr]
        exact ⟨by simp, by simp⟩
  | childTimeout n =>
    simp only [Server.step, waitChildTimeout]
    split
    · exact ⟨rfl, rfl⟩
    · split <;> exact ⟨by simp, by simp⟩
  | signal sig =>
    cases sig with
    | sigchld pids => exact absurd rfl (h pids)
    | sigterm => exact sameCount_stopAppSpawn k s
    | other => exact ⟨rfl, rfl⟩
  | close c => exact SameCount.of_closeTask s c
  | sendComplete pid failed =>
    simp only [Server.step, sendMessageComplete]
    split
    · exact ⟨rfl, rfl⟩
    · split <;> exact ⟨rfl, rfl⟩

/-- Handling signals forks nothing. -/
theorem runningPids_effects (h : Effects s s') :
    (runningPids s'.procs).Sublist (runningPids s.procs) := by
  induction h with
  | refl => exact List.Sublist.refl _
  | tail _ he ih =>
    cases he with
    | reap pid =>
      refine List.Sublist.trans ?_ ih
      rw [Server.reap_procs, runningPids_reap]
      exact List.filter_sublist
    | _ => exact ih

theorem pids_effects (h : Effects s s') : s'.procs.map (·.pid) = s.procs.map (·.pid) := by
  induction h with
  | refl => rfl
  | tail _ he ih =>
    cases he with
    | reap pid =>
      rw [← ih, Server.reap_procs]
      unfold updateProc
      rw [List.map_map]
      refine List.map_congr_left fun p _ => ?_
      show (if _ then _ else _ : Proc).pid = _
      split <;> rfl
    | _ => exact ih

/-! ## A child is reaped -/

theorem diedSpawning_eq_some {id : UInt32} : diedSpawning s pid = some id ↔
    s.waitable pid = true ∧ s.getSpawnedProcess pid = none ∧
      ∃ ctx, s.getAppSpawningCtxByPid pid = some ctx ∧ ctx.state = .spawning ∧
        ctx.client.id = id := by
  unfold diedSpawning
  by_cases hw : s.waitable pid = true ∧ s.getSpawnedProcess pid = none
  · cases hctx : s.getAppSpawningCtxByPid pid with
    | none => simp [hw]
    | some ctx => simp [hw]
  · rw [if_neg hw]
    constructor
    · intro h
      cases h
    · rintro ⟨h₁, h₂, -⟩
      exact absurd ⟨h₁, h₂⟩ hw

/-- **The death of a child still being spawned**: it is recorded, and the counter is checked. -/
theorem reapChild_of_spawning (hw : s.waitable pid = true) (hs : s.getSpawnedProcess pid = none)
    (hctx : s.getAppSpawningCtxByPid pid = some ctx) (hstate : ctx.state = .spawning) :
    reapChild k s pid =
      if MAX_CRASH_TIME ≤ (recordDeath k (collect s pid) ctx).crashTimes then
        stopAppSpawn k (recordDeath k (collect s pid) ctx)
      else recordDeath k (collect s pid) ctx := by
  unfold reapChild
  rw [if_pos hw]
  obtain ⟨content, hcollect⟩ := collect_eq s pid
  have hs' : (s.reported content pid).getSpawnedProcess pid = none := hs
  have hctx' : (s.reported content pid).getAppSpawningCtxByPid pid = some ctx := hctx
  simp only [handleDiedPid, waitChildDied, hcollect, hs', hctx', hstate, if_true]
  rfl

theorem sameCount_collect (s : Server) (pid : Int) : SameCount s (collect s pid) := by
  obtain ⟨content, hcollect⟩ := collect_eq s pid
  rw [hcollect]
  exact ⟨rfl, rfl⟩

/-- The deaths of other children count nothing. -/
theorem sameCount_reapChild (h : diedSpawning s pid = none) : SameCount s (reapChild k s pid) := by
  unfold reapChild
  by_cases hw : s.waitable pid = true
  · rw [if_pos hw]
    obtain ⟨content, hcollect⟩ := collect_eq s pid
    have hcount : SameCount s (s.reported content pid) := ⟨rfl, rfl⟩
    simp only [handleDiedPid, hcollect]
    cases hs : (s.reported content pid).getSpawnedProcess pid with
    | none =>
      simp only [waitChildDied]
      cases hctx : (s.reported content pid).getAppSpawningCtxByPid pid with
      | none => exact hcount
      | some ctx =>
        by_cases hstate : ctx.state = .spawning
        · -- such a death would have been counted
          rw [diedSpawning_eq_some.mpr ⟨hw, hs, ctx, hctx, hstate, rfl⟩] at h
          cases h
        · simp only [hstate, if_false]
          exact hcount
    | some app =>
      have hterm : SameCount s ((s.reported content pid).terminateSpawnedProcess app) := ⟨rfl, rfl⟩
      simp only
      split
      · exact hterm.trans (sameCount_stopAppSpawn k _)
      · exact hterm
  · rw [if_neg hw]
    exact ⟨rfl, rfl⟩

/-- What holds between two deaths of one signal. The counter cannot overflow: there are not as many
children. -/
structure Counting (s : Server) (deaths : List UInt32) : Prop where
  counted : Counted s deaths
  room : s.crashTimes.toNat + (runningPids s.procs).length < 2 ^ 32

theorem crashTimes_recordDeath : (recordDeath k s ctx).crashTimes =
    if ctx.client.id = s.lastDiedAppId + 1 then s.crashTimes + 1 else 1 := by
  simp [recordDeath]

/-- The death is counted, if there is room. -/
theorem Counted.recordDeath (h : Counted s deaths) (hroom : s.crashTimes.toNat + 1 < 2 ^ 32) :
    Counted (recordDeath k s ctx) (deaths ++ [ctx.client.id]) := by
  have hnext := Tally.concat (y := ctx.client.id) h
  have hcrash : (Appspawn.recordDeath k s ctx).crashTimes.toNat =
      if ctx.client.id = s.lastDiedAppId + 1 then s.crashTimes.toNat + 1 else 1 := by
    rw [crashTimes_recordDeath]
    split
    · rw [UInt32.toNat_add, UInt32.toNat_one, Nat.mod_eq_of_lt hroom]
    · rfl
  have hlast : (Appspawn.recordDeath k s ctx).lastDiedAppId = ctx.client.id := by
    simp [Appspawn.recordDeath]
  unfold Counted
  rw [hcrash, hlast]
  exact hnext

theorem length_runningPids_collect (hw : s.waitable pid = true) :
    (runningPids (collect s pid).procs).length < (runningPids s.procs).length := by
  obtain ⟨content, hcollect⟩ := collect_eq s pid
  have hmem := mem_runningPids.mpr (waitable_iff.mp hw)
  rw [hcollect]
  show (runningPids (updateProc Proc.markReaped pid s.procs)).length < _
  rw [runningPids_reap]
  exact List.length_filter_lt_length_iff_exists.mpr ⟨pid, hmem, by simp⟩

theorem Counting.lt (h : Counting s deaths) (hw : s.waitable pid = true) :
    s.crashTimes.toNat + 1 < 2 ^ 32 := by
  have hroom := h.room
  have hless := length_runningPids_collect hw
  omega

theorem Counting.reapChild (h : Counting s deaths) (pid : Int) :
    Counting (reapChild k s pid) (deaths ++ (diedSpawning s pid).toList) := by
  cases hdied : diedSpawning s pid with
  | none =>
    have hcount := sameCount_reapChild (k := k) hdied
    have hless := (runningPids_effects (effects_reapChild k s pid)).length_le
    have hroom := h.room
    refine ⟨by simpa using hcount.counted h.counted, ?_⟩
    rw [hcount.crashTimes]
    omega
  | some id =>
    obtain ⟨hw, hs, ctx, hctx, hstate, rfl⟩ := diedSpawning_eq_some.mp hdied
    have hsame : SameCount s (collect s pid) := sameCount_collect s pid
    have hlt := h.lt hw
    have hrecord : Counted (recordDeath k (collect s pid) ctx) (deaths ++ [ctx.client.id]) := by
      refine (hsame.counted h.counted).recordDeath ?_
      rwa [hsame.crashTimes]
    -- The counter grows by one at most, and a child less runs.
    have hroom : (recordDeath k (collect s pid) ctx).crashTimes.toNat +
        (runningPids (recordDeath k (collect s pid) ctx).procs).length < 2 ^ 32 := by
      have hprocs : (recordDeath k (collect s pid) ctx).procs = (collect s pid).procs := by
        simp [recordDeath]
      have hless := length_runningPids_collect hw
      have hold := h.room
      have hle : (recordDeath k (collect s pid) ctx).crashTimes.toNat ≤ s.crashTimes.toNat + 1 := by
        rw [crashTimes_recordDeath, hsame.crashTimes]
        split
        · rw [UInt32.toNat_add, UInt32.toNat_one, Nat.mod_eq_of_lt hlt]
        · exact Nat.le_add_left 1 _
      rw [hprocs]
      omega
    rw [reapChild_of_spawning hw hs hctx hstate]
    split
    · have hstop := sameCount_stopAppSpawn k (recordDeath k (collect s pid) ctx)
      have hless := (runningPids_effects
        (effects_stopAppSpawn k (recordDeath k (collect s pid) ctx))).length_le
      refine ⟨hstop.counted hrecord, ?_⟩
      rw [hstop.crashTimes]
      omega
    · exact ⟨hrecord, hroom⟩

theorem reaping_run (pids : List Int) : (reaping k).Run s pids (pids.foldl (reapChild k) s) := by
  induction pids generalizing s with
  | nil => exact System.Run.nil s
  | cons pid pids ih => exact System.Run.cons trivial ih

theorem Counting.foldl (h : Counting s deaths) (pids : List Int) :
    Counting (pids.foldl (Appspawn.reapChild k) s) (deaths ++ deathsAmong k s pids) :=
  (reaping_run pids).invariant_emitted (fun _ pid _ h _ => h.reapChild pid) h

/-! ## Children are forked -/

/-- From `procs` to `procs'` children with these pids are forked. -/
structure Forked (procs procs' : List Proc) (news : List Int) : Prop where
  running : runningPids procs' = runningPids procs ++ news
  pids : procs'.map (·.pid) = procs.map (·.pid) ++ news

theorem Forked.refl (procs : List Proc) : Forked procs procs [] :=
  ⟨(List.append_nil _).symm, (List.append_nil _).symm⟩

theorem Forked.append {procs' : List Proc} {news : List Int} (h : Forked procs procs' news)
    {p : Proc} (hp : p.reaped = false) : Forked procs (procs' ++ [p]) (news ++ [p.pid]) where
  running := by rw [runningPids_append p hp, h.running, List.append_assoc]
  pids := by simp [h.pids]

theorem Forked.update {f : Proc → Proc} (hpid : ∀ p, (f p).pid = p.pid)
    (hreaped : ∀ p, (f p).reaped = p.reaped) : Forked procs (updateProc f pid procs) [] where
  running := by rw [runningPids_updateProc f hpid hreaped, List.append_nil]
  pids := by
    rw [List.append_nil]
    unfold updateProc
    rw [List.map_map]
    refine List.map_congr_left fun p _ => ?_
    show (if _ then _ else _ : Proc).pid = _
    split
    · exact hpid p
    · rfl

theorem Forked.preFork {r : Started} {news : List Int} (h : Forked procs r.procs news)
    (env : SpawnEnv) (base : Nat) :
    ∃ more, more.Sublist env.preforkFork.toList ∧
      Forked procs (r.preFork env base).procs (news ++ more) := by
  rcases preFork_procs env base r with he | ⟨pid, hpid, he⟩
  · exact ⟨[], List.nil_sublist _, by rwa [he, List.append_nil]⟩
  · refine ⟨[pid], ?_, by rw [he]; exact h.append rfl⟩
    rw [Option.mem_def.mp hpid]
    exact List.Sublist.refl _

theorem forked_forkChild (k : Codes) (env : SpawnEnv) (base : Nat) (content : AppSpawnContent)
    (msg : AppSpawnMsg) (n : NodeId) (procs : List Proc) :
    ∃ news, news.Sublist env.fork.toList ∧
      Forked procs (forkChild k env base content msg n procs).procs news := by
  rcases forkChild_procs k env base content msg n procs with he | ⟨pid, hpid, he⟩
  · exact ⟨[], List.nil_sublist _, by rw [he]; exact Forked.refl procs⟩
  · refine ⟨[pid], ?_, by rw [he]; exact (Forked.refl procs).append rfl⟩
    rw [Option.mem_def.mp hpid]
    exact List.Sublist.refl _

theorem forked_handOver (env : SpawnEnv) (content : AppSpawnContent) (n : NodeId)
    (procs : List Proc) : Forked procs (handOver env content n procs).procs [] := by
  unfold handOver
  split
  · exact Forked.update (fun _ => rfl) fun _ => rfl
  · exact Forked.update (fun _ => rfl) fun _ => rfl

/-- A request forks the child that `fork` returns and the one in reserve, or less. -/
theorem forked_runAppSpawnProcessMsg (k : Codes) (env : SpawnEnv) (base : Nat)
    (content : AppSpawnContent) (client : AppSpawnClient) (msg : AppSpawnMsg) (n : NodeId)
    (procs : List Proc) :
    ∃ news, news.Sublist (env.fork.toList ++ env.preforkFork.toList) ∧
      Forked procs (runAppSpawnProcessMsg k env base content client msg n procs).procs news := by
  have hsame : ∃ news, news.Sublist (env.fork.toList ++ env.preforkFork.toList) ∧
      Forked procs procs news := ⟨[], List.nil_sublist _, Forked.refl procs⟩
  obtain ⟨news, hsub, hfork⟩ := forked_forkChild k env base content msg n procs
  unfold runAppSpawnProcessMsg
  split
  · unfold appSpawnProcessMsgForPrefork
    split
    · split
      · exact hsame
      · obtain ⟨more, hmore, hboth⟩ := hfork.preFork env (base + 1)
        exact ⟨news ++ more, hsub.append hmore, hboth⟩
    · split
      · exact hsame
      · split
        · exact hsame
        · obtain ⟨more, hmore, hboth⟩ := (forked_handOver env { content with propertyBuffer := true }
            n procs).preFork env (base + 1)
          exact ⟨more, hmore.trans (List.sublist_append_right _ _), hboth⟩
  · exact ⟨news, hsub.trans (List.sublist_append_left _ _), hfork⟩

theorem DistinctPids.forked {procs' : List Proc} {news : List Int} (h : DistinctPids procs)
    (hforked : Forked procs procs' news) (hnodup : news.Nodup)
    (hnew : ∀ pid ∈ news, 0 < pid ∧ ¬ Running procs pid) : DistinctPids procs' where
  nodup := by
    rw [hforked.running]
    refine List.Nodup.append h.nodup hnodup ?_
    intro pid hold hpid
    exact (hnew pid hpid).2 (mem_runningPids.mp hold)
  pos pid hpid := by
    rw [hforked.running] at hpid
    rcases List.mem_append.mp hpid with hold | hpid
    · exact h.pos pid hold
    · exact (hnew pid hpid).1

/-- What a step makes of the children: they are the same, some are reaped, or some are forked. -/
theorem step_children {e : Event} (he : (system k).enabled s e) :
    Effects s (s.step k e) ∨ (s.step k e).procs = s.procs ∨
      ∃ news, Forked s.procs (s.step k e).procs news ∧ news.Nodup ∧
        ∀ pid ∈ news, 0 < pid ∧ ¬ Running s.procs pid := by
  rcases frame_step k s e with ⟨-, hprocs⟩ | ⟨c, msg, env, rfl⟩ | ⟨sig, rfl⟩
  · exact Or.inr (Or.inl hprocs)
  · obtain ⟨-, -, hposs⟩ := he
    refine Or.inr ?_
    simp only [Server.step, processSpawnReqMsg]
    split
    · exact Or.inl (by simp)
    · split
      · exact Or.inl (by simp)
      · next client _ =>
        rw [startChild_procs]
        obtain ⟨news, hsub, hforked⟩ := forked_runAppSpawnProcessMsg k env (s.nextId + 1) s.content
          client (spawnMessage env c { id := s.nextId, msg }).msg s.nextId s.procs
        refine Or.inr ⟨news, hforked, hsub.nodup ?_, fun pid hpid => ?_⟩
        · cases hf : env.fork with
          | none => cases env.preforkFork <;> simp
          | some pid =>
            have hne := hposs.distinct pid hf
            cases hp : env.preforkFork with
            | none => simp
            | some q =>
              rw [hp] at hne
              simpa [eq_comm] using hne
        · rcases List.mem_append.mp (hsub.subset hpid) with hp | hp
          · obtain ⟨hpos, hfresh⟩ := hposs.fork pid (Option.mem_toList.mp hp)
            exact ⟨hpos, waitable_eq_false.mp hfresh⟩
          · obtain ⟨hpos, hfresh⟩ := hposs.preforkFork pid (Option.mem_toList.mp hp)
            exact ⟨hpos, waitable_eq_false.mp hfresh⟩
  · exact Or.inl (effects_processSignal k s sig)

theorem DistinctPids.step {e : Event} (h : DistinctPids s.procs) (he : (system k).enabled s e) :
    DistinctPids (s.step k e).procs := by
  rcases step_children he with heff | hprocs | ⟨news, hforked, hnodup, hnew⟩
  · exact h.of_sublist (runningPids_effects heff)
  · rwa [hprocs]
  · exact h.forked hforked hnodup hnew

/-- No child is forgotten. -/
theorem pids_step {e : Event} (he : (system k).enabled s e) :
    s.procs.map (·.pid) ⊆ (s.step k e).procs.map (·.pid) := by
  rcases step_children he with heff | hprocs | ⟨news, hforked, -, -⟩
  · rw [pids_effects heff]
    exact List.Subset.refl _
  · rw [hprocs]
    exact List.Subset.refl _
  · rw [hforked.pids]
    exact List.subset_append_left _ _

/-! ## Whole runs -/

/-- A server whose loop has not been stopped has not seen five such deaths. -/
def Going (s : Server) : Prop := s.loopStopped = false → s.crashTimes < MAX_CRASH_TIME

theorem Going.of_sameCount (h : Going s) (hcount : SameCount s s')
    (hloop : s.loopStopped = true → s'.loopStopped = true) : Going s' := by
  intro hs'
  rw [hcount.crashTimes]
  refine h ?_
  by_contra hs
  rw [Bool.not_eq_false] at hs
  rw [hloop hs] at hs'
  cases hs'

theorem Going.reapChild (h : Going s) (pid : Int) : Going (reapChild k s pid) := by
  cases hdied : diedSpawning s pid with
  | none =>
    exact h.of_sameCount (sameCount_reapChild hdied) (effects_reapChild k s pid).loopStopped
  | some id =>
    obtain ⟨hw, hs, ctx, hctx, hstate, -⟩ := diedSpawning_eq_some.mp hdied
    rw [reapChild_of_spawning hw hs hctx hstate]
    split
    · intro hgo
      cases hgo
    · next hle =>
      intro _
      exact UInt32.not_le.mp hle

theorem Going.foldl (h : Going s) (pids : List Int) :
    Going (pids.foldl (Appspawn.reapChild k) s) :=
  (reaping_run pids).invariant (fun _ pid h _ => h.reapChild pid) h

/-- A `pid_t` is an `int` of 32 bits. -/
def PidsFit (procs : List Proc) : Prop := ∀ p ∈ procs, p.pid < 2 ^ 31

instance (procs : List Proc) : Decidable (PidsFit procs) :=
  inferInstanceAs (Decidable (∀ p ∈ procs, p.pid < 2 ^ 31))

theorem PidsFit.of_subset {procs' : List Proc} (h : PidsFit procs')
    (hsub : procs.map (·.pid) ⊆ procs'.map (·.pid)) : PidsFit procs := by
  intro p hp
  obtain ⟨q, hq, hpid⟩ := List.mem_map.mp (hsub (List.mem_map_of_mem hp))
  exact hpid ▸ h q hq

/-- What a run keeps of the server and the deaths so far. -/
structure BurstInv (s : Server) (deaths : List UInt32) : Prop where
  counted : PidsFit s.procs → Counted s deaths
  going : Going s
  distinct : DistinctPids s.procs

/-- While the loop runs, there is room for the deaths of a signal. -/
theorem BurstInv.counting (h : BurstInv s deaths) (hloop : s.loopStopped = false)
    (hfit : PidsFit s.procs) : Counting s deaths where
  counted := h.counted hfit
  room := by
    have hcrash : s.crashTimes.toNat < 5 := UInt32.lt_iff_toNat_lt.mp (h.going hloop)
    have hchildren := h.distinct.length_lt hfit
    omega

theorem burstInv_of_init (h : (system k).init s) : BurstInv s [] := by
  obtain ⟨content, nwebspawn, -, hpos, rfl⟩ := h
  refine ⟨fun _ => tally_nil, fun _ => (by decide : (0 : UInt32) < MAX_CRASH_TIME), ?_⟩
  cases nwebspawn with
  | none => exact ⟨List.nodup_nil, fun _ h => absurd h List.not_mem_nil⟩
  | some pid =>
    refine ⟨List.nodup_singleton pid, fun q hq => ?_⟩
    rw [List.mem_singleton.mp hq]
    exact hpos pid rfl

theorem burstInv_step {e : Event} (h : BurstInv s deaths) (he : (system k).enabled s e) :
    BurstInv (s.step k e) (deaths ++ deathsOf k s e) := by
  have hback : PidsFit (s.step k e).procs → PidsFit s.procs :=
    fun hfit => hfit.of_subset (pids_step he)
  by_cases hsig : ∃ pids, e = .signal (.sigchld pids)
  · obtain ⟨pids, rfl⟩ := hsig
    have hgoing : Going (pids.foldl (reapChild k) s) := h.going.foldl pids
    refine ⟨fun hfit => ?_, ?_, h.distinct.step he⟩
    · have hcounting := (h.counting he.1 (hback hfit)).foldl (k := k) pids
      show Counted (processSignal k s (.sigchld pids)) _
      simp only [processSignal]
      split <;> exact hcounting.counted
    · show Going (processSignal k s (.sigchld pids))
      simp only [processSignal]
      split
      · intro hgo
        cases hgo
      · exact hgoing
  · have hcount : SameCount s (s.step k e) :=
      sameCount_step fun pids heq => hsig ⟨pids, heq⟩
    have hnone : deathsOf k s e = [] := by
      unfold deathsOf
      split
      · next pids => exact absurd ⟨pids, rfl⟩ hsig
      · rfl
    rw [hnone, List.append_nil]
    refine ⟨fun hfit => hcount.counted (h.counted (hback hfit)), ?_, h.distinct.step he⟩
    intro _
    rw [hcount.crashTimes]
    exact h.going he.1

theorem burstInv_of_run {es : List Event} (hi : (system k).init s) (hr : (system k).Run s es t) :
    BurstInv t (deathsIn k s es) :=
  have hstep : ∀ s e deaths, BurstInv s deaths → (system k).enabled s e →
      BurstInv ((system k).step s e) (deaths ++ deathsOf k s e) :=
    fun _ _ _ h he => burstInv_step h he
  hr.invariant_emitted hstep (burstInv_of_init hi)

/-- **At the death of a child still being spawned `WaitChildDied` stops the server just in case**
the last five of these deaths, this one included, have consecutive client ids. -/
theorem restart_on_burst {es : List Event} (hi : (system k).init s)
    (hr : (system k).Run s es t) (hloop : t.loopStopped = false) (hfit : PidsFit t.procs)
    (died : List Int) (hu : died.foldl (reapChild k) t = u)
    (hw : u.waitable pid = true) (hspawned : u.getSpawnedProcess pid = none)
    (hctx : u.getAppSpawningCtxByPid pid = some ctx) (hstate : ctx.state = .spawning) :
    (EndsInStreak (· + 1) 5 (deathsIn k s es ++ deathsAmong k t died ++ [ctx.client.id]) →
        reapChild k u pid = stopAppSpawn k (recordDeath k (collect u pid) ctx)) ∧
      (¬ EndsInStreak (· + 1) 5 (deathsIn k s es ++ deathsAmong k t died ++ [ctx.client.id]) →
        reapChild k u pid = recordDeath k (collect u pid) ctx) := by
  have hcounting := ((burstInv_of_run hi hr).counting hloop hfit).foldl (k := k) died
  rw [hu] at hcounting
  have hsame : SameCount u (collect u pid) := sameCount_collect u pid
  have hrecord : Counted (recordDeath k (collect u pid) ctx)
      (deathsIn k s es ++ deathsAmong k t died ++ [ctx.client.id]) := by
    refine (hsame.counted hcounting.counted).recordDeath ?_
    rw [hsame.crashTimes]
    exact hcounting.lt hw
  have hfive : MAX_CRASH_TIME ≤ (recordDeath k (collect u pid) ctx).crashTimes ↔
      EndsInStreak (· + 1) 5 (deathsIn k s es ++ deathsAmong k t died ++ [ctx.client.id]) := by
    rw [UInt32.le_iff_toNat_le]
    exact hrecord.le_count 5
  rw [reapChild_of_spawning hw hspawned hctx hstate]
  exact ⟨fun h => if_pos (hfive.mpr h), fun h => if_neg (hfive.not.mpr h)⟩

/-- A request whose child has this client id and this pid. -/
def sampleFork (id : UInt32) (pid : Int) : Event :=
  .spawnRequest 1 sampleMsg { sampleEnv with ctx := some { id, flags := 0 }, fork := some pid }

/-- Five children in a row. Their client ids wrap around. -/
def sampleBurst : List Event :=
  [.connection (some 0) false, sampleFork 0xFFFFFFFE 100, sampleFork 0xFFFFFFFF 101,
    sampleFork 0 102, sampleFork 1 103, sampleFork 2 104]

/-- The server behind them, and when the first four have died. -/
def burstServer : Server := sampleBurst.foldl (system sampleCodes).step sampleLaunch

def burstServerDied : Server := [100, 101, 102, 103].foldl (reapChild sampleCodes) burstServer

/-- The death of the last of the five children stops the server. -/
theorem restart_on_burst_run : ∃ ctx,
    reapChild sampleCodes burstServerDied 104 =
      stopAppSpawn sampleCodes (recordDeath sampleCodes (collect burstServerDied 104) ctx) := by
  obtain ⟨ctx, hctx, hstate, hid⟩ : ∃ ctx,
      burstServerDied.getAppSpawningCtxByPid 104 = some ctx ∧ ctx.state = .spawning ∧
        ctx.client.id = 2 :=
    ⟨_, rfl, rfl, rfl⟩
  have hinit : (system sampleCodes).init sampleLaunch := ⟨_, _, by decide, by decide, rfl⟩
  have hrun : (system sampleCodes).Run sampleLaunch sampleBurst burstServer :=
    System.Run.of_enabledAll (by decide +kernel)
  have hdeaths : deathsIn sampleCodes sampleLaunch sampleBurst ++
      deathsAmong sampleCodes burstServer [100, 101, 102, 103] = [0xFFFFFFFE, 0xFFFFFFFF, 0, 1] := by
    decide +kernel
  refine ⟨ctx, (restart_on_burst hinit hrun (by decide +kernel) (by decide +kernel)
    [100, 101, 102, 103] rfl (by decide +kernel) (by decide +kernel) hctx hstate).1 ?_⟩
  rw [hdeaths, hid]
  exact ⟨[], 0xFFFFFFFE, by decide +kernel⟩

end Appspawn
