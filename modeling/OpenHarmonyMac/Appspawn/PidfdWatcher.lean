import OpenHarmonyMac.Infra.Keyed
import OpenHarmonyMac.Infra.Transition
import OpenHarmonyMac.Appspawn.Spawn

/-!
# The pidfd watchers

When a child has answered, the server opens a pidfd for it and watches that. The watcher has a record
with the pid, and closing its task closes the descriptor and frees the record. The death of the child
comes as two events, the pidfd and SIGCHLD, in any order.

* `watching` — the server as far as these two events go
* `released_throughout_iff` — the runs in which nothing of a watcher is left behind
* `PidfdServer.Follows` — its table is that of the server
-/

namespace Appspawn

open Infra

/-! ## The server -/

/-- An entry of `AppSpawnMgr::appQueue`. `child` is history: it tells children of the same pid
apart. -/
structure AppEntry where
  child : NodeId
  pid : Int
  name : String
deriving DecidableEq

/-- The task of a pidfd watcher. Its descriptor and its record are those of the child. -/
structure PidfdTask where
  child : NodeId
  /-- What is in the record. -/
  pid : Int
deriving DecidableEq

/-- The lists of children are history: for each of them what was done as often as it was done. -/
structure PidfdServer where
  content : AppSpawnContent
  appQueue : List AppEntry := []
  tasks : List PidfdTask := []
  loopStopped : Bool := false
  nextChild : NodeId := 0
  /-- The children that got an entry. -/
  tracked : List NodeId := []
  /-- `pidfd_open` and `close`, `malloc` and `free`. -/
  opened : List NodeId := []
  closed : List NodeId := []
  allocated : List NodeId := []
  freed : List NodeId := []
  /-- The watchers that were started, and those whose event has come. -/
  watched : List NodeId := []
  fired : List NodeId := []
  /-- The children that `HandleDiedPid` found, and those for which the hooks of
  `STAGE_SERVER_APP_DIED` ran. -/
  reaped : List NodeId := []
  diedHooks : List NodeId := []

/-- What the environment answers in `WatchChildProcessFd`. -/
structure WatchEnv where
  openPidFd : Bool := true
  malloc : Bool := true
  startWatcher : Bool := true

namespace PidfdServer

variable (k : Codes) (s : PidfdServer)

/-- `GetSpawnedProcess` -/
def getSpawnedProcess (pid : Int) : Option AppEntry := s.appQueue.find? (·.pid == pid)

/-- `WatchChildProcessFd` -/
def watchChildProcessFd (env : WatchEnv) (child : NodeId) (pid : Int) : PidfdServer :=
  if pid ≤ 0 then s
  else if s.content.isNWebSpawnMode then s
  else if s.getSpawnedProcess pid = none then s
  else if env.openPidFd = false then s
  else if env.malloc = false then { s with opened := child :: s.opened }
  else if env.startWatcher = false then
    { s with
      opened := child :: s.opened
      allocated := child :: s.allocated
      closed := child :: s.closed }
  else
    { s with
      opened := child :: s.opened
      allocated := child :: s.allocated
      watched := child :: s.watched
      tasks := s.tasks ++ [{ child, pid }] }

/-- `AddSpawnedProcess` -/
def addSpawnedProcess (pid : Int) (name : String) : PidfdServer :=
  { s with
    appQueue := s.appQueue ++ [{ child := s.nextChild, pid, name }]
    tracked := s.nextChild :: s.tracked
    nextChild := s.nextChild + 1 }

/-- `ProcessChildResponse` for a child that gets an entry. -/
def processChildResponse (pid : Int) (name : String) (env : WatchEnv) : PidfdServer :=
  (s.addSpawnedProcess pid name).watchChildProcessFd env s.nextChild pid

/-- `LE_CloseTask` with `ClosePidfdWatcher` -/
def closeTask (task : PidfdTask) : PidfdServer :=
  { s with
    tasks := s.tasks.erase task
    closed := task.child :: s.closed
    freed := task.child :: s.freed }

/-- The hooks of `STAGE_SERVER_APP_DIED` -/
def executeDiedHooks (appInfo : AppEntry) : PidfdServer :=
  { s with diedHooks := appInfo.child :: s.diedHooks }

/-- `ProcessChildProcessFd` -/
def processChildProcessFd (task : PidfdTask) : PidfdServer :=
  match s.getSpawnedProcess task.pid with
  | none => s
  | some appInfo => (s.executeDiedHooks appInfo).closeTask task

/-- `StopAppSpawn`, what it does to the table and to the loop. -/
def stopAppSpawn : PidfdServer := { s with appQueue := [], loopStopped := true }

/-- The entry of a child is removed behind the hooks. -/
def reap (appInfo : AppEntry) : PidfdServer :=
  { s.executeDiedHooks appInfo with
    reaped := appInfo.child :: s.reaped
    appQueue := s.appQueue.erase appInfo }

/-- The reserved child is gone. -/
def clearReserved (pid : Int) : PidfdServer :=
  if pid = s.content.reservedPid then { s with content := { s.content with reservedPid := 0 } } else s

/-- `HandleDiedPid`. For a pid without an entry it calls `WaitChildDied`, and `stops` is whether
that stops the server. -/
def handleDiedPid (pid : Int) (stops : Bool) : PidfdServer :=
  let s := s.clearReserved pid
  match s.getSpawnedProcess pid with
  | none => if stops then s.stopAppSpawn else s
  | some appInfo =>
    let s := s.reap appInfo
    if appInfo.name = k.nwebspawnServerName then s.stopAppSpawn else s

inductive Event
  /-- A child has answered with success and gets an entry. -/
  | childResponse (pid : Int) (name : String) (env : WatchEnv)
  /-- The pidfd of the task is readable. -/
  | readable (task : PidfdTask)
  /-- `waitpid` reports the child. -/
  | died (pid : Int) (stops : Bool)

def step : Event → PidfdServer
  | .childResponse pid name env => s.processChildResponse pid name env
  | .readable task => { s with fired := task.child :: s.fired }.processChildProcessFd task
  | .died pid stops => s.handleDiedPid k pid stops

/-- A watcher is `WATCHER_ONCE`. -/
def Enabled : Event → Prop
  | .readable task => task ∈ s.tasks ∧ task.child ∉ s.fired
  | _ => True

instance : ∀ e, Decidable (s.Enabled e)
  | .childResponse _ _ _ => inferInstanceAs (Decidable True)
  | .readable _ => inferInstanceAs (Decidable (_ ∧ _))
  | .died _ _ => inferInstanceAs (Decidable True)

end PidfdServer

def watching (k : Codes) : System PidfdServer PidfdServer.Event where
  init s := ∃ content, s = { content }
  enabled s e := s.loopStopped = false ∧ s.Enabled e
  step s e := s.step k e

instance (k : Codes) (s : PidfdServer) (e : PidfdServer.Event) :
    Decidable ((watching k).enabled s e) :=
  inferInstanceAs (Decidable (_ ∧ _))

/-! ## What is to be released -/

namespace PidfdServer

/-- Nothing of the watcher is left, and nothing was released twice. -/
structure Released (s : PidfdServer) (child : NodeId) : Prop where
  fd : child ∈ s.opened → s.closed.count child = 1
  record : child ∈ s.allocated → s.freed.count child = 1
  task : ∀ task ∈ s.tasks, task.child ≠ child

/-- Both events of the child have been handled, or there is no watcher. -/
def Done (s : PidfdServer) (child : NodeId) : Prop :=
  child ∉ s.watched ∨ (child ∈ s.reaped ∧ child ∈ s.fired)

/-- The hooks have run for each child that is reaped, and what is done is released. -/
structure ReleasedWhenDone (s : PidfdServer) : Prop where
  hooked : ∀ child ∈ s.reaped, child ∈ s.diedHooks
  released : ∀ child ∈ s.tracked, s.Done child → s.Released child

/-- Nothing fails behind `pidfd_open`, and the pidfd is handled before the entry of the child is
gone, or there is another entry of its pid. -/
def Releases (s : PidfdServer) : Event → Prop
  | .childResponse pid _ env => 0 < pid → s.content.isNWebSpawnMode = false → env.openPidFd = true →
    env.malloc = true ∧ env.startWatcher = true
  | .readable task => s.getSpawnedProcess task.pid ≠ none
  | .died _ _ => True

instance (s : PidfdServer) : ∀ e, Decidable (s.Releases e)
  | .childResponse _ _ _ => inferInstanceAs (Decidable (_ → _ → _ → _ ∧ _))
  | .readable _ => inferInstanceAs (Decidable (_ ≠ _))
  | .died _ _ => inferInstanceAs (Decidable True)

/-! ## The books -/

variable {k : Codes} {s : PidfdServer} {pid : Int} {name : String} {env : WatchEnv}
  {task : PidfdTask} {appInfo : AppEntry} {child : NodeId}

/-- Nothing is in a history before it is in those that come first. -/
structure InOrder (s : PidfdServer) : Prop where
  tracked : ∀ child ∈ s.tracked, child < s.nextChild
  appQueue : ∀ appInfo ∈ s.appQueue, appInfo.child ∈ s.tracked
  opened : s.opened ⊆ s.tracked
  closed : s.closed ⊆ s.opened
  allocated : s.allocated ⊆ s.opened
  freed : s.freed ⊆ s.allocated
  watched : s.watched ⊆ s.allocated
  fired : s.fired ⊆ s.watched
  reaped : s.reaped ⊆ s.tracked

/-- Of a watcher that was started there is the task, or it has been closed. -/
structure Balanced (s : PidfdServer) (child : NodeId) : Prop where
  fd : s.closed.count child + (s.tasks.map (·.child)).count child = 1
  record : s.freed.count child + (s.tasks.map (·.child)).count child = 1

/-- While the loop runs. -/
structure Books (s : PidfdServer) : Prop where
  inOrder : s.InOrder
  hooked : ∀ child ∈ s.reaped, child ∈ s.diedHooks
  balanced : ∀ child ∈ s.watched, s.Balanced child
  task : ∀ task ∈ s.tasks, task.child ∈ s.watched
  /-- The pidfd of a live child finds the entry. -/
  entry : ∀ task ∈ s.tasks, task.child ∉ s.reaped →
    ∃ appInfo ∈ s.appQueue, appInfo.child = task.child ∧ appInfo.pid = task.pid
  /-- A watcher whose event has come is closed, unless the child had been reaped. -/
  left : ∀ task ∈ s.tasks, task.child ∈ s.fired → task.child ∈ s.reaped

theorem getSpawnedProcess_eq_none :
    s.getSpawnedProcess pid = none ↔ ∀ appInfo ∈ s.appQueue, appInfo.pid ≠ pid := by
  simp [getSpawnedProcess]

theorem mem_of_getSpawnedProcess (h : s.getSpawnedProcess pid = some appInfo) :
    appInfo ∈ s.appQueue := List.mem_of_find?_eq_some h

theorem Balanced.of_eq (h : s.Balanced child) {s' : PidfdServer} (hclosed : s'.closed = s.closed)
    (hfreed : s'.freed = s.freed) (htasks : s'.tasks = s.tasks) : s'.Balanced child where
  fd := by rw [hclosed, htasks]; exact h.fd
  record := by rw [hfreed, htasks]; exact h.record

/-- A watcher is as good as released when its task is gone. -/
theorem Balanced.released_iff (h : s.Balanced child) :
    s.Released child ↔ ∀ task ∈ s.tasks, task.child ≠ child := by
  refine ⟨fun hr => hr.task, fun hnone => ?_⟩
  have hcount : (s.tasks.map (·.child)).count child = 0 := by
    refine List.count_eq_zero.mpr fun hmem => ?_
    obtain ⟨task, htask, hchild⟩ := List.mem_map.mp hmem
    exact hnone task htask hchild
  have hfd := h.fd
  have hrecord := h.record
  exact ⟨fun _ => by omega, fun _ => by omega, hnone⟩

/-! ## A child gets an entry -/

/-- What `WatchChildProcessFd` goes by before it opens the pidfd, and that it is opened. -/
def Opens (s : PidfdServer) (pid : Int) (env : WatchEnv) : Prop :=
  0 < pid ∧ s.content.isNWebSpawnMode = false ∧ env.openPidFd = true

theorem addSpawnedProcess_getSpawnedProcess :
    (s.addSpawnedProcess pid name).getSpawnedProcess pid ≠ none := by
  intro hnone
  rw [getSpawnedProcess_eq_none] at hnone
  exact hnone _ (List.mem_append_right _ (List.mem_singleton_self _)) rfl

theorem processChildResponse_of_not_opens (h : ¬ s.Opens pid env) :
    s.processChildResponse pid name env = s.addSpawnedProcess pid name := by
  unfold processChildResponse watchChildProcessFd
  rw [if_neg addSpawnedProcess_getSpawnedProcess]
  split
  · rfl
  · next hpid =>
    split
    · rfl
    · next hmode =>
      rw [if_pos]
      by_contra hopen
      rw [Bool.not_eq_true] at hmode
      exact h ⟨by omega, hmode, by simpa using hopen⟩

theorem processChildResponse_of_opens (h : s.Opens pid env) :
    s.processChildResponse pid name env =
      let s' := s.addSpawnedProcess pid name
      let child := s.nextChild
      if env.malloc = false then { s' with opened := child :: s'.opened }
      else if env.startWatcher = false then
        { s' with
          opened := child :: s'.opened
          allocated := child :: s'.allocated
          closed := child :: s'.closed }
      else
        { s' with
          opened := child :: s'.opened
          allocated := child :: s'.allocated
          watched := child :: s'.watched
          tasks := s'.tasks ++ [{ child, pid }] } := by
  obtain ⟨hpid, hmode, hopen⟩ := h
  have hmode' : (s.addSpawnedProcess pid name).content.isNWebSpawnMode = false := hmode
  unfold processChildResponse watchChildProcessFd
  rw [if_neg (by omega), if_neg (by rw [hmode']; exact Bool.false_ne_true),
    if_neg addSpawnedProcess_getSpawnedProcess, if_neg (by rw [hopen]; exact Bool.noConfusion)]

theorem InOrder.fresh (h : s.InOrder) (hchild : child ∈ s.opened) : child ≠ s.nextChild := by
  rintro rfl
  exact lt_irrefl _ (h.tracked _ (h.opened hchild))

theorem Books.addSpawnedProcess (hb : Books s) : Books (s.addSpawnedProcess pid name) where
  inOrder :=
    { hb.inOrder with
      tracked := by
        intro child hchild
        obtain rfl | hchild := List.mem_cons.mp hchild
        · exact Nat.lt_succ_self _
        · exact Nat.lt_succ_of_lt (hb.inOrder.tracked child hchild)
      appQueue := by
        intro appInfo hmem
        obtain hmem | hmem := List.mem_append.mp hmem
        · exact List.mem_cons_of_mem _ (hb.inOrder.appQueue appInfo hmem)
        · rw [List.mem_singleton.mp hmem]
          exact List.mem_cons_self
      opened := List.subset_cons_of_subset _ hb.inOrder.opened
      reaped := List.subset_cons_of_subset _ hb.inOrder.reaped }
  hooked := hb.hooked
  balanced c hc := (hb.balanced c hc).of_eq rfl rfl rfl
  task := hb.task
  entry task htask hlive := by
    obtain ⟨appInfo, hmem, hentry⟩ := hb.entry task htask hlive
    exact ⟨appInfo, List.mem_append_left _ hmem, hentry⟩
  left := hb.left

/-- The exit behind `malloc`. -/
theorem Books.openFd (hb : Books s) (hchild : child ∈ s.tracked) :
    Books { s with opened := child :: s.opened } where
  inOrder :=
    { hb.inOrder with
      opened := List.cons_subset.mpr ⟨hchild, hb.inOrder.opened⟩
      closed := List.subset_cons_of_subset _ hb.inOrder.closed
      allocated := List.subset_cons_of_subset _ hb.inOrder.allocated }
  hooked := hb.hooked
  balanced c hc := (hb.balanced c hc).of_eq rfl rfl rfl
  task := hb.task
  entry := hb.entry
  left := hb.left

/-- The exit behind `LE_StartWatcher`. -/
theorem Books.openAndClose (hb : Books s) (hchild : child ∈ s.tracked) (hnew : child ∉ s.opened) :
    Books { s with
      opened := child :: s.opened
      allocated := child :: s.allocated
      closed := child :: s.closed } where
  inOrder :=
    { hb.inOrder with
      opened := List.cons_subset.mpr ⟨hchild, hb.inOrder.opened⟩
      closed := List.cons_subset_cons _ hb.inOrder.closed
      allocated := List.cons_subset_cons _ hb.inOrder.allocated
      freed := List.subset_cons_of_subset _ hb.inOrder.freed
      watched := List.subset_cons_of_subset _ hb.inOrder.watched }
  hooked := hb.hooked
  balanced c hc := by
    have hne : child ≠ c := by
      rintro rfl
      exact hnew (hb.inOrder.allocated (hb.inOrder.watched hc))
    refine ⟨?_, (hb.balanced c hc).record⟩
    rw [List.count_cons_of_ne hne]
    exact (hb.balanced c hc).fd
  task := hb.task
  entry := hb.entry
  left := hb.left

/-- A new watcher has its task, and the others keep theirs. -/
theorem Books.balanced_startWatcher (hb : Books s) (hnew : child ∉ s.opened) {c : NodeId}
    (hc : c ∈ child :: s.watched) :
    s.closed.count c + ((s.tasks ++ [PidfdTask.mk child pid]).map (·.child)).count c = 1 ∧
      s.freed.count c + ((s.tasks ++ [PidfdTask.mk child pid]).map (·.child)).count c = 1 := by
  rw [List.map_append, List.count_append]
  by_cases hne : child = c
  · subst hne
    have hwatched : child ∉ s.watched := fun h => hnew (hb.inOrder.allocated (hb.inOrder.watched h))
    have hclosed : child ∉ s.closed := fun h => hnew (hb.inOrder.closed h)
    have hfreed : child ∉ s.freed := fun h => hnew (hb.inOrder.allocated (hb.inOrder.freed h))
    have htasks : child ∉ s.tasks.map (·.child) := by
      intro hmem
      obtain ⟨task, htask, rfl⟩ := List.mem_map.mp hmem
      exact hwatched (hb.task task htask)
    constructor <;> simp [List.count_eq_zero.mpr, hclosed, hfreed, htasks]
  · have hold := hb.balanced c ((List.mem_cons.mp hc).resolve_left (Ne.symm hne))
    have hother : ([PidfdTask.mk child pid].map (·.child)).count c = 0 := by
      simp [hne]
    rw [hother, Nat.add_zero]
    exact ⟨hold.fd, hold.record⟩

theorem Books.startWatcher (hb : Books s) (hnew : child ∉ s.opened)
    (happ : appInfo ∈ s.appQueue) (hentry : appInfo.child = child ∧ appInfo.pid = pid) :
    Books { s with
      opened := child :: s.opened
      allocated := child :: s.allocated
      watched := child :: s.watched
      tasks := s.tasks ++ [{ child, pid }] } where
  inOrder :=
    { hb.inOrder with
      opened := by
        refine List.cons_subset.mpr ⟨?_, hb.inOrder.opened⟩
        rw [← hentry.1]
        exact hb.inOrder.appQueue appInfo happ
      closed := List.subset_cons_of_subset _ hb.inOrder.closed
      allocated := List.cons_subset_cons _ hb.inOrder.allocated
      freed := List.subset_cons_of_subset _ hb.inOrder.freed
      watched := List.cons_subset_cons _ hb.inOrder.watched
      fired := List.subset_cons_of_subset _ hb.inOrder.fired }
  hooked := hb.hooked
  balanced c hc := by
    obtain ⟨hfd, hrecord⟩ := hb.balanced_startWatcher hnew hc
    exact ⟨hfd, hrecord⟩
  task task htask := by
    obtain htask | htask := List.mem_append.mp htask
    · exact List.mem_cons_of_mem _ (hb.task task htask)
    · rw [List.mem_singleton.mp htask]
      exact List.mem_cons_self
  entry task htask hlive := by
    obtain htask | htask := List.mem_append.mp htask
    · exact hb.entry task htask hlive
    · rw [List.mem_singleton.mp htask]
      exact ⟨appInfo, happ, hentry⟩
  left task htask hfired := by
    obtain htask | htask := List.mem_append.mp htask
    · exact hb.left task htask hfired
    · -- The event of a new watcher has not come.
      rw [List.mem_singleton.mp htask] at hfired
      exact absurd (hb.inOrder.allocated (hb.inOrder.watched (hb.inOrder.fired hfired))) hnew

theorem Books.processChildResponse (hb : Books s) (pid : Int) (name : String) (env : WatchEnv) :
    Books (s.processChildResponse pid name env) := by
  have hadd : Books (s.addSpawnedProcess pid name) := hb.addSpawnedProcess
  have htracked : s.nextChild ∈ (s.addSpawnedProcess pid name).tracked := List.mem_cons_self
  have hnew : s.nextChild ∉ (s.addSpawnedProcess pid name).opened :=
    fun h => hb.inOrder.fresh h rfl
  by_cases hopens : s.Opens pid env
  · rw [processChildResponse_of_opens hopens]
    dsimp only
    split
    · exact hadd.openFd htracked
    · split
      · exact hadd.openAndClose htracked hnew
      · exact hadd.startWatcher hnew (List.mem_append_right _ (List.mem_singleton_self _)) ⟨rfl, rfl⟩
  · rw [processChildResponse_of_not_opens hopens]
    exact hadd

/-! ## A pidfd is readable -/

/-- The event has come, and the handler has not looked for the entry yet. -/
def fire (s : PidfdServer) (task : PidfdTask) : PidfdServer :=
  { s with fired := task.child :: s.fired }

/-- `ProcessChildProcessFd` with an entry. -/
def release (s : PidfdServer) (task : PidfdTask) (appInfo : AppEntry) : PidfdServer :=
  ((s.fire task).executeDiedHooks appInfo).closeTask task

/-- A watcher that has been closed has no task. -/
theorem Balanced.no_task (h : s.Balanced child) (hclosed : child ∈ s.closed) :
    ∀ task ∈ s.tasks, task.child ≠ child := by
  intro task htask hchild
  have htasks : 0 < (s.tasks.map (·.child)).count child :=
    List.count_pos_iff.mpr (List.mem_map.mpr ⟨task, htask, hchild⟩)
  have hcount : 0 < s.closed.count child := List.count_pos_iff.mpr hclosed
  have hfd := h.fd
  omega

/-- Closing moves one from the tasks to what is closed and freed. -/
theorem balanced_release (h : s.Balanced child) (htask : task ∈ s.tasks) :
    (s.release task appInfo).Balanced child := by
  have hcount : (s.tasks.map (·.child)).count child =
      (task.child :: (s.tasks.erase task).map (·.child)).count child :=
    ((List.perm_cons_erase htask).map (·.child)).count_eq child
  have hfd := h.fd
  have hrecord := h.record
  rw [hcount, List.count_cons] at hfd hrecord
  constructor
  · show (task.child :: s.closed).count child + ((s.tasks.erase task).map (·.child)).count child = 1
    rw [List.count_cons]
    omega
  · show (task.child :: s.freed).count child + ((s.tasks.erase task).map (·.child)).count child = 1
    rw [List.count_cons]
    omega

theorem Books.release (hb : Books s) (htask : task ∈ s.tasks) :
    Books (s.release task appInfo) where
  inOrder :=
    have hwatched : task.child ∈ s.watched := hb.task task htask
    have hallocated : task.child ∈ s.allocated := hb.inOrder.watched hwatched
    { hb.inOrder with
      closed := List.cons_subset.mpr ⟨hb.inOrder.allocated hallocated, hb.inOrder.closed⟩
      freed := List.cons_subset.mpr ⟨hallocated, hb.inOrder.freed⟩
      fired := List.cons_subset.mpr ⟨hwatched, hb.inOrder.fired⟩ }
  hooked child hchild := List.mem_cons_of_mem _ (hb.hooked child hchild)
  balanced child hchild := balanced_release (hb.balanced child hchild) htask
  task task' htask' := hb.task task' (List.mem_of_mem_erase htask')
  entry task' htask' := hb.entry task' (List.mem_of_mem_erase htask')
  left task' htask' hfired := by
    obtain hchild | hfired := List.mem_cons.mp hfired
    · have hbalanced : (s.release task appInfo).Balanced task.child :=
        balanced_release (hb.balanced _ (hb.task task htask)) htask
      exact absurd hchild (hbalanced.no_task List.mem_cons_self task' htask')
    · exact hb.left task' (List.mem_of_mem_erase htask') hfired

/-- The early return. The entry is gone, so the child had been reaped. -/
theorem Books.fire (hb : Books s) (htask : task ∈ s.tasks)
    (hnone : s.getSpawnedProcess task.pid = none) : Books (s.fire task) where
  inOrder :=
    { hb.inOrder with
      fired := List.cons_subset.mpr ⟨hb.task task htask, hb.inOrder.fired⟩ }
  hooked := hb.hooked
  balanced child hchild := (hb.balanced child hchild).of_eq rfl rfl rfl
  task := hb.task
  entry := hb.entry
  left task' htask' hfired := by
    obtain hchild | hfired := List.mem_cons.mp hfired
    · rw [hchild]
      by_contra hlive
      obtain ⟨appInfo, happ, -, hpid⟩ := hb.entry task htask hlive
      exact getSpawnedProcess_eq_none.mp hnone appInfo happ hpid
    · exact hb.left task' htask' hfired

/-! ## A child is reaped -/

theorem Books.clearReserved (hb : Books s) (pid : Int) : Books (s.clearReserved pid) := by
  unfold PidfdServer.clearReserved
  split
  · refine ⟨{ hb.inOrder with }, hb.hooked, ?_, hb.task, hb.entry, hb.left⟩
    exact fun child hchild => (hb.balanced child hchild).of_eq rfl rfl rfl
  · exact hb

theorem Books.reap (hb : Books s) (happ : appInfo ∈ s.appQueue) : Books (s.reap appInfo) where
  inOrder :=
    { hb.inOrder with
      appQueue := fun appInfo' hmem => hb.inOrder.appQueue appInfo' (List.mem_of_mem_erase hmem)
      reaped := List.cons_subset.mpr ⟨hb.inOrder.appQueue appInfo happ, hb.inOrder.reaped⟩ }
  hooked child hchild := by
    obtain rfl | hchild := List.mem_cons.mp hchild
    · exact List.mem_cons_self
    · exact List.mem_cons_of_mem _ (hb.hooked child hchild)
  balanced child hchild := (hb.balanced child hchild).of_eq rfl rfl rfl
  task := hb.task
  entry task htask hlive := by
    have hlive : task.child ∉ appInfo.child :: s.reaped := hlive
    rw [List.mem_cons, not_or] at hlive
    obtain ⟨appInfo', happ', hchild, hpid⟩ := hb.entry task htask hlive.2
    have hne : appInfo' ≠ appInfo := by
      rintro rfl
      exact hlive.1 hchild.symm
    exact ⟨appInfo', (List.mem_erase_of_ne hne).mpr happ', hchild, hpid⟩
  left task htask hfired := List.mem_cons_of_mem _ (hb.left task htask hfired)

/-- While the loop runs, the books are kept. -/
def Kept (s : PidfdServer) : Prop := s.loopStopped = false → Books s

theorem Books.step (hb : Books s) {e : Event} (he : s.Enabled e) : Kept (s.step k e) := by
  cases e with
  | childResponse pid name env => exact fun _ => hb.processChildResponse pid name env
  | readable task =>
    obtain ⟨htask, -⟩ := he
    intro _
    show Books ((s.fire task).processChildProcessFd task)
    unfold processChildProcessFd
    split
    · next hnone => exact hb.fire htask hnone
    · exact hb.release htask
  | died pid stops =>
    unfold PidfdServer.step handleDiedPid Kept
    dsimp only
    split
    · split
      · -- The loop is stopped.
        intro hloop
        cases hloop
      · exact fun _ => hb.clearReserved pid
    · next appInfo happ =>
      split
      · intro hloop
        cases hloop
      · exact fun _ => (hb.clearReserved pid).reap (mem_of_getSpawnedProcess happ)

/-! ## What a step releases -/

/-- What another child does. -/
theorem Released.of_eq (h : s.Released child) {s' : PidfdServer}
    (hopened : child ∈ s'.opened → child ∈ s.opened)
    (hclosed : s'.closed.count child = s.closed.count child)
    (hallocated : child ∈ s'.allocated → child ∈ s.allocated)
    (hfreed : s'.freed.count child = s.freed.count child)
    (htasks : ∀ task ∈ s'.tasks, task.child = child → task ∈ s.tasks) : s'.Released child where
  fd hchild := by rw [hclosed]; exact h.fd (hopened hchild)
  record hchild := by rw [hfreed]; exact h.record (hallocated hchild)
  task task htask hchild := h.task task (htasks task htask hchild) hchild

theorem ReleasedWhenDone.clearReserved (hs : s.ReleasedWhenDone) (pid : Int) :
    (s.clearReserved pid).ReleasedWhenDone := by
  unfold PidfdServer.clearReserved
  split
  · refine ⟨hs.hooked, fun child hchild hdone => ?_⟩
    exact (hs.released child hchild hdone).of_eq id rfl id rfl (fun _ htask _ => htask)
  · exact hs

theorem ReleasedWhenDone.stopAppSpawn (hs : s.ReleasedWhenDone) :
    s.stopAppSpawn.ReleasedWhenDone where
  hooked := hs.hooked
  released child hchild hdone :=
    (hs.released child hchild hdone).of_eq id rfl id rfl (fun _ htask _ => htask)

/-- The child whose pidfd has been handled is done now. -/
theorem ReleasedWhenDone.reap (hs : s.ReleasedWhenDone) (hb : Books s) :
    (s.reap appInfo).ReleasedWhenDone where
  hooked child hchild := by
    obtain rfl | hchild := List.mem_cons.mp hchild
    · exact List.mem_cons_self
    · exact List.mem_cons_of_mem _ (hs.hooked child hchild)
  released child hchild hdone := by
    -- It is done now or was before. Now, its pidfd came first and has closed the watcher.
    have hreleased : s.Released child := by
      obtain hwatched | ⟨-, hfired⟩ := hdone
      · exact hs.released child hchild (Or.inl hwatched)
      · by_cases hreaped : child ∈ s.reaped
        · exact hs.released child hchild (Or.inr ⟨hreaped, hfired⟩)
        · rw [(hb.balanced child (hb.inOrder.fired hfired)).released_iff]
          rintro task htask rfl
          exact hreaped (hb.left task htask hfired)
    exact hreleased.of_eq id rfl id rfl (fun _ htask _ => htask)

theorem ReleasedWhenDone.handleDiedPid (hs : s.ReleasedWhenDone) (hb : Books s) (pid : Int)
    (stops : Bool) : (s.handleDiedPid k pid stops).ReleasedWhenDone := by
  unfold PidfdServer.handleDiedPid
  dsimp only
  split
  · split
    · exact (hs.clearReserved pid).stopAppSpawn
    · exact hs.clearReserved pid
  · next appInfo happ =>
    have hreap : ((s.clearReserved pid).reap appInfo).ReleasedWhenDone :=
      (hs.clearReserved pid).reap (hb.clearReserved pid)
    split
    · exact hreap.stopAppSpawn
    · exact hreap

theorem readable_released_iff (hs : s.ReleasedWhenDone) (hb : Books s) (htask : task ∈ s.tasks) :
    ((s.fire task).processChildProcessFd task).ReleasedWhenDone ↔
      s.getSpawnedProcess task.pid ≠ none := by
  cases happ : (s.fire task).getSpawnedProcess task.pid with
  | none =>
    refine iff_of_false (fun hr => ?_) (not_not.mpr happ)
    -- The child had been reaped, so both of its events are handled, and the task is still there.
    have hfire : Books (s.fire task) := hb.fire htask happ
    have hreaped : task.child ∈ s.reaped := hfire.left task htask List.mem_cons_self
    have htracked : task.child ∈ s.tracked := hb.inOrder.reaped hreaped
    unfold processChildProcessFd at hr
    rw [happ] at hr
    have hreleased := hr.released _ htracked (Or.inr ⟨hreaped, List.mem_cons_self⟩)
    exact hreleased.task task htask rfl
  | some appInfo =>
    refine iff_of_true ?_ (Option.ne_none_iff_exists'.mpr ⟨appInfo, happ⟩)
    unfold processChildProcessFd
    rw [happ]
    show (s.release task appInfo).ReleasedWhenDone
    refine ⟨fun child hchild => List.mem_cons_of_mem _ (hs.hooked child hchild), ?_⟩
    intro child hchild hdone
    by_cases hne : child = task.child
    · subst hne
      have hbalanced : (s.release task appInfo).Balanced task.child :=
        balanced_release (hb.balanced _ (hb.task task htask)) htask
      exact hbalanced.released_iff.mpr (hbalanced.no_task List.mem_cons_self)
    · have hdone' : s.Done child := by
        refine hdone.imp_right fun ⟨hreaped, hfired⟩ => ⟨hreaped, ?_⟩
        exact (List.mem_cons.mp hfired).resolve_left hne
      have hcount : ∀ l, (task.child :: l).count child = l.count child :=
        fun l => List.count_cons_of_ne (Ne.symm hne)
      exact (hs.released child hchild hdone').of_eq id (hcount _) id (hcount _)
        (fun _ htask' _ => List.mem_of_mem_erase htask')

/-- A child that was not there before is in no history. -/
theorem InOrder.not_mem_nextChild (h : s.InOrder) :
    s.nextChild ∉ s.opened ∧ s.nextChild ∉ s.watched ∧ s.nextChild ∉ s.reaped := by
  have htracked : s.nextChild ∉ s.tracked := fun hmem => lt_irrefl _ (h.tracked _ hmem)
  have hopened : s.nextChild ∉ s.opened := fun hmem => htracked (h.opened hmem)
  exact ⟨hopened, fun hmem => hopened (h.allocated (h.watched hmem)),
    fun hmem => htracked (h.reaped hmem)⟩

/-- The others when a child gets an entry. -/
theorem Released.childResponse (h : s.Released child) (hne : child ≠ s.nextChild) :
    (s.processChildResponse pid name env).Released child := by
  have hcount : ∀ l, (s.nextChild :: l).count child = l.count child :=
    fun l => List.count_cons_of_ne (Ne.symm hne)
  have hmem : ∀ l, child ∈ s.nextChild :: l → child ∈ l :=
    fun l hl => (List.mem_cons.mp hl).resolve_left hne
  by_cases hopens : s.Opens pid env
  · rw [processChildResponse_of_opens hopens]
    dsimp only
    split
    · exact h.of_eq (hmem _) rfl id rfl (fun _ htask _ => htask)
    · split
      · exact h.of_eq (hmem _) (hcount _) (hmem _) rfl (fun _ htask _ => htask)
      · refine h.of_eq (hmem _) rfl (hmem _) rfl ?_
        intro task htask hchild
        obtain htask | htask := List.mem_append.mp htask
        · exact htask
        · rw [List.mem_singleton.mp htask] at hchild
          exact absurd hchild.symm hne
  · rw [processChildResponse_of_not_opens hopens]
    exact h.of_eq id rfl id rfl (fun _ htask _ => htask)

theorem processChildResponse_histories (s : PidfdServer) (pid : Int) (name : String)
    (env : WatchEnv) :
    (s.processChildResponse pid name env).tracked = s.nextChild :: s.tracked ∧
      (s.processChildResponse pid name env).reaped = s.reaped ∧
      (s.processChildResponse pid name env).fired = s.fired ∧
      (s.processChildResponse pid name env).diedHooks = s.diedHooks ∧
      s.watched ⊆ (s.processChildResponse pid name env).watched := by
  by_cases hopens : s.Opens pid env
  · rw [processChildResponse_of_opens hopens]
    dsimp only
    split_ifs
    · exact ⟨rfl, rfl, rfl, rfl, List.Subset.refl _⟩
    · exact ⟨rfl, rfl, rfl, rfl, List.Subset.refl _⟩
    · exact ⟨rfl, rfl, rfl, rfl, List.subset_cons_self _ _⟩
  · rw [processChildResponse_of_not_opens hopens]
    exact ⟨rfl, rfl, rfl, rfl, List.Subset.refl _⟩

/-- Whether the new child leaves something behind at once. -/
theorem released_nextChild_iff (hb : Books s) (pid : Int) (name : String) (env : WatchEnv) :
    ((s.processChildResponse pid name env).Done s.nextChild →
        (s.processChildResponse pid name env).Released s.nextChild) ↔
      (s.Opens pid env → env.malloc = true ∧ env.startWatcher = true) := by
  obtain ⟨hopened, hwatched, hreaped⟩ := hb.inOrder.not_mem_nextChild
  have hclosed : s.nextChild ∉ s.closed := fun hmem => hopened (hb.inOrder.closed hmem)
  have hallocated : s.nextChild ∉ s.allocated := fun hmem => hopened (hb.inOrder.allocated hmem)
  have hfreed : s.nextChild ∉ s.freed := fun hmem => hallocated (hb.inOrder.freed hmem)
  by_cases hopens : s.Opens pid env
  · rw [processChildResponse_of_opens hopens, forall_prop_of_true hopens]
    dsimp only
    split
    · next hmalloc =>
      -- The descriptor stays open.
      refine iff_of_false (fun hr => ?_) (by simp [hmalloc])
      have hfd : s.closed.count s.nextChild = 1 := (hr (Or.inl hwatched)).fd List.mem_cons_self
      rw [List.count_eq_zero.mpr hclosed] at hfd
      cases hfd
    · next hmalloc =>
      split
      · next hstart =>
        -- The record stays allocated.
        refine iff_of_false (fun hr => ?_) (by simp [hstart])
        have hrecord : s.freed.count s.nextChild = 1 :=
          (hr (Or.inl hwatched)).record List.mem_cons_self
        rw [List.count_eq_zero.mpr hfreed] at hrecord
        cases hrecord
      · next hstart =>
        refine iff_of_true ?_ (by simpa using And.intro hmalloc hstart)
        rintro (hnone | ⟨hmem, -⟩)
        · exact absurd List.mem_cons_self hnone
        · exact absurd hmem hreaped
  · rw [processChildResponse_of_not_opens hopens]
    refine iff_of_true (fun _ => ⟨fun hmem => absurd hmem hopened,
      fun hmem => absurd hmem hallocated, ?_⟩) (fun h => absurd h hopens)
    intro task htask hchild
    rw [← hchild] at hwatched
    exact hwatched (hb.task task htask)

theorem childResponse_released_iff (hs : s.ReleasedWhenDone) (hb : Books s) :
    (s.processChildResponse pid name env).ReleasedWhenDone ↔
      s.Releases (.childResponse pid name env) := by
  obtain ⟨htracked, hreaped, hfired, hhooks, hwatched⟩ :=
    processChildResponse_histories s pid name env
  have hiff := released_nextChild_iff hb pid name env
  constructor
  · intro hr hpid hmode hopen
    refine hiff.mp (hr.released s.nextChild ?_) ⟨hpid, hmode, hopen⟩
    rw [htracked]
    exact List.mem_cons_self
  · intro hreleases
    constructor
    · rw [hreaped, hhooks]
      exact hs.hooked
    · intro child hchild hdone
      by_cases hne : child = s.nextChild
      · subst hne
        exact hiff.mpr (fun ⟨hpid, hmode, hopen⟩ => hreleases hpid hmode hopen) hdone
      · rw [htracked, List.mem_cons] at hchild
        refine (hs.released child (hchild.resolve_left hne) ?_).childResponse hne
        rw [Done, hreaped, hfired] at hdone
        exact hdone.imp_left fun hnone hmem => hnone (hwatched hmem)

/-- **A step** leaves nothing behind just in case it releases what it is to release. -/
theorem step_released_iff (hs : s.ReleasedWhenDone) (hb : Books s) {e : Event} (he : s.Enabled e) :
    (s.step k e).ReleasedWhenDone ↔ s.Releases e := by
  cases e with
  | childResponse pid name env => exact childResponse_released_iff hs hb
  | readable task => exact readable_released_iff hs hb he.1
  | died pid stops => exact iff_of_true (hs.handleDiedPid hb pid stops) trivial

theorem books_init (content : AppSpawnContent) : Books { content } where
  inOrder := by constructor <;> simp
  hooked := by simp
  balanced := by simp
  task := by simp
  entry := by simp
  left := by simp

theorem releasedWhenDone_init (content : AppSpawnContent) :
    ReleasedWhenDone { content } where
  hooked := by simp
  released := by simp

end PidfdServer

/-- **The pidfd watchers.** In a run of the server the hooks run for each child that is reaped, and
the descriptor, the record and the task of each watcher are released once, just in case `malloc` and
`LE_StartWatcher` succeed behind `pidfd_open` and each pidfd event finds an entry of its pid. -/
theorem released_throughout_iff {k : Codes} {s t : PidfdServer} {es : List PidfdServer.Event}
    (hinit : (watching k).init s) (h : (watching k).Run s es t) :
    (watching k).Throughout PidfdServer.ReleasedWhenDone s es ↔
      ((watching k).restrict PidfdServer.Releases).Run s es t := by
  obtain ⟨content, rfl⟩ := hinit
  have hkept : PidfdServer.Kept { content } := fun _ => PidfdServer.books_init content
  refine h.throughout_iff_of_invariant ?_ ?_ hkept (PidfdServer.releasedWhenDone_init content)
  · intro s e hkept he
    exact (hkept he.1).step he.2
  · intro s e hkept hs he
    exact PidfdServer.step_released_iff hs (hkept he.1) he.2

/-! ## The server that is watched -/

/-- The table and the reservation are those of the server. -/
structure PidfdServer.Follows (w : PidfdServer) (s : Server) : Prop where
  content : w.content = s.content
  appQueue : w.appQueue.map (fun appInfo => (appInfo.pid, appInfo.name)) =
    s.appQueue.map fun appInfo => (appInfo.pid, appInfo.name)

namespace PidfdServer

variable {k : Codes} {w : PidfdServer} {s : Server}

/-- Both tables have an entry of the pid, with the same name, or none has. -/
theorem Follows.getSpawnedProcess (h : w.Follows s) (pid : Int) :
    (w.getSpawnedProcess pid).map (·.name) = (s.getSpawnedProcess pid).map (·.name) := by
  have hfind := congrArg (fun l => (l.find? fun e => e.1 == pid).map Prod.snd) h.appQueue
  simp only [List.find?_map, Option.map_map] at hfind
  exact hfind

theorem processChildResponse_table (w : PidfdServer) (pid : Int) (name : String) (env : WatchEnv) :
    (w.processChildResponse pid name env).content = w.content ∧
      (w.processChildResponse pid name env).appQueue =
        w.appQueue ++ [{ child := w.nextChild, pid, name }] := by
  by_cases hopens : w.Opens pid env
  · rw [processChildResponse_of_opens hopens]
    dsimp only
    split_ifs <;> exact ⟨rfl, rfl⟩
  · rw [processChildResponse_of_not_opens hopens]
    exact ⟨rfl, rfl⟩

/-- A child that answers with success gets its entry in both. -/
theorem Follows.childResponse (h : w.Follows s) {bytes : Option (List UInt8)}
    (hbytes : readResult bytes = 0) (ctx : AppSpawningCtx) (env : WatchEnv) :
    (w.processChildResponse ctx.pid ctx.message.msg.bundleName env).Follows
      (Appspawn.processChildResponse s bytes true ctx) := by
  obtain ⟨hcontent, htable⟩ :=
    processChildResponse_table w ctx.pid ctx.message.msg.bundleName env
  rw [processChildResponse_of_eq hbytes, if_pos rfl]
  constructor
  · rw [hcontent]
    simpa using h.content
  · rw [htable]
    simpa using h.appQueue

theorem Follows.reap (h : w.Follows s) {pid : Int} {appInfo : AppEntry} {app : AppSpawnedProcess}
    (hw : w.getSpawnedProcess pid = some appInfo) (hs : s.getSpawnedProcess pid = some app) :
    (w.reap appInfo).Follows (s.terminateSpawnedProcess app) where
  content := h.content
  appQueue := by
    have herase := congrArg (List.eraseP fun e => e.1 == pid) h.appQueue
    rw [List.eraseP_map, List.eraseP_map] at herase
    show (w.appQueue.erase appInfo).map _ = (s.appQueue.erase app).map _
    rw [erase_of_find? hw, erase_of_find? hs]
    exact herase

theorem Follows.collect (h : w.Follows s) (pid : Int) :
    (w.clearReserved pid).Follows (Appspawn.collect s pid) := by
  unfold clearReserved Appspawn.collect
  rw [h.content]
  split
  · exact ⟨rfl, h.appQueue⟩
  · exact ⟨h.content, h.appQueue⟩

/-- `WaitChildDied` leaves the table alone while the server goes on. -/
theorem Follows.waitChildDied (h : w.Follows s) (pid : Int)
    (hloop : (Appspawn.waitChildDied k s pid).loopStopped = false) :
    w.Follows (Appspawn.waitChildDied k s pid) := by
  unfold Appspawn.waitChildDied at hloop ⊢
  cases hctx : s.getAppSpawningCtxByPid pid with
  | none => exact h
  | some property =>
    rw [hctx] at hloop
    dsimp only at hloop ⊢
    by_cases hstate : property.state = .spawning
    · rw [if_pos hstate] at hloop ⊢
      split at hloop
      · -- The server is stopped.
        cases hloop
      · next hcrash =>
        rw [if_neg hcrash]
        constructor
        · simpa using h.content
        · simpa using h.appQueue
    · rw [if_neg hstate]
      exact h

/-- **`HandleDiedPid` does the same as in the server.** -/
theorem Follows.handleDiedPid (h : w.Follows s) (pid : Int)
    (hloop : (Appspawn.handleDiedPid k s pid).loopStopped = false) :
    (w.handleDiedPid k pid false).Follows (Appspawn.handleDiedPid k s pid) := by
  have hcollect := h.collect pid
  have hname := hcollect.getSpawnedProcess pid
  unfold Appspawn.handleDiedPid at hloop ⊢
  unfold PidfdServer.handleDiedPid
  dsimp only at hloop ⊢
  cases hs : (Appspawn.collect s pid).getSpawnedProcess pid with
  | none =>
    rw [hs] at hloop hname
    rw [Option.map_eq_none_iff.mp hname]
    exact hcollect.waitChildDied pid hloop
  | some app =>
    rw [hs] at hloop hname
    obtain ⟨appInfo, hw, heq⟩ := Option.map_eq_some_iff.mp hname
    rw [hw]
    dsimp only at hloop ⊢
    rw [heq]
    split at hloop
    · cases hloop
    · next hne =>
      rw [if_neg hne, if_neg hne]
      exact hcollect.reap hw hs

end PidfdServer

/-- The server before the first child. -/
def sampleWatching : PidfdServer := { content := { mode := .appSpawn, enablePerfork := true } }

/-- A child whose pidfd is handled first. -/
theorem released_throughout_iff_run :
    (watching sampleCodes).Throughout PidfdServer.ReleasedWhenDone sampleWatching
      [.childResponse 100 "app" {}, .readable ⟨0, 100⟩, .died 100 false] := by
  refine (released_throughout_iff ⟨_, rfl⟩ (System.Run.of_enabledAll (by decide))).mpr ?_
  refine .cons ⟨⟨rfl, trivial⟩, fun _ _ _ => ⟨rfl, rfl⟩⟩ (.cons ⟨by decide, ?_⟩ (.cons ?_ (.nil _)))
  · show PidfdServer.getSpawnedProcess _ 100 ≠ none
    decide
  · exact ⟨by decide, trivial⟩

/-- **The watcher stays when SIGCHLD comes first**: the descriptor of the child is not closed. -/
theorem pidfd_left_open : ∃ t, (watching sampleCodes).Run sampleWatching
    [.childResponse 100 "app" {}, .died 100 false, .readable ⟨0, 100⟩] t ∧ ¬ t.ReleasedWhenDone := by
  refine ⟨_, System.Run.of_enabledAll (by decide), fun hs => ?_⟩
  have hreleased := hs.released 0 (by decide) (by right; decide)
  exact absurd (hreleased.fd (by decide)) (by decide)

end Appspawn
