import OpenHarmonyMac.Appspawn.Ownership

/-!
# Connections of the shell

A client with the uid of the shell is let in for device debugging. Whatever it sends, the server
does nothing for it but send signals to tracked processes that are debuggable.

* `KeysStep` — a connection keeps its peer, and its number is never given out again
* `Confined` — the effects that device debugging has on the rest of the system
* `shell_confined` — what holds of a connection of the shell in every run
-/

namespace Appspawn

open Infra

variable {k : Codes} {lib : MsgLib} {s s' s'' : Server}

/-! ## Numbers and peers of the connections -/

/-- Each open connection with what is known of its peer. -/
def Server.keys (s : Server) : List (ConnId × Option Nat) :=
  s.connections.map fun x => (x.id, x.peerUid)

/-- Connections are closed, and opened under new numbers. -/
structure KeysStep (s s' : Server) : Prop where
  nextId : s.nextId ≤ s'.nextId
  keys : ∃ new : List (ConnId × Option Nat), s'.keys.Sublist (s.keys ++ new) ∧
    (new.map Prod.fst).Nodup ∧ ∀ p ∈ new, s.nextId ≤ p.1 ∧ p.1 < s'.nextId

namespace KeysStep

theorem of_keys (hn : s.nextId ≤ s'.nextId) (hk : s'.keys.Sublist s.keys) : KeysStep s s' :=
  ⟨hn, [], by simpa using hk, List.nodup_nil, by simp⟩

theorem of_connections (hn : s.nextId ≤ s'.nextId) (hc : s'.connections = s.connections) :
    KeysStep s s' :=
  of_keys hn (by rw [Server.keys, hc]; exact List.Sublist.refl _)

theorem refl (s : Server) : KeysStep s s := of_connections (Nat.le_refl _) rfl

theorem trans (h : KeysStep s s') (h' : KeysStep s' s'') : KeysStep s s'' := by
  obtain ⟨new, hsub, hnd, hnew⟩ := h.keys
  obtain ⟨new', hsub', hnd', hnew'⟩ := h'.keys
  refine ⟨h.nextId.trans h'.nextId, new ++ new', ?_, ?_, ?_⟩
  · rw [← List.append_assoc]
    exact hsub'.trans (hsub.append (List.Sublist.refl new'))
  · rw [List.map_append]
    refine List.nodup_append.mpr ⟨hnd, hnd', ?_⟩
    rintro i hi j hj rfl
    obtain ⟨p, hp, rfl⟩ := List.mem_map.mp hi
    obtain ⟨q, hq, heq⟩ := List.mem_map.mp hj
    have hlt := (hnew p hp).2
    have hle := (hnew' q hq).1
    exact absurd (Nat.lt_of_lt_of_le hlt hle) (by rw [heq]; exact Nat.lt_irrefl _)
  · intro p hp
    rcases List.mem_append.mp hp with hp | hp
    · exact ⟨(hnew p hp).1, Nat.lt_of_lt_of_le (hnew p hp).2 h'.nextId⟩
    · exact ⟨h.nextId.trans (hnew' p hp).1, (hnew' p hp).2⟩

theorem updateConnection (s : Server) (c : ConnId) {f : AppSpawnConnection → AppSpawnConnection}
    (hf : ∀ x, (f x).id = x.id ∧ (f x).peerUid = x.peerUid) :
    KeysStep s (s.updateConnection c f) := by
  refine of_keys (Nat.le_refl _) ?_
  have hk : (s.updateConnection c f).keys = s.keys := by
    unfold Server.keys
    rw [Server.updateConnection_connections, List.map_map]
    refine List.map_congr_left fun x _ => ?_
    rw [Function.comp_apply]
    split
    · rw [(hf x).1, (hf x).2]
    · rfl
  rw [hk]

theorem foldl {α : Type*} {f : Server → α → Server} (hf : ∀ s a, KeysStep s (f s a))
    (as : List α) : ∀ s, KeysStep s (as.foldl f s) := by
  induction as with
  | nil => exact fun s => refl s
  | cons a as ih => exact fun s => (hf s a).trans (ih (f s a))

theorem effects (h : Effects s s') : KeysStep s s' := by
  induction h with
  | refl => exact refl s
  | tail _ he ih =>
    refine ih.trans ?_
    cases he with
    | _ => exact of_connections (Nat.le_refl _) rfl

theorem onClose (s : Server) (c : ConnId) : KeysStep s (onClose s c) := by
  unfold Appspawn.onClose
  split
  · exact refl s
  · next conn _ =>
    have hd : KeysStep s (deleteIncompleteMsg s conn) := by
      unfold deleteIncompleteMsg
      split
      · exact refl s
      · exact of_connections (Nat.le_refl _) rfl
    have hu : KeysStep s ((deleteIncompleteMsg s conn).updateConnection c AppSpawnConnection.onClose) :=
      hd.trans (updateConnection _ c fun x => ⟨rfl, rfl⟩)
    refine hu.trans (foldl (fun t ctx => ?_) _ _)
    simp only [appSpawningCtxOnClose]
    split
    · exact of_connections (Nat.le_refl _) rfl
    · split <;> exact of_connections (Nat.le_refl _) rfl

theorem closeTask (s : Server) (c : ConnId) : KeysStep s (closeTask s c) :=
  (onClose s c).trans (of_keys (Nat.le_refl _) (List.filter_sublist.map _))

/-! ### The handlers -/

theorem refuse (s : Server) (c : ConnId) (m : AppSpawnMsgNode) (result : Int) :
    KeysStep s (s.refuse c m result) := of_connections (Nat.le_refl _) rfl

theorem reply (s : Server) (c : ConnId) (m : AppSpawnMsgNode) (result pid : Int) :
    KeysStep s (s.reply c m result pid) := of_connections (Nat.le_refl _) rfl

theorem deleteAppSpawnMsg (s : Server) (n : NodeId) : KeysStep s (s.deleteAppSpawnMsg n) :=
  of_connections (Nat.le_refl _) rfl

theorem startChild (env : SpawnEnv) (s : Server) (client : AppSpawnClient) (m : AppSpawnMsgNode) :
    KeysStep s (startChild k env s client m) := by
  rw [startChild_eq k env s client m rfl rfl]
  split
  · exact of_connections (Nat.le_add_right _ 3) rfl
  · split <;> exact of_connections (Nat.le_add_right _ 3) rfl

theorem processSpawnReqMsg (env : SpawnEnv) (s : Server) (c : ConnId) (m : AppSpawnMsgNode) :
    KeysStep s (processSpawnReqMsg k env s c m) := by
  have hu : KeysStep s ((s.use m.id).noteRequest c m.id) := of_connections (Nat.le_refl _) rfl
  simp only [Appspawn.processSpawnReqMsg]
  split
  · exact hu.trans (refuse _ _ _ _)
  · split
    · exact hu.trans (refuse _ _ _ _)
    · exact hu.trans (startChild env _ _ _)

theorem processBegetCmdMsg (env : DispatchEnv) (s : Server) (c : ConnId) (m : AppSpawnMsgNode) :
    KeysStep s (processBegetCmdMsg k env s c m) := by
  have hb : KeysStep s (processSpawnBegetctlMsg env s m).1 := by
    refine of_connections ?_ (connections_processSpawnBegetctlMsg env s m)
    unfold processSpawnBegetctlMsg
    split
    · exact Nat.le_refl _
    · split
      · exact Nat.le_refl _
      · split
        · exact Nat.le_refl _
        · simp only
          split <;> exact Nat.le_succ _
  unfold Appspawn.processBegetCmdMsg
  split
  · exact refuse _ _ _ _
  · simp only
    split
    · exact hb.trans (refuse _ _ _ _)
    · next msgNode _ =>
      have hspawn := hb.trans (processSpawnReqMsg (k := k) env.spawn _ c msgNode)
      exact (hspawn.trans (deleteAppSpawnMsg _ m.id)).trans (deleteAppSpawnMsg _ msgNode.id)

theorem processSpawnRestartMsg (env : DispatchEnv) (s : Server) (c : ConnId)
    (m : AppSpawnMsgNode) : KeysStep s (processSpawnRestartMsg k env s c m) := by
  have hd := effects (Effects.foldl effects_appQueueDestroyProc s.appQueue s)
  unfold Appspawn.processSpawnRestartMsg
  split
  · exact refuse _ _ _ _
  · have hanswer := hd.trans (refuse (s.appQueue.foldl appQueueDestroyProc s) c m 0)
    simp only
    split
    · exact hanswer.trans (of_connections (Nat.le_refl _) rfl)
    · exact hanswer

/-- A dispatch only takes new numbers. -/
theorem processRecvMsg (env : DispatchEnv) (s : Server) (c : ConnId) (m : AppSpawnMsgNode) :
    KeysStep s (processRecvMsg k env s c m) := by
  have hu : KeysStep s (s.use m.id) := of_connections (Nat.le_refl _) rfl
  have hdebug : KeysStep (s.use m.id) (processAppSpawnDeviceDebugMsg k env (s.use m.id) m).1 := by
    refine of_connections ?_ (connections_processAppSpawnDeviceDebugMsg env _ m)
    unfold processAppSpawnDeviceDebugMsg appspawnDevicedebugDeal appspawpnDevicedebugKill
    split
    · split
      · split
        · exact Nat.le_refl _
        · split
          · exact Nat.le_refl _
          · split <;> exact Nat.le_refl _
      · exact Nat.le_refl _
    · exact Nat.le_refl _
  have hlock : KeysStep (s.use m.id) (processAppSpawnLockStatusMsg env (s.use m.id) m) := by
    refine of_connections ?_ (connections_processAppSpawnLockStatusMsg env _ m)
    unfold processAppSpawnLockStatusMsg
    split
    · exact Nat.le_refl _
    · split <;> exact Nat.le_refl _
  have huninstall : KeysStep (s.use m.id) (processUninstallDebugHap k env (s.use m.id) c m) := by
    refine of_connections ?_ (connections_processUninstallDebugHap env _ c m)
    unfold processUninstallDebugHap
    split <;> exact Nat.le_refl _
  simp only [Appspawn.processRecvMsg]
  split
  · exact hu.trans (reply _ _ _ _ _)
  · exact hu.trans (processSpawnReqMsg _ _ _ _)
  · exact hu.trans (processSpawnReqMsg _ _ _ _)
  · exact hu.trans (reply _ _ _ _ _)
  · exact hu.trans (processBegetCmdMsg _ _ _ _)
  · exact hu.trans (reply _ _ _ _ _)
  · exact hu.trans (of_connections (Nat.le_refl _) rfl)
  · exact hu.trans (processSpawnRestartMsg _ _ _ _)
  · exact (hu.trans hdebug).trans (reply _ _ _ _ _)
  · exact hu.trans huninstall
  · exact (hu.trans hlock).trans (reply _ _ _ _ _)
  · exact hu.trans (reply _ _ _ _ _)

/-! ### The receive path -/

theorem takeNode (s : Server) (held : Option NodeId) : KeysStep s (s.takeNode held).1 := by
  cases held with
  | none => exact of_connections (Nat.le_succ _) rfl
  | some n => exact refl s

theorem runPiece (env : DispatchEnv) (s : Server) (c : ConnId) (held : Option NodeId) (r : Round) :
    KeysStep s (runPiece k lib env s c held r) := by
  have ht := takeNode s held
  have hu : KeysStep s ((s.takeNode held).1.use (s.takeNode held).2) :=
    ht.trans (of_connections (Nat.le_refl _) rfl)
  have hcomplete : KeysStep s
      (((s.takeNode held).1.use (s.takeNode held).2).updateConnection c
        AppSpawnConnection.complete) :=
    hu.trans (updateConnection _ c fun x => ⟨rfl, rfl⟩)
  simp only [Appspawn.runPiece]
  split
  · split
    · exact refl s
    · exact ht.trans (of_connections (Nat.le_refl _) rfl)
  · exact hu.trans (updateConnection _ c fun x => ⟨rfl, rfl⟩)
  · exact hcomplete
  · exact hcomplete.trans (of_connections (Nat.le_refl _) rfl)
  · exact hcomplete.trans (processRecvMsg _ _ _ _)

theorem runRounds (c : ConnId) (rs : List Round) : ∀ s held envs,
    KeysStep s (runRounds k lib c s held rs envs) := by
  induction rs with
  | nil => exact fun s _ _ => refl s
  | cons r rs ih => exact fun s held envs => (runPiece _ s c held r).trans (ih _ _ _)

theorem startTimerForCheckMsg (env : ReceiveEnv) (s : Server) (c : ConnId) :
    KeysStep s (startTimerForCheckMsg env s c) := by
  unfold Appspawn.startTimerForCheckMsg
  split
  · exact refl s
  split
  · exact refl s
  split
  · exact closeTask s c
  have hu : KeysStep s (s.updateConnection c (fun x => { x with timer := true })) :=
    updateConnection _ c fun x => ⟨rfl, rfl⟩
  dsimp only
  split
  · exact hu
  · exact hu.trans (closeTask _ c)

theorem receiveRequest (shellUid : Nat) (env : ReceiveEnv) (s : Server) (conn : AppSpawnConnection)
    (buffer : List UInt8) : KeysStep s (receiveRequest k lib shellUid env s conn buffer) := by
  have htake : KeysStep s (s.updateConnection conn.id AppSpawnConnection.take) :=
    updateConnection _ conn.id fun x => ⟨rfl, rfl⟩
  simp only [Appspawn.receiveRequest]
  split
  · have hr := htake.trans (@runRounds k lib conn.id
      (env.received lib shellUid conn buffer).rounds _ (conn.incompleteMsg.map (·.1)) env.dispatch)
    split
    · exact hr.trans (closeTask _ _)
    · exact hr.trans (startTimerForCheckMsg _ _ _)
  · exact closeTask _ _

theorem onConnection (s : Server) (cred : Option Nat) (dev : Bool) :
    KeysStep s (onConnection s cred dev) := by
  unfold Appspawn.onConnection
  split
  · exact refl s
  · next uid =>
    split
    · refine ⟨Nat.le_succ _, [(s.nextId, some uid)], ?_, List.nodup_singleton _, ?_⟩
      · simp [Server.keys]
      · simp
    · exact refl s

theorem step (s : Server) (e : Event) : KeysStep s (s.step k e) := by
  cases e with
  | connection cred dev => exact onConnection s cred dev
  | spawnRequest c msg env =>
    have hc : KeysStep s s.createAppSpawnMsg := of_connections (Nat.le_succ _) rfl
    exact hc.trans (processSpawnReqMsg _ _ _ _)
  | childResponse n bytes added =>
    simp only [Server.step]
    split
    · exact refl s
    · next ctx _ =>
      by_cases hr : readResult bytes = 0
      · rw [processChildResponse_of_eq hr]
        cases added <;> exact of_connections (by simp) (by simp)
      · rw [processChildResponse_of_ne hr]
        exact of_connections (by simp) (by simp)
  | childTimeout n =>
    simp only [Server.step]
    split
    · exact refl s
    · next ctx hf => exact effects (effects_waitChildTimeout k (List.mem_of_find?_eq_some hf))
  | signal sig => exact effects (effects_processSignal k s sig)
  | close c => exact closeTask s c
  | sendComplete pid failed => exact effects (effects_sendMessageComplete s pid failed)

/-- Every event of the server. -/
theorem serve (shellUid : Nat) (s : Server) (e : ServiceEvent) :
    KeysStep s (s.serve k lib shellUid e) := by
  cases e with
  | receive c buffer env =>
    simp only [Server.serve]
    split
    · exact refl s
    · exact receiveRequest _ _ _ _ _
  | receiveTimeout c =>
    simp only [Server.serve]
    split
    · exact refl s
    · next conn _ =>
      have hd : KeysStep s (deleteIncompleteMsg s conn) := by
        unfold deleteIncompleteMsg
        split
        · exact refl s
        · exact of_connections (Nat.le_refl _) rfl
      have hu : KeysStep s
          ((deleteIncompleteMsg s conn).updateConnection conn.id AppSpawnConnection.take) :=
        hd.trans (updateConnection _ conn.id fun x => ⟨rfl, rfl⟩)
      exact hu.trans (closeTask _ _)
  | loop e => exact step s e

end KeysStep

/-- The numbers are given out in order, each to one connection. -/
structure Keyed (s : Server) : Prop where
  nodup : (s.keys.map Prod.fst).Nodup
  lt : ∀ p ∈ s.keys, p.1 < s.nextId

theorem Keyed.step (h : Keyed s) (hk : KeysStep s s') : Keyed s' := by
  obtain ⟨new, hsub, hnd, hnew⟩ := hk.keys
  refine ⟨List.Nodup.sublist (hsub.map Prod.fst) ?_, fun p hp => ?_⟩
  · rw [List.map_append]
    refine List.nodup_append.mpr ⟨h.nodup, hnd, ?_⟩
    rintro i hi j hj rfl
    obtain ⟨p, hp, rfl⟩ := List.mem_map.mp hi
    obtain ⟨q, hq, heq⟩ := List.mem_map.mp hj
    have hlt := h.lt p hp
    have hle := (hnew q hq).1
    exact absurd (Nat.lt_of_lt_of_le hlt hle) (by rw [heq]; exact Nat.lt_irrefl _)
  · rcases List.mem_append.mp (hsub.subset hp) with hp | hp
    · exact Nat.lt_of_lt_of_le (h.lt p hp) hk.nextId
    · exact (hnew p hp).2

theorem keyed_of_reachable {shellUid : Nat} (h : (service k lib shellUid).Reachable s) :
    Keyed s := by
  refine h.invariant ?_ fun t e ht _ => ht.step (KeysStep.serve shellUid t e)
  rintro t ⟨content, nwebspawn, -, -, rfl⟩
  exact ⟨List.nodup_nil, fun p hp => by cases hp⟩

/-- The number `c` was given out, and if it still is the number of a connection, `Q` holds of what
is known of the peer. -/
structure PeerOf (c : ConnId) (Q : Option Nat → Prop) (s : Server) : Prop where
  given : c < s.nextId
  peer : ∀ p ∈ s.keys, p.1 = c → Q p.2

theorem PeerOf.step {c : ConnId} {Q : Option Nat → Prop} (h : PeerOf c Q s)
    (hk : KeysStep s s') : PeerOf c Q s' := by
  obtain ⟨new, hsub, -, hnew⟩ := hk.keys
  refine ⟨Nat.lt_of_lt_of_le h.given hk.nextId, fun p hp hc => ?_⟩
  rcases List.mem_append.mp (hsub.subset hp) with hp | hp
  · exact h.peer p hp hc
  · have hle := (hnew p hp).1
    exact absurd (Nat.lt_of_lt_of_le h.given hle) (by rw [hc]; exact Nat.lt_irrefl _)

theorem mem_keys {c : ConnId} {conn : AppSpawnConnection} (hc : s.connectionOf c = some conn) :
    (c, conn.peerUid) ∈ s.keys ∧ conn.id = c := by
  have hid : conn.id = c := by simpa using List.find?_some hc
  exact ⟨List.mem_map.mpr ⟨conn, List.mem_of_find?_eq_some hc, by rw [hid]⟩, hid⟩

theorem Keyed.peerOf (h : Keyed s) {c : ConnId} {conn : AppSpawnConnection}
    (hc : s.connectionOf c = some conn) : PeerOf c (· = conn.peerUid) s := by
  have hmem := (mem_keys hc).1
  refine ⟨h.lt _ hmem, fun p hp hpc => ?_⟩
  have heq : p = (c, conn.peerUid) := List.inj_on_of_nodup_map h.nodup hp hmem hpc
  rw [heq]

/-- A connection that was closed. -/
abbrev Gone (c : ConnId) : Server → Prop := PeerOf c fun _ => False

theorem PeerOf.closeTask {c : ConnId} {Q : Option Nat → Prop} (h : PeerOf c Q s) :
    Gone c (closeTask s c) := by
  refine ⟨(h.step (KeysStep.closeTask s c)).given, fun p hp hpc => ?_⟩
  obtain ⟨x, hx, rfl⟩ := List.mem_map.mp hp
  have hne : x.id ≠ c := by simpa using (List.mem_filter.mp hx).2
  exact hne hpc

theorem Gone.connectionOf {c : ConnId} (h : Gone c s) : s.connectionOf c = none := by
  cases hc : s.connectionOf c with
  | none => rfl
  | some conn => exact (h.peer _ (mem_keys hc).1 rfl).elim

/-! ## What device debugging may do -/

/-- Nothing has changed for the processes and the system, but that signals were sent to tracked
processes that are debuggable. -/
structure Confined (s s' : Server) : Prop where
  content : s'.content = s.content
  appSpawnQueue : s'.appSpawnQueue = s.appSpawnQueue
  appQueue : s'.appQueue = s.appQueue
  lastDiedAppId : s'.lastDiedAppId = s.lastDiedAppId
  crashTimes : s'.crashTimes = s.crashTimes
  loopStopped : s'.loopStopped = s.loopStopped
  procs : s'.procs = s.procs
  requests : s'.requests = s.requests
  added : s'.added = s.added
  removed : s'.removed = s.removed
  parameters : s'.parameters = s.parameters
  kills : ∃ sent : List (Int × Nat), s'.kills = sent ++ s.kills ∧
    ∀ p ∈ sent, ∃ appInfo ∈ s.appQueue, appInfo.pid = p.1 ∧ appInfo.isDebuggable = true

namespace Confined

theorem refl (s : Server) : Confined s s :=
  ⟨rfl, rfl, rfl, rfl, rfl, rfl, rfl, rfl, rfl, rfl, rfl, [], rfl, by simp⟩

theorem trans (h : Confined s s') (h' : Confined s' s'') : Confined s s'' := by
  obtain ⟨sent, hk, hs⟩ := h.kills
  obtain ⟨sent', hk', hs'⟩ := h'.kills
  refine ⟨h'.content.trans h.content, h'.appSpawnQueue.trans h.appSpawnQueue,
    h'.appQueue.trans h.appQueue, h'.lastDiedAppId.trans h.lastDiedAppId,
    h'.crashTimes.trans h.crashTimes, h'.loopStopped.trans h.loopStopped, h'.procs.trans h.procs,
    h'.requests.trans h.requests, h'.added.trans h.added, h'.removed.trans h.removed,
    h'.parameters.trans h.parameters, sent' ++ sent, ?_, fun p hp => ?_⟩
  · rw [hk', hk, List.append_assoc]
  · rcases List.mem_append.mp hp with hp | hp
    · rw [← h.appQueue]
      exact hs' p hp
    · exact hs p hp

theorem use (s : Server) (n : NodeId) : Confined s (s.use n) :=
  ⟨rfl, rfl, rfl, rfl, rfl, rfl, rfl, rfl, rfl, rfl, rfl, [], rfl, by simp⟩

theorem updateConnection (s : Server) (c : ConnId)
    (f : AppSpawnConnection → AppSpawnConnection) : Confined s (s.updateConnection c f) :=
  ⟨rfl, rfl, rfl, rfl, rfl, rfl, rfl, rfl, rfl, rfl, rfl, [], rfl, by simp⟩

theorem deleteAppSpawnMsg (s : Server) (n : NodeId) : Confined s (s.deleteAppSpawnMsg n) :=
  ⟨rfl, rfl, rfl, rfl, rfl, rfl, rfl, rfl, rfl, rfl, rfl, [], rfl, by simp⟩

/-- The answer of a request. -/
theorem reply (s : Server) (c : ConnId) (m : AppSpawnMsgNode) (result pid : Int) :
    Confined s (s.reply c m result pid) :=
  ⟨rfl, rfl, rfl, rfl, rfl, rfl, rfl, rfl, rfl, rfl, rfl, [], rfl, by simp⟩

theorem takeNode (s : Server) (held : Option NodeId) : Confined s (s.takeNode held).1 := by
  cases held with
  | none => exact ⟨rfl, rfl, rfl, rfl, rfl, rfl, rfl, rfl, rfl, rfl, rfl, [], rfl, by simp⟩
  | some n => exact refl s

/-- The one signal of a device debug request goes to a process that passed both checks. -/
theorem appspawpnDevicedebugKill (env : DispatchEnv) (s : Server) (pid : Int)
    (signal : Option Int) : Confined s (appspawpnDevicedebugKill k env s pid signal).1 := by
  unfold Appspawn.appspawpnDevicedebugKill
  cases signal with
  | none => exact refl s
  | some signal =>
    cases hf : s.getSpawnedProcess pid with
    | none => exact refl s
    | some appInfo =>
      dsimp only
      by_cases hd : appInfo.isDebuggable = false
      · rw [if_pos hd]
        exact refl s
      · rw [if_neg hd]
        have hpid : appInfo.pid = pid := by simpa using List.find?_some hf
        refine ⟨rfl, rfl, rfl, rfl, rfl, rfl, rfl, rfl, rfl, rfl, rfl,
          [(pid, signal.toNat)], rfl, fun p hp => ?_⟩
        rw [List.mem_singleton.mp hp]
        exact ⟨appInfo, List.mem_of_find?_eq_some hf, hpid, by simpa using hd⟩

theorem processAppSpawnDeviceDebugMsg (env : DispatchEnv) (s : Server) (m : AppSpawnMsgNode) :
    Confined s (processAppSpawnDeviceDebugMsg k env s m).1 := by
  unfold Appspawn.processAppSpawnDeviceDebugMsg appspawnDevicedebugDeal
  split
  · split
    · exact appspawpnDevicedebugKill _ _ _ _
    · exact refl s
  · exact refl s

theorem processRecvMsg {m : AppSpawnMsgNode} (hm : m.msg.msgType = .deviceDebug)
    (env : DispatchEnv) (s : Server) (c : ConnId) : Confined s (processRecvMsg k env s c m) := by
  have hd := (use s m.id).trans (processAppSpawnDeviceDebugMsg (k := k) env (s.use m.id) m)
  simp only [Appspawn.processRecvMsg, hm]
  exact hd.trans (reply _ c m _ 0)

/-- The rounds of a call in which only device debug messages are dispatched. -/
theorem runPiece {r : Round}
    (hr : ∀ m, r.piece = .dispatched m → (lib.view m).msgType = .deviceDebug) (env : DispatchEnv)
    (s : Server) (c : ConnId) (held : Option NodeId) :
    Confined s (runPiece k lib env s c held r) := by
  have ht := takeNode s held
  have hcomplete : Confined s
      (((s.takeNode held).1.use (s.takeNode held).2).updateConnection c
        AppSpawnConnection.complete) :=
    (ht.trans (use _ _)).trans (updateConnection _ _ _)
  simp only [Appspawn.runPiece]
  split
  · split
    · exact refl s
    · exact ht.trans (deleteAppSpawnMsg _ _)
  · exact (ht.trans (use _ _)).trans (updateConnection _ _ _)
  · exact hcomplete
  · exact hcomplete.trans (deleteAppSpawnMsg _ _)
  · next m hp => exact hcomplete.trans (processRecvMsg (m := ⟨_, lib.view m, _⟩) (hr m hp) env _ c)

theorem runRounds (c : ConnId) (rs : List Round) : (∀ r ∈ rs, ∀ m, r.piece = .dispatched m →
    (lib.view m).msgType = .deviceDebug) → ∀ s held envs,
    Confined s (runRounds k lib c s held rs envs) := by
  induction rs with
  | nil => exact fun _ s _ _ => refl s
  | cons r rs ih =>
    intro hrs s held envs
    exact (runPiece (hrs r List.mem_cons_self) _ s c held).trans
      (ih (fun r' hr' => hrs r' (List.mem_cons_of_mem _ hr')) _ _ _)

end Confined

/-! ## The messages of a connection -/

/-- The message that was complete in a round. -/
def Piece.completed : Piece → Option (List UInt8)
  | .refused m => some m
  | .undecoded m => some m
  | .dispatched m => some m
  | _ => none

/-- Only device debug messages are dispatched, and after a complete message of another type the
connection has no further rounds. -/
structure DebugOnly (lib : MsgLib) (rs : List Round) : Prop where
  dispatched : ∀ r ∈ rs, ∀ m, r.piece = .dispatched m → (lib.view m).msgType = .deviceDebug
  last : ∀ pre r post m, rs = pre ++ r :: post → r.piece.completed = some m →
    (lib.view m).msgType ≠ .deviceDebug → post = []

/-- The uid check for a peer of the shell: it knows the uid, or `getsockopt` failed. -/
def shellCheck (shellUid : Nat) (credOk : Bool) : AppSpawnMsg → Bool :=
  msgDevicedebugCheck shellUid (if credOk then some shellUid else none)

theorem msgType_of_shellCheck {shellUid : Nat} {credOk : Bool} {msg : AppSpawnMsg}
    (h : shellCheck shellUid credOk msg = true) : msg.msgType = .deviceDebug := by
  cases credOk with
  | false => cases h
  | true => simpa [shellCheck, msgDevicedebugCheck] using h

/-- What a round made of a complete message tells about the uid check. -/
theorem classify_completed {check : AppSpawnMsg → Bool} {message m : List UInt8} {len : Nat}
    (h : (classify lib check message len).completed = some m) :
    classify lib check message len = .refused m ∨ check (lib.view m) = true := by
  revert h
  unfold classify
  split
  · exact fun h => by cases h
  split
  · rintro ⟨rfl⟩
    exact .inl rfl
  · next hc =>
    have hcheck : check (lib.view message) = true := by simpa using hc
    split <;> rintro ⟨rfl⟩ <;> exact .inr hcheck

theorem recvRound_completed {check : AppSpawnMsg → Bool} {buffer : List UInt8}
    {beyond : Nat → List UInt8} {message : Option (List UInt8)} {msgRecvLen currLen : Nat}
    {m : List UInt8}
    (h : (recvRound lib check buffer beyond message msgRecvLen currLen).piece.completed = some m) :
    (recvRound lib check buffer beyond message msgRecvLen currLen).piece = .refused m ∨
      check (lib.view m) = true := by
  revert h
  unfold recvRound
  cases lib.getAppSpawnMsgFromBuffer (rangeAt buffer beyond currLen) message msgRecvLen with
  | error x => exact fun h => by cases h
  | ok x n r => exact classify_completed

theorem recvLoop_completed {check : AppSpawnMsg → Bool} {buffer : List UInt8}
    {beyond : Nat → List UInt8} : ∀ (fuel : Nat) (message : Option (List UInt8))
    (msgRecvLen currLen : Nat), ∀ r ∈ recvLoop lib check buffer beyond fuel message msgRecvLen currLen,
    ∀ m, r.piece.completed = some m → r.piece = .refused m ∨ check (lib.view m) = true
  | 0, _, _, _ => fun r hr => by cases hr
  | fuel + 1, message, msgRecvLen, currLen => by
    intro r hr m hm
    rw [recvLoop] at hr
    split at hr
    · split at hr
      · rcases List.mem_cons.mp hr with rfl | hr
        · exact recvRound_completed hm
        · exact recvLoop_completed fuel _ _ _ r hr m hm
      · rw [List.mem_singleton.mp hr] at hm ⊢
        exact recvRound_completed hm
    · rw [List.mem_singleton.mp hr] at hm ⊢
      exact recvRound_completed hm

/-- Nothing comes after a round that did not dispatch its message. -/
theorem WellShaped.eq_nil {r : Round} {post : List Round} (hr : ∀ m, r.piece ≠ .dispatched m) :
    ∀ pre : List Round, WellShaped ((pre ++ r :: post).map (·.piece)) → post = []
  | [], h => by
    cases post with
    | nil => rfl
    | cons q post =>
      obtain ⟨⟨m, hm⟩, -⟩ := h
      exact absurd hm (hr m)
  | [p], h => WellShaped.eq_nil hr [] h.2
  | _ :: q :: pre, h => WellShaped.eq_nil hr (q :: pre) h.2

/-- One call for a peer of the shell. A complete message of another type ends it, and the
connection is closed. -/
theorem debugOnly_onReceiveRequest (shellUid : Nat) (credOk : Bool) (beyond : Nat → List UInt8)
    (ctx : ReceiverCtx) (buffer : List UInt8) {r : Received}
    (hr : onReceiveRequest lib (shellCheck shellUid credOk) beyond ctx buffer = r) :
    DebugOnly lib r.rounds ∧ (r.closed = false →
      ∀ q ∈ r.rounds, ∀ m, q.piece.completed = some m → (lib.view m).msgType = .deviceDebug) := by
  have hshape := onReceiveRequest_wellShaped lib (shellCheck shellUid credOk) beyond ctx buffer
  have hpieces : ∀ q ∈ r.rounds, ∀ m, q.piece.completed = some m →
      q.piece = .refused m ∨ (lib.view m).msgType = .deviceDebug := by
    intro q hq m hm
    rw [← hr] at hq
    unfold onReceiveRequest at hq
    split at hq
    · rw [afterLoop_rounds] at hq
      exact (recvLoop_completed _ _ _ _ q hq m hm).imp_right msgType_of_shellCheck
    · cases hq
  have hlast : ∀ pre q post m, r.rounds = pre ++ q :: post → q.piece = .refused m → post = [] := by
    intro pre q post m hs hq
    rw [hr, hs] at hshape
    exact WellShaped.eq_nil (fun m' => by rw [hq]; exact Piece.noConfusion) _ hshape
  refine ⟨⟨fun q hq m hm => ?_, fun pre q post m hs hm hne => ?_⟩, fun hopen q hq m hm => ?_⟩
  · rcases hpieces q hq m (by rw [hm]; rfl) with h | h
    · rw [hm] at h
      cases h
    · exact h
  · have hmem : q ∈ r.rounds := by
      rw [hs]
      exact List.mem_append_right _ List.mem_cons_self
    exact hlast pre q post m hs ((hpieces q hmem m hm).resolve_right hne)
  · rcases hpieces q hq m hm with h | h
    · -- A refused round is the last one, and then the code below the loop is a close.
      obtain ⟨pre, post, hs⟩ := List.append_of_mem hq
      rw [hlast pre q post m hs h] at hs
      rw [← hr] at hopen hs
      unfold onReceiveRequest at hopen hs
      split at hopen
      · next hlen =>
        rw [if_pos hlen, afterLoop_rounds] at hs
        rw [hs] at hopen
        simp [afterLoop, h] at hopen
      · cases hopen
    · exact h

variable (k lib)

/-- The server behind the rounds of a call, before the close or the timer below the loop. -/
def Server.afterRounds (shellUid : Nat) (env : ReceiveEnv) (s : Server)
    (conn : AppSpawnConnection) (buffer : List UInt8) : Server :=
  runRounds k lib conn.id (s.updateConnection conn.id AppSpawnConnection.take)
    (conn.incompleteMsg.map (·.1)) (env.received lib shellUid conn buffer).rounds env.dispatch

/-- The rounds in which the event serves the connection `c`. -/
def Server.roundsOf (shellUid : Nat) (s : Server) (c : ConnId) : ServiceEvent → List Round
  | .receive c' buffer env =>
    if c' = c then
      match s.connectionOf c with
      | none => []
      | some conn => (env.received lib shellUid conn buffer).rounds
    else []
  | _ => []

/-- The rounds of the connection `c` in a run. -/
def roundsIn (shellUid : Nat) (c : ConnId) : Server → List ServiceEvent → List Round
  | _, [] => []
  | s, e :: es =>
    s.roundsOf lib shellUid c e ++ roundsIn shellUid c (s.serve k lib shellUid e) es

variable {k lib}

theorem receiveRequest_eq (shellUid : Nat) (env : ReceiveEnv) (s : Server)
    (conn : AppSpawnConnection) (buffer : List UInt8) :
    receiveRequest k lib shellUid env s conn buffer =
      if buffer.length < lib.maxMsgTotalLength then
        if (env.received lib shellUid conn buffer).closed then
          closeTask (s.afterRounds k lib shellUid env conn buffer) conn.id
        else startTimerForCheckMsg env (s.afterRounds k lib shellUid env conn buffer) conn.id
      else closeTask s conn.id := rfl

theorem Gone.roundsIn {shellUid : Nat} {c : ConnId} (es : List ServiceEvent) :
    ∀ {s : Server}, Gone c s → roundsIn k lib shellUid c s es = [] := by
  induction es with
  | nil => exact fun _ => rfl
  | cons e es ih =>
    intro s h
    have hof : s.roundsOf lib shellUid c e = [] := by
      cases e with
      | receive c' buffer env => simp [Server.roundsOf, h.connectionOf]
      | receiveTimeout c' => rfl
      | loop e => rfl
    rw [Appspawn.roundsIn, hof, ih (h.step (KeysStep.serve shellUid s e))]
    rfl

/-- The first rounds of a connection of the shell, and what became of the connection. -/
theorem debugOnly_roundsOf {shellUid : Nat} {c : ConnId} (h : PeerOf c (· = some shellUid) s)
    (e : ServiceEvent) : DebugOnly lib (s.roundsOf lib shellUid c e) ∧
      ((∀ q ∈ s.roundsOf lib shellUid c e, ∀ m, q.piece.completed = some m →
        (lib.view m).msgType = .deviceDebug) ∨ Gone c (s.serve k lib shellUid e)) := by
  have hnil : DebugOnly lib [] := ⟨fun r hr => (by cases hr), fun pre r post m hs => (by simp at hs)⟩
  cases e with
  | receive c' buffer env =>
    by_cases hc : c' = c
    · subst hc
      simp only [Server.roundsOf, if_true, Server.serve]
      cases hconn : s.connectionOf c' with
      | none => exact ⟨hnil, .inl fun q hq => by cases hq⟩
      | some conn =>
        have hkeys := mem_keys hconn
        have hu : conn.peerUid = some shellUid := h.peer _ hkeys.1 rfl
        have hcheck : msgDevicedebugCheck shellUid (if env.credOk then conn.peerUid else none) =
            shellCheck shellUid env.credOk := by
          rw [hu]
          rfl
        obtain ⟨hd, hopen⟩ := @debugOnly_onReceiveRequest lib shellUid env.credOk
          env.beyond conn.receiverCtx buffer _ rfl
        rw [← hcheck] at hd hopen
        refine ⟨hd, ?_⟩
        dsimp only
        rw [receiveRequest_eq, hkeys.2]
        split
        · split
          · have hstep : KeysStep s (s.afterRounds k lib shellUid env conn buffer) := by
              have htake : KeysStep s (s.updateConnection conn.id AppSpawnConnection.take) :=
                KeysStep.updateConnection _ conn.id fun x => ⟨rfl, rfl⟩
              exact htake.trans (KeysStep.runRounds _ _ _ _ _)
            exact .inr (h.step hstep).closeTask
          · next hclosed => exact .inl (hopen (by simpa [ReceiveEnv.received] using hclosed))
        · exact .inr h.closeTask
    · simp only [Server.roundsOf, if_neg hc]
      exact ⟨hnil, .inl fun q hq => by cases hq⟩
  | receiveTimeout c' => exact ⟨hnil, .inl fun q hq => by cases hq⟩
  | loop e => exact ⟨hnil, .inl fun q hq => by cases hq⟩

/-- Rounds of device debug messages in front change nothing. -/
theorem DebugOnly.append {rs rs' : List Round} (h : DebugOnly lib rs') (hrs : ∀ q ∈ rs, ∀ m,
    q.piece.completed = some m → (lib.view m).msgType = .deviceDebug) :
    DebugOnly lib (rs ++ rs') := by
  refine ⟨fun r hr m hm => ?_, fun pre r post m hs hm hne => ?_⟩
  · rcases List.mem_append.mp hr with hr | hr
    · exact hrs r hr m (by rw [hm]; rfl)
    · exact h.dispatched r hr m hm
  · rcases List.append_eq_append_iff.mp hs with ⟨mid, hpre, hmid⟩ | ⟨mid, hpre, hmid⟩
    · exact h.last mid r post m hmid hm hne
    · -- The round lies in front, so its message is one for device debugging.
      cases mid with
      | nil => exact h.last [] r post m (by simpa using hmid.symm) hm hne
      | cons q mid =>
        obtain ⟨rfl, -⟩ := List.cons.inj hmid
        have hmem : r ∈ rs := by
          rw [hpre]
          exact List.mem_append_right _ List.mem_cons_self
        exact absurd (hrs r hmem m hm) hne

theorem debugOnly_roundsIn {shellUid : Nat} {c : ConnId} (es : List ServiceEvent) :
    ∀ {s : Server}, PeerOf c (· = some shellUid) s →
      DebugOnly lib (roundsIn k lib shellUid c s es) := by
  induction es with
  | nil => exact fun _ => ⟨fun r hr => (by cases hr), fun pre r post m hs => (by simp [roundsIn] at hs)⟩
  | cons e es ih =>
    intro s h
    obtain ⟨hd, hrest⟩ := @debugOnly_roundsOf k lib _ _ _ h e
    rw [roundsIn]
    rcases hrest with hall | hgone
    · exact (ih (h.step (KeysStep.serve shellUid s e))).append hall
    · rw [hgone.roundsIn, List.append_nil]
      exact hd

/-- What the rounds of a connection of the shell do. -/
theorem confined_afterRounds {shellUid : Nat} {conn : AppSpawnConnection}
    (hu : conn.peerUid = some shellUid) (env : ReceiveEnv) (s : Server) (buffer : List UInt8) :
    Confined s (s.afterRounds k lib shellUid env conn buffer) := by
  have hcheck : msgDevicedebugCheck shellUid (if env.credOk then conn.peerUid else none) =
      shellCheck shellUid env.credOk := by
    rw [hu]
    rfl
  have hd := (@debugOnly_onReceiveRequest lib shellUid env.credOk env.beyond conn.receiverCtx
    buffer _ rfl).1
  rw [← hcheck] at hd
  exact (Confined.updateConnection _ _ _).trans (Confined.runRounds _ _ hd.dispatched _ _ _)

/-- **Device-debug confinement.** Let the peer of an open connection have the uid of the shell. In
every run from there, only device debug messages of the connection are dispatched, and the first
complete message of another type is the last thing that is read from it. Each time the connection
is served, its messages do nothing but send signals to tracked processes that are debuggable. -/
theorem shell_confined {shellUid : Nat} (h : (service k lib shellUid).Reachable s) {c : ConnId}
    {conn : AppSpawnConnection} (hc : s.connectionOf c = some conn)
    (hu : conn.peerUid = some shellUid) {es : List ServiceEvent} {t : Server}
    (hr : (service k lib shellUid).Run s es t) :
    DebugOnly lib (roundsIn k lib shellUid c s es) ∧
      ∀ conn', t.connectionOf c = some conn' → ∀ env buffer,
        Confined t (t.afterRounds k lib shellUid env conn' buffer) := by
  have hpeer : PeerOf c (· = some shellUid) s := by
    have hp := (keyed_of_reachable h).peerOf hc
    rwa [hu] at hp
  have hpeer' : PeerOf c (· = some shellUid) t :=
    hr.invariant (fun s e hs _ => hs.step (KeysStep.serve shellUid s e)) hpeer
  exact ⟨debugOnly_roundsIn es hpeer, fun conn' hc' env buffer =>
    confined_afterRounds (hpeer'.peer _ (mem_keys hc').1 rfl) env t buffer⟩

/-! ## A shell that asks for a signal -/

/-- A library for messages of one byte: 0 is a spawn request of a debuggable process, 1 a device
debug request for the process 100. -/
def debugLib : MsgLib where
  maxMsgTotalLength := 512
  maxMsgTotalLength_le := by decide
  getAppSpawnMsgFromBuffer range _ _ := .ok (range.take 1) 1 (range.length - 1)
  view m :=
    { msgType := if m.head? = some 1 then .deviceDebug else .appSpawn
      msgLen := 1
      msgId := 1
      processName := "app"
      flags := [.debuggable]
      devicedebug := some (some { app := some 100, op := some "kill", args := some (some 19) }) }
  decodeAppSpawnMsg _ := 0

/-- The process 100 is spawned for the first connection, and the shell connects. -/
def shellConnects : List ServiceEvent :=
  [.loop (.connection (some 0) false), sampleReceive [0] { spawn := sampleEnv },
    .loop (.childResponse 2 (some [0, 0, 0, 0]) true), .loop (.connection (some 2000) true)]

/-- Its first message stops the process, and its second one is not dispatched. -/
def shellSends : List ServiceEvent :=
  [.receive 6 [1] {}, .receive 6 [0] {}]

/-- The server after these events. -/
def debugServe (s : Server) (es : List ServiceEvent) : Server :=
  es.foldl (fun s e => s.serve sampleCodes debugLib 2000 e) s

theorem shell_confined_run :
    (debugServe (debugServe sampleLaunch shellConnects) shellSends).kills = [(100, 19)] ∧
      DebugOnly debugLib (roundsIn sampleCodes debugLib 2000 6
        (debugServe sampleLaunch shellConnects) shellSends) := by
  have hr : (service sampleCodes debugLib 2000).Reachable
      (debugServe sampleLaunch shellConnects) :=
    ⟨sampleLaunch, shellConnects, ⟨_, _, by decide, by decide, rfl⟩,
      System.Run.of_enabledAll (by decide +kernel)⟩
  have hrun : (service sampleCodes debugLib 2000).Run (debugServe sampleLaunch shellConnects)
      shellSends (debugServe (debugServe sampleLaunch shellConnects) shellSends) :=
    System.Run.of_enabledAll (by decide +kernel)
  have hc : (debugServe sampleLaunch shellConnects).connectionOf 6 =
      some { id := 6, peerUid := some 2000 } := by decide +kernel
  exact ⟨by decide +kernel, (shell_confined hr hc rfl hrun).1⟩

end Appspawn
